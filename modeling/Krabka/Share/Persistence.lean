import Krabka.Share.Operations

/-!
# The persisted form of the window

`state/persistence.rs`: the projection of the window into the `StateBatch`
values that the share coordinator stores, and the machine that `load_from`
rebuilds from them.
-/

namespace Krabka.Share

structure StateBatch where
  firstOffset : Int
  lastOffset : Int
  deliveryState : Int
  deliveryCount : Int
  deriving DecidableEq

def dsAvailable : Int := 0
def dsAcquired : Int := 1
def dsAcknowledged : Int := 2
def dsArchiving : Int := 3
def dsArchived : Int := 4

def RecordState.code : RecordState → Int
  | .available | .acquired | .deferred => dsAvailable
  | .acknowledged => dsAcknowledged
  | .archiving => dsArchiving
  | .archived => dsArchived

def RecordState.ofCode (code : Int) : RecordState :=
  if code = dsAcknowledged then .acknowledged
  else if code = dsArchiving then .archiving
  else if code = dsArchived then .archived
  else .available

namespace AcquisitionState

def persistBatch (b : InFlightBatch) : StateBatch :=
  ⟨b.firstOffset, b.lastOffset, b.value.state.code, b.value.deliveryCount⟩

def toPersistBatches (s : AcquisitionState) : Int × Int × List StateBatch :=
  (s.startOffset, s.deliveryCompleteCount, s.batches.map persistBatch)

def restoreBatch (sb : StateBatch) : InFlightBatch where
  firstOffset := sb.firstOffset
  lastOffset := sb.lastOffset
  value := ⟨.ofCode sb.deliveryState, sb.deliveryCount, none, none⟩

/-- `load_from` up to its end. -/
def restored (s : AcquisitionState) (startOffset stateEpoch leaderEpoch : Int)
    (batches : List StateBatch) : AcquisitionState :=
  let batches := batches.map restoreBatch
  { s with
    startOffset := startOffset
    stateEpoch := stateEpoch
    leaderEpoch := leaderEpoch
    dirty := false
    batches := batches
    pendingDlq := (batches.filter fun b => b.value.state == .archiving).map fun b =>
      ⟨b.firstOffset, b.lastOffset, b.value.deliveryCount, none⟩
    endOffset := batches.foldl (fun e b => max e (b.lastOffset + 1)) startOffset
    deliveryCompleteCount := (batches.filter fun b => b.value.isTerminal).foldl
      (fun count b => saturate (count + clampI32 b.len)) 0 }

def loadFrom (s : AcquisitionState) (startOffset stateEpoch leaderEpoch : Int)
    (batches : List StateBatch) : AcquisitionState :=
  (s.restored startOffset stateEpoch leaderEpoch batches).advanceSpso

end AcquisitionState

end Krabka.Share

import Krabka.Lib.Extents
import Krabka.Lib.SortedMap
import Krabka.Log.Kernels

/-!
# Batches and the state of their producers

`RecordBatch` is the batch of `krabka_protocol` as the log reads it: its header
fields, its records and its lengths.  `TransactionState` holds what the
log keeps in memory about producers: their snapshot entries, the open
transactions, the complete transactions that the high watermark has not passed
and the coordinator epochs.

Three functions move this state.  `appendOwned` is the owned append path,
`appendVerbatim` the verbatim one, which treats every batch as data, and
`applyRecoveredBatchState` the replay of a recovery with its own copy of the
marker rules.  They agree on every batch but a control batch appended verbatim.
-/

namespace Krabka.Log

/-! ## Batches -/

/-- The parsed key and value of a control record: its type, and the coordinator
epoch of an end marker. -/
inductive ControlRecord where
  | abort (coordinatorEpoch : Int)
  | commit (coordinatorEpoch : Int)
  | barrier
  | other
  deriving DecidableEq

/-- The records of a batch, with the parsed control record beside each record of
a control batch. -/
inductive Payload (ρ : Type) where
  | data (records : List ρ)
  | control (records : List (ControlRecord × ρ))
  deriving DecidableEq

structure RecordBatch (ρ : Type) where
  baseOffset : Int
  lastOffsetDelta : Int
  partitionLeaderEpoch : Int
  maxTimestamp : Int
  producerId : Int
  producerEpoch : Int
  baseSequence : Int
  isTransactional : Bool
  deleteHorizonMs : Option Int
  payload : Payload ρ
  /-- The stored bytes that follow the batch header. -/
  bodyLen : Nat
  /-- The same without compression. -/
  plainLen : Nat := bodyLen
  deriving DecidableEq

variable {ρ : Type}

namespace RecordBatch

def headerLen : Nat := 61

variable (b : RecordBatch ρ)

/-- The bytes that the batch takes in the file of its segment. -/
def storedLen : Nat := headerLen + b.bodyLen

/-- `encoded_batch_len`, which counts the records without compression. -/
def encodedLen : Nat := headerLen + b.plainLen

def lastOffset : Int := b.baseOffset + b.lastOffsetDelta

instance : Extent (RecordBatch ρ) where
  first := baseOffset
  last := lastOffset

def isControlBatch : Bool :=
  match b.payload with
  | .data _ => false
  | .control _ => true

/-- The control record of the first record of a control batch. -/
def controlMarker : Option ControlRecord :=
  match b.payload with
  | .data _ => none
  | .control records => records.head?.map Prod.fst

theorem storedLen_pos : 0 < b.storedLen := by
  unfold storedLen headerLen
  omega

end RecordBatch

inductive ControlBatchKind where
  | transaction
  | barrier
  deriving DecidableEq

def controlBatchKind (b : RecordBatch ρ) : Option ControlBatchKind :=
  if b.isControlBatch then
    if b.controlMarker = some .barrier then some .barrier else some .transaction
  else none

structure TransactionMarkerFlags where
  isAbort : Bool
  isCommit : Bool
  deriving DecidableEq

def transactionMarkerFlags (b : RecordBatch ρ) : TransactionMarkerFlags :=
  match b.controlMarker with
  | some (.abort _) => ⟨true, false⟩
  | some (.commit _) => ⟨false, true⟩
  | _ => ⟨false, false⟩

/-- `batch_control_marker_coordinator_epoch`, for the end markers that callers
read it of. -/
def markerCoordinatorEpoch (b : RecordBatch ρ) : Option Int :=
  match b.controlMarker with
  | some (.abort epoch) => some epoch
  | some (.commit epoch) => some epoch
  | _ => none

/-! ## Producer entries -/

structure ProducerSnapshotEntry where
  producerEpoch : Int
  lastSequence : Int
  lastOffset : Int
  offsetDelta : Int
  timestamp : Int
  coordinatorEpoch : Int
  currentTxnFirstOffset : Option Int
  deriving DecidableEq

/-- The entry of a producer that has appended nothing yet. -/
def ProducerSnapshotEntry.empty (producerEpoch : Int) : ProducerSnapshotEntry where
  producerEpoch := producerEpoch
  lastSequence := -1
  lastOffset := -1
  offsetDelta := 0
  timestamp := -1
  coordinatorEpoch := -1
  currentTxnFirstOffset := none

/-- `producer_snapshot_entry_valid`: what a snapshot at `snapshotOffset` may say
about a producer. -/
def producerSnapshotEntryValid (snapshotOffset producerId : Int)
    (e : ProducerSnapshotEntry) : Bool :=
  let lastRecordValid :=
    (e.lastOffset = -1 ∧ e.lastSequence = -1 ∧ e.offsetDelta = 0) ∨
      (e.lastOffset ≥ 0 ∧ e.lastSequence ≥ 0 ∧ e.offsetDelta ≥ 0 ∧ e.lastOffset ≥ e.offsetDelta ∧
        e.lastOffset < snapshotOffset)
  let transactionValid :=
    match e.currentTxnFirstOffset with
    | none => true
    | some first => decide (first ≥ 0 ∧ first < snapshotOffset ∧ first ≤ e.lastOffset)
  decide (snapshotOffset ≥ 0 ∧ producerId ≥ 0 ∧ e.producerEpoch ≥ 0 ∧ e.coordinatorEpoch ≥ -1 ∧
    lastRecordValid) && transactionValid

/-- `increment_sequence`: producer sequences wrap at `2^31`. -/
def incrementSequence (sequence increment : Int) : Int := (sequence + increment) % 2147483648

/-- The producers of a log, `producer_state`. -/
abbrev ProducerState := SortedMap Int ProducerSnapshotEntry

/-- The entry of the producer of `b`, created when there is none yet. -/
def entryOf (s : ProducerState) (b : RecordBatch ρ) : ProducerSnapshotEntry :=
  (s.get? b.producerId).getD (.empty b.producerEpoch)

/-- The control branch of `update_owned_producer_entry`. -/
def updateControlEntry (e : ProducerSnapshotEntry) (b : RecordBatch ρ) : ProducerSnapshotEntry :=
  -- an end marker that advances the epoch clears the data of the epoch before it
  let e := if e.producerEpoch ≠ b.producerEpoch then
      { e with lastSequence := -1, lastOffset := -1, offsetDelta := 0 }
    else e
  let e := { e with producerEpoch := b.producerEpoch, timestamp := b.maxTimestamp }
  match markerCoordinatorEpoch b with
  | some epoch => { e with currentTxnFirstOffset := none, coordinatorEpoch := epoch }
  | none => e

/-- The entry that `update_data_producer_entry` leaves. -/
def updateDataEntry (e : ProducerSnapshotEntry) (b : RecordBatch ρ) : ProducerSnapshotEntry :=
  { e with
    producerEpoch := b.producerEpoch
    lastSequence := incrementSequence b.baseSequence b.lastOffsetDelta
    lastOffset := b.lastOffset
    offsetDelta := b.lastOffsetDelta
    timestamp := b.maxTimestamp
    currentTxnFirstOffset :=
      if b.isTransactional && e.currentTxnFirstOffset.isNone then some b.baseOffset
      else e.currentTxnFirstOffset }

/-- `update_data_producer_entry`.  A batch without a base sequence leaves the
entry as it is. -/
def updateDataProducerEntry (s : ProducerState) (b : RecordBatch ρ) : ProducerState :=
  if b.producerId < 0 ∨ b.baseSequence < 0 then s
  else s.insert b.producerId (updateDataEntry (entryOf s b) b)

def updateOwnedProducerEntry (s : ProducerState) (b : RecordBatch ρ) : ProducerState :=
  if b.producerId < 0 then s
  else if b.isControlBatch then s.insert b.producerId (updateControlEntry (entryOf s b) b)
  else updateDataProducerEntry s b

/-! ## Transactions -/

/-- One row of a `.txnindex`. -/
structure AbortedTxn where
  startOffset : Int
  lastOffset : Int
  producerId : Int
  lastStableOffset : Int
  deriving DecidableEq

@[ext]
structure TransactionState where
  producerState : ProducerState
  /-- The first offset of each producer's open transaction. -/
  pending : SortedMap Int Int
  /-- The marker offset of each complete transaction that the high watermark
  has not passed, by its first offset. -/
  unreplicated : SortedMap Int Int
  coordinatorEpochs : SortedMap Int Int
  deriving DecidableEq

/-- `clear_producer_and_transaction_state`. -/
def TransactionState.empty : TransactionState := ⟨.empty, .empty, .empty, .empty⟩

def firstUnstableOffset (starts : List Int) (logEnd : Int) : Option Int :=
  if starts.any (logEnd < ·) then none else some (starts.foldl min logEnd)

def transactionMarkerCloses (isAbort isCommit hasPending : Bool) : Bool :=
  (isAbort || isCommit) && !(isAbort && isCommit) && hasPending

def abortedTransactionInterval (pendingStart : Option Int) (markerLast producerId : Int) :
    Option (Int × Int) :=
  match pendingStart with
  | none => none
  | some start => if producerId < 0 ∨ markerLast < start then none else some (start, markerLast)

namespace TransactionState

variable (s : TransactionState)

/-- The smallest and the greatest start of an open transaction. -/
def pendingBounds : Option (Int × Int) :=
  match s.pending.values.min?, s.pending.values.max? with
  | some first, some last => some (first, last)
  | _, _ => none

/-- `refresh_lso`: the first unstable offset of a log that ends at `logEnd`. -/
def refreshLso (logEnd : Int) : Except LogError Int :=
  let (first, last) := s.pendingBounds.getD (logEnd, logEnd)
  let completed := s.unreplicated.keys.head?.getD logEnd
  match firstUnstableOffset [first, last, completed] logEnd with
  | some lso => .ok lso
  | none => .error (.corrupt s!"pending transaction starts beyond log end {logEnd}")

variable (b : RecordBatch ρ)

def recordPendingTransaction : TransactionState :=
  { s with pending := s.pending.orInsert b.producerId b.baseOffset }

/-- Whether the marker `b` ends an open transaction. -/
def closes : Bool :=
  let flags := transactionMarkerFlags b
  transactionMarkerCloses flags.isAbort flags.isCommit (s.pending.contains b.producerId)

/-- The coordinator epoch of an end marker is kept before anything is written. -/
def noteCoordinatorEpoch : TransactionState :=
  match markerCoordinatorEpoch b with
  | some epoch =>
    if b.producerId < 0 then s
    else { s with coordinatorEpochs := s.coordinatorEpochs.insert b.producerId epoch }
  | none => s

/-- The row that an ABORT marker adds to the active `.txnindex`. -/
def abortedTxn : Except LogError (Option AbortedTxn) :=
  if s.closes b && (transactionMarkerFlags b).isAbort then
    match abortedTransactionInterval (s.pending.get? b.producerId) b.lastOffset b.producerId with
    | none => .error (.corrupt
        s!"invalid aborted transaction interval for producer {b.producerId}")
    | some (start, last) =>
      let otherStarts := (s.pending.erase b.producerId).values ++ s.unreplicated.keys.head?.toList
      match firstUnstableOffset otherStarts (b.lastOffset + 1) with
      | none => .error (.corrupt
          s!"pending transaction starts beyond aborted marker offset for producer {b.producerId}")
      | some lastStableOffset => .ok (some ⟨start, last, b.producerId, lastStableOffset⟩)
  else .ok none

/-- The marker moves the producer's open transaction to the complete ones. -/
def closeTransaction : TransactionState :=
  if s.closes b then
    match s.pending.get? b.producerId with
    | some first =>
      { s with
        pending := s.pending.erase b.producerId
        unreplicated := s.unreplicated.insert first b.lastOffset }
    | none => s
  else s

/-- `apply_transaction_marker`, with the row it adds to the transaction index. -/
def applyTransactionMarker : Except LogError (TransactionState × Option AbortedTxn) :=
  let s := s.noteCoordinatorEpoch b
  match s.abortedTxn b with
  | .error e => .error e
  | .ok row => .ok (s.closeTransaction b, row)

/-- The state and the index row that `append_preserving_offset_inner` leaves for
`b`. -/
def appendOwned : Except LogError (TransactionState × Option AbortedTxn) :=
  match controlBatchKind b with
  | some .barrier => .ok (s, none)
  | some .transaction =>
    match s.applyTransactionMarker b with
    | .error e => .error e
    | .ok (s, row) =>
      .ok ({ s with producerState := updateOwnedProducerEntry s.producerState b }, row)
  | none =>
    let s := if b.isTransactional ∧ b.producerId ≥ 0 then s.recordPendingTransaction b else s
    .ok ({ s with producerState := updateOwnedProducerEntry s.producerState b }, none)

/-- The state that `append_verbatim_preserving_offset` leaves for `b`.  It reads
the header only and takes the batch for data. -/
def appendVerbatim : TransactionState :=
  let s := if b.isTransactional ∧ b.producerId ≥ 0 then s.recordPendingTransaction b else s
  { s with producerState := updateDataProducerEntry s.producerState b }

def applyRecoveredBatchState : TransactionState :=
  if controlBatchKind b = some .barrier then s
  else if b.producerId < 0 then s
  else
    let s := { s with producerState := updateOwnedProducerEntry s.producerState b }
    if b.isControlBatch then (s.closeTransaction b).noteCoordinatorEpoch b
    else if b.isTransactional then s.recordPendingTransaction b
    else s

/-- One entry of a loaded snapshot restores its open transaction and its
coordinator epoch. -/
def restoreEntry (entry : Int × ProducerSnapshotEntry) : TransactionState :=
  { s with
    pending := match entry.2.currentTxnFirstOffset with
      | some first => s.pending.insert entry.1 first
      | none => s.pending
    coordinatorEpochs :=
      if entry.2.coordinatorEpoch ≥ 0 then
        s.coordinatorEpochs.insert entry.1 entry.2.coordinatorEpoch
      else s.coordinatorEpochs }

/-- The state that a snapshot restores, before the replay of the tail. -/
def ofSnapshot (producerState : ProducerState) : TransactionState :=
  producerState.entries.foldl restoreEntry { empty with producerState := producerState }

/-- `coordinator_epoch`: the epoch of the last end marker of a producer. -/
def coordinatorEpoch (producerId : Int) : Int :=
  (s.coordinatorEpochs.get? producerId).getD (-1)

end TransactionState

end Krabka.Log

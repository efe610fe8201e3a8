import Krabka.Lib.RunList

/-!
# The acquisition state of a share partition

`crates/broker/src/share_partition/state.rs` with `state/window.rs` and
`state/dlq.rs`: the delivery state of every offset of the live window
`[start_offset, end_offset)`, kept as runs of offsets with one state, one
delivery count and one lock, and the helpers that cut, join, archive and prune
the runs.

Offsets, delivery counts and instants are integers without a bound.  The
delivery-complete count is the source's `i32`: its saturating and its plain
additions are kept apart.
-/

namespace Krabka.Share

abbrev Member := String

/-! ## `i32` arithmetic -/

def i32Max : Int := 2147483647
def i32Min : Int := -2147483648

/-- `i32::saturating_add`, on the sum. -/
def saturate (n : Int) : Int := max i32Min (min i32Max n)

/-- An `i32` sum of a build without overflow checks. -/
def wrap (n : Int) : Int := n.bmod 4294967296

def clampI32 (n : Int) : Int := if i32Min ≤ n ∧ n ≤ i32Max then n else i32Max

/-! ## The state -/

inductive RecordState
  | available
  | acquired
  | acknowledged
  | archiving
  | archived
  | deferred
  deriving DecidableEq

def RecordState.isTerminal : RecordState → Bool
  | .acknowledged | .archived => true
  | _ => false

inductive AckType
  | gap
  | accept
  | release
  | reject
  deriving DecidableEq

/-- What an `InFlightBatch` says of each of its offsets. -/
structure Delivery where
  state : RecordState
  deliveryCount : Int
  acquiredBy : Option Member
  lockDeadline : Option Int
  deriving DecidableEq

/-- `InFlightBatch`: its offsets are those of the run. -/
abbrev InFlightBatch := Run Delivery

def Delivery.isTerminal (d : Delivery) : Bool := d.state.isTerminal

def Delivery.clearAcquisition (d : Delivery) : Delivery :=
  { d with acquiredBy := none, lockDeadline := none }

def InFlightBatch.acquiredWithin (b : InFlightBatch) (first last : Int) : Bool :=
  b.firstOffset ≥ first && b.lastOffset ≤ last && b.value.state == .acquired

/-- `InFlightBatch::archive_terminal`: the archived batch and the count. -/
def InFlightBatch.archiveTerminal (b : InFlightBatch) (completeCount : Int) : Delivery × Int :=
  ({ b.value with state := .archived }, saturate (completeCount + clampI32 b.len))

/-- The batches that `split_at` leaves of a batch. -/
def InFlightBatch.splitAt (b : InFlightBatch) (split : Int) : List InFlightBatch :=
  if split ≤ b.firstOffset ∨ split > b.lastOffset then [b]
  else [{ b with lastOffset := split - 1 }, { b with firstOffset := split }]

inductive DlqCause
  | clientReject
  | deliveryCountExceeded
  deriving DecidableEq

structure DlqRange where
  first : Int
  last : Int
  deliveryCount : Int
  cause : Option DlqCause
  deriving DecidableEq

structure AcquisitionState where
  startOffset : Int
  endOffset : Int
  stateEpoch : Int
  leaderEpoch : Int
  dirty : Bool
  deliveryCompleteCount : Int
  batches : List InFlightBatch
  dlqEnabled : Bool
  pendingDlq : List DlqRange
  deriving DecidableEq

def AcquisitionState.new (startOffset : Int) : AcquisitionState where
  startOffset := startOffset
  endOffset := startOffset
  stateEpoch := 0
  leaderEpoch := 0
  dirty := false
  deliveryCompleteCount := 0
  batches := []
  dlqEnabled := false
  pendingDlq := []

/-! ## Archiving a run -/

/-- `ArchiveSink`: what archiving a run touches beside the runs. -/
structure ArchiveSink where
  dlqEnabled : Bool
  deliveryCompleteCount : Int
  pendingDlq : List DlqRange
  deriving DecidableEq

def ArchiveSink.archive (sink : ArchiveSink) (batch : InFlightBatch) (cause : DlqCause) :
    Delivery × ArchiveSink :=
  if sink.dlqEnabled then
    ({ batch.value.clearAcquisition with state := .archiving },
      { sink with
        pendingDlq := sink.pendingDlq ++
          [⟨batch.firstOffset, batch.lastOffset, batch.value.deliveryCount, some cause⟩] })
  else
    let (value, count) := batch.archiveTerminal sink.deliveryCompleteCount
    (value.clearAcquisition, { sink with deliveryCompleteCount := count })

/-- `give_back`.  The caller's use of its result is the choice it makes of the
runs to give back. -/
def giveBack (batch : InFlightBatch) (maxAttempts : Int) (sink : ArchiveSink) :
    Delivery × ArchiveSink :=
  if batch.value.deliveryCount ≥ maxAttempts then
    sink.archive batch .deliveryCountExceeded
  else
    ({ batch.value.clearAcquisition with state := .available }, sink)

namespace AcquisitionState

variable (s : AcquisitionState)

/-- The sink of `runs_and_sink`. -/
def sink : ArchiveSink where
  dlqEnabled := s.dlqEnabled
  deliveryCompleteCount := s.deliveryCompleteCount
  pendingDlq := s.pendingDlq

/-- The loops over `runs_and_sink`: each run gets the value `f` gives it, and
the sink goes through the loop. -/
def sweepRuns (f : ArchiveSink → InFlightBatch → Delivery × ArchiveSink) : AcquisitionState :=
  let (batches, sink) := Run.sweep f s.sink s.batches
  { s with
    batches := batches
    deliveryCompleteCount := sink.deliveryCompleteCount
    pendingDlq := sink.pendingDlq }

/-! ## The geometry of the window -/

def splitAt (i : Nat) (split : Int) : AcquisitionState :=
  match s.batches[i]? with
  | none => s
  | some b => { s with batches := s.batches.take i ++ b.splitAt split ++ s.batches.drop (i + 1) }

def splitAtOffset (offset : Int) : AcquisitionState :=
  match s.batches.findIdx? (fun b => b.firstOffset + 1 ≤ offset && offset ≤ b.lastOffset) with
  | some i => s.splitAt i offset
  | none => s

def splitValidRange (first last : Int) : AcquisitionState × Bool :=
  if first > last then (s, false)
  else ((s.splitAtOffset first).splitAtOffset (last + 1), true)

/-- The `dedup_by` of `coalesce_with` behind the run it keeps last. -/
def coalesceFrom (previous : InFlightBatch) : List InFlightBatch → List InFlightBatch
  | [] => [previous]
  | current :: rest =>
    if previous.lastOffset + 1 = current.firstOffset ∧ previous.value = current.value then
      coalesceFrom { previous with lastOffset := current.lastOffset } rest
    else previous :: coalesceFrom current rest

def coalesce : AcquisitionState :=
  { s with
    batches := match s.batches with
      | [] => []
      | b :: rest => coalesceFrom b rest }

/-- The loop of `advance_spso`: how many batches the terminal prefix has, where
it ends, and its records. -/
def terminalPrefix : List InFlightBatch → Nat × Int × Int → Nat × Int × Int
  | [], acc => acc
  | b :: rest, (prefixLen, startOffset, completed) =>
    if b.firstOffset ≠ startOffset ∨ b.value.isTerminal = false then
      (prefixLen, startOffset, completed)
    else
      terminalPrefix rest (prefixLen + 1, b.lastOffset + 1, saturate (completed + clampI32 b.len))

def advanceSpso : AcquisitionState :=
  let (prefixLen, startOffset, completed) := terminalPrefix s.batches (0, s.startOffset, 0)
  let s :=
    if prefixLen ≠ 0 then
      { s with
        startOffset := startOffset
        deliveryCompleteCount := saturate (s.deliveryCompleteCount - completed)
        batches := s.batches.drop prefixLen }
    else s
  let s := if s.endOffset < s.startOffset then { s with endOffset := s.startOffset } else s
  s.coalesce

/-- `archive_matching`: the state and whether a run was archived. -/
def archiveMatching (eligible : InFlightBatch → Bool)
    (clearAcquisition : Bool) : AcquisitionState × Bool :=
  (s.sweepRuns fun sink b =>
      if eligible b then
        let (value, count) := b.archiveTerminal sink.deliveryCompleteCount
        (if clearAcquisition then value.clearAcquisition else value,
          { sink with deliveryCompleteCount := count })
      else (b.value, sink),
    s.batches.any eligible)

/-! ## The range of an acknowledgement -/

def inFlightEnd : Option Int :=
  (s.batches.reverse.find? fun b =>
    !((b.value.state == .available || b.value.state == .deferred) &&
      b.value.deliveryCount == 0)).map
    fun b => b.lastOffset + 1

inductive AckError
  | invalidRequest
  | invalidRecordState
  deriving DecidableEq

def ackBounds (first last : Int) : Except AckError (Option (Int × Int)) :=
  if last < s.startOffset then .ok none
  else
    match s.inFlightEnd with
    | none => .error .invalidRecordState
    | some endOffset =>
      if last ≥ endOffset then .error .invalidRequest
      else .ok (some (max first s.startOffset, last))

/-- The loop of `range_acquired_by` from the offset `cursor`: whether every
covered run is held by `member`, and where the cover ends. -/
def acquiredFrom (member : Member) (first last : Int) : List InFlightBatch → Int → Bool
  | [], cursor => cursor > last
  | b :: rest, cursor =>
    if b.lastOffset < first ∨ b.firstOffset > last then acquiredFrom member first last rest cursor
    else if b.firstOffset > cursor then false
    else if b.value.state ≠ .acquired ∨ b.value.acquiredBy ≠ some member then false
    else if b.lastOffset + 1 > last then true
    else acquiredFrom member first last rest (b.lastOffset + 1)

def rangeAcquiredBy (member : Member) (first last : Int) : Bool :=
  acquiredFrom member first last s.batches first

def splitAcquiredRange (member : Member) (first last : Int) :
    Except AckError (Option (AcquisitionState × Int × Int)) :=
  if first > last then .error .invalidRecordState
  else
    match s.ackBounds first last with
    | .error e => .error e
    | .ok none => .ok none
    | .ok (some (first, last)) =>
      if s.rangeAcquiredBy member first last then
        .ok (some ((s.splitAtOffset first).splitAtOffset (last + 1), first, last))
      else .error .invalidRecordState

end AcquisitionState

end Krabka.Share

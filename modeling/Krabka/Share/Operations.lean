import Krabka.Share.State

/-!
# The operations of the acquisition state

`state/acquire.rs`, `state/acknowledge.rs`, `state/locks.rs`, `state/deferral.rs`
and the public part of `state/dlq.rs`.

An operation that finishes with `advance_spso` is written in two parts: what it
does to the runs (`…Runs`), and the end.  `Op.settled` is the state between the
two, in which the records that the operation has completed are still in the
window.
-/

namespace Krabka.Share

structure AcquireShape where
  maxRecords : Int
  batchEnds : Option (List Int)
  deriving DecidableEq

structure AcquiredRange where
  first : Int
  last : Int
  deliveryCount : Int
  deriving DecidableEq

inductive AckAction
  | disposition (ack : AckType)
  | renew (deadline : Int)
  deriving DecidableEq

namespace AcquisitionState

variable (s : AcquisitionState)

/-- The end of the operations that archive runs: a change marks the state dirty
and moves the start offset. -/
def close (changed : Bool) : AcquisitionState :=
  if changed then { s with dirty := true }.advanceSpso else s

/-! ## Growing the window -/

def hasAvailable : Bool :=
  s.batches.any fun b => b.value.state == .available

def deferredRecords : Int :=
  Run.weigh (fun d => d.state == .deferred) s.batches

def inFlightRecords : Int :=
  s.endOffset - s.startOffset - s.deferredRecords

def materialize (hwm : Int) (maxRecordLocks : Int) : AcquisitionState :=
  if s.hasAvailable ∨ s.endOffset ≥ hwm then s
  else
    let room := max maxRecordLocks 1 - s.inFlightRecords
    if room ≤ 0 then s
    else
      let last := min (hwm - 1) (s.endOffset + room - 1)
      let added : InFlightBatch := ⟨s.endOffset, last, ⟨.available, 0, none, none⟩⟩
      { s with
        batches := s.batches ++ [added]
        endOffset := last + 1 }.coalesce

/-! ## Taking records out of it -/

/-- `archive_range` up to its end. -/
def archiveRangeRuns (first last : Int)
    (eligible : InFlightBatch → Bool) (clearAcquisition : Bool) : AcquisitionState × Bool :=
  match s.splitValidRange first last with
  | (s, false) => (s, false)
  | (s, true) => s.archiveMatching eligible clearAcquisition

/-- The runs that `archive_internal` archives. -/
def internalTo (first last : Int) (b : InFlightBatch) : Bool :=
  b.lastOffset ≥ first && b.firstOffset ≤ last && !b.value.isTerminal

/-- `archive_internal`.  Its `archive_range` does not coalesce unchanged runs. -/
def archiveInternal (first last : Int) : AcquisitionState :=
  let (s, changed) := s.archiveRangeRuns first last (internalTo first last) true
  s.close changed

/-- What `advance_past_log_start` does to a run below the log start. -/
def lapse (sink : ArchiveSink) (b : InFlightBatch) : Delivery × ArchiveSink :=
  if b.value.state == .available || b.value.state == .deferred then
    let (value, count) := b.archiveTerminal sink.deliveryCompleteCount
    (value.clearAcquisition, { sink with deliveryCompleteCount := count })
  else (b.value, sink)

/-- The loop of `advance_past_log_start`. -/
def archiveBelow (logStart : Int) : AcquisitionState :=
  let s := s.splitAtOffset logStart
  let (batches, sink) := Run.sweep lapse s.sink
    (s.batches.takeWhile fun b => b.firstOffset < logStart)
  { s with
    batches := batches ++ s.batches.dropWhile fun b => b.firstOffset < logStart
    deliveryCompleteCount := sink.deliveryCompleteCount }

/-- The end of `advance_past_log_start`. -/
def jumpTo (logStart : Int) : AcquisitionState :=
  let blocked := s.batches.head?.any fun b => b.firstOffset < logStart
  let s := if !blocked && s.startOffset < logStart then { s with startOffset := logStart } else s
  if s.endOffset < s.startOffset then { s with endOffset := s.startOffset } else s

def advancePastLogStart (logStart : Int) : AcquisitionState :=
  if logStart ≤ s.startOffset then s
  else (s.archiveBelow logStart).advanceSpso.jumpTo logStart

/-- The runs that `archive_exhausted` archives. -/
def exhausted (maxAttempts : Int) (b : InFlightBatch) : Bool :=
  b.value.state == .available && b.value.deliveryCount ≥ maxAttempts

/-- The loop of `archive_exhausted`. -/
def exhaustRuns (maxAttempts : Int) : AcquisitionState × Bool :=
  (s.sweepRuns fun sink b =>
      if exhausted maxAttempts b then sink.archive b .deliveryCountExceeded else (b.value, sink),
    s.batches.any (exhausted maxAttempts))

def archiveExhausted (maxAttempts : Int) : AcquisitionState :=
  let (s, changed) := s.exhaustRuns maxAttempts
  s.close changed

/-! ## Handing records out -/

def throttleLimit (maxAttempts : Int) : Int :=
  max 2 (maxAttempts.tdiv 2 + maxAttempts.tmod 2)

/-- The arguments of `acquire_shaped`. -/
structure AcquireArgs where
  member : Member
  shape : AcquireShape
  lastOffset : Int
  now : Int
  lockDur : Int
  maxAttempts : Int
  deriving DecidableEq

def AcquireArgs.throttled (a : AcquireArgs) (b : InFlightBatch) : Bool :=
  b.value.deliveryCount ≥ throttleLimit a.maxAttempts

/-- How many records the walk takes of `b`, before batch ends and the last
offset of the read. -/
def AcquireArgs.take (a : AcquireArgs) (b : InFlightBatch) (remaining : Int) : Int :=
  if a.throttled b then
    let halvings := (b.value.deliveryCount - throttleLimit a.maxAttempts + 1).toNat
    let portion := max (b.len / 2 ^ min halvings 63) 1
    if a.maxAttempts > 2 ∧ b.value.deliveryCount = a.maxAttempts - 1 then 1
    else min portion remaining
  else remaining

/-- Where the walk splits `b`. -/
def AcquireArgs.splitPoint (a : AcquireArgs) (b : InFlightBatch) (remaining : Int) : Int :=
  let split := b.firstOffset + a.take b remaining
  let split :=
    match a.throttled b, a.shape.batchEnds with
    | false, some ends => ((ends.find? fun e => e ≥ split - 1).map (· + 1)).getD split
    | _, _ => split
  min split (a.lastOffset + 1)

/-- The locals of `acquire_shaped`, and the sink. -/
structure AcquireWalk where
  sink : ArchiveSink
  acquired : List AcquiredRange
  remaining : Int
  anyChange : Bool
  archived : Bool
  deriving DecidableEq

def AcquireArgs.handOut (a : AcquireArgs) (d : Delivery) : Delivery where
  state := .acquired
  deliveryCount := d.deliveryCount + 1
  acquiredBy := some a.member
  lockDeadline := some (a.now + a.lockDur)

/-- The `while` loop of `acquire_shaped` on the batches from index `i` on. -/
def acquireLoop (a : AcquireArgs) :
    Nat → AcquireWalk → List InFlightBatch → List InFlightBatch × AcquireWalk
  | 0, w, batches => (batches, w)
  | _ + 1, w, [] => ([], w)
  | fuel + 1, w, b :: rest =>
    if w.remaining ≤ 0 ∨ b.firstOffset > a.lastOffset then (b :: rest, w)
    else if b.value.state ≠ .available then
      let (rest, w) := acquireLoop a fuel w rest
      (b :: rest, w)
    else if b.value.deliveryCount ≥ a.maxAttempts then
      let (value, sink) := w.sink.archive b .deliveryCountExceeded
      let (rest, w) :=
        acquireLoop a fuel { w with sink := sink, anyChange := true, archived := true } rest
      ({ b with value := value } :: rest, w)
    else if a.throttled b ∧ w.acquired ≠ [] then (b :: rest, w)
    else
      match b.splitAt (a.splitPoint b w.remaining) with
      | [] => (b :: rest, w)
      | head :: tail =>
        let value := a.handOut head.value
        let w :=
          { w with
            acquired := w.acquired ++ [⟨head.firstOffset, head.lastOffset, value.deliveryCount⟩]
            remaining := w.remaining - head.len
            anyChange := true }
        if a.throttled b then ({ head with value := value } :: (tail ++ rest), w)
        else
          let (rest, w) := acquireLoop a fuel w (tail ++ rest)
          ({ head with value := value } :: rest, w)

/-- The walk of `acquire_shaped` over the window.  Each round drops a batch from
the list or a record from the budget, so the fuel is enough. -/
def acquireRuns (a : AcquireArgs) : AcquisitionState × AcquireWalk :=
  let remaining := max a.shape.maxRecords 0
  let (batches, w) := acquireLoop a (remaining.toNat + s.batches.length)
    ⟨s.sink, [], remaining, false, false⟩ s.batches
  ({ s with
      batches := batches
      deliveryCompleteCount := w.sink.deliveryCompleteCount
      pendingDlq := w.sink.pendingDlq
      dirty := s.dirty || w.archived },
    w)

def acquireShaped (a : AcquireArgs) : AcquisitionState × List AcquiredRange :=
  let (s, w) := s.acquireRuns a
  (if w.anyChange then s.advanceSpso else s, w.acquired)

variable (member : Member)

def acquire (maxRecords : Int) (lastOffset : Int)
    (now : Int) (lockDur : Int) (maxAttempts : Int) : AcquisitionState × List AcquiredRange :=
  s.acquireShaped ⟨member, ⟨maxRecords, none⟩, lastOffset, now, lockDur, maxAttempts⟩

/-! ## Acknowledgements -/

def settle (run : InFlightBatch) (state : RecordState) (sink : ArchiveSink) :
    Delivery × ArchiveSink :=
  ({ run.value.clearAcquisition with state := state },
    { sink with deliveryCompleteCount := wrap (sink.deliveryCompleteCount + clampI32 run.len) })

def applyAck (run : InFlightBatch) (ack : AckType) (maxAttempts : Int) (sink : ArchiveSink) :
    Delivery × ArchiveSink :=
  match ack with
  | .accept => settle run .acknowledged sink
  | .release => giveBack run maxAttempts sink
  | .reject => sink.archive run .clientReject
  | .gap => settle run .archived sink

/-- The loop of `acknowledge`. -/
def ackRuns (first last : Int) (ack : AckType) (maxAttempts : Int) : AcquisitionState :=
  s.sweepRuns fun sink b =>
    if b.acquiredWithin first last then applyAck b ack maxAttempts sink else (b.value, sink)

def acknowledge (first last : Int) (ack : AckType)
    (maxAttempts : Int) : AcquisitionState × Except AckError Unit :=
  match s.splitAcquiredRange member first last with
  | .error e => (s, .error e)
  | .ok none => (s, .ok ())
  | .ok (some (s, first, last)) => ((s.ackRuns first last ack maxAttempts).close true, .ok ())

/-- `next_action_run`: the run and the actions behind it. -/
def nextActionRun : List AckAction → Option (AckAction × Nat) × List AckAction
  | [] => (none, [])
  | action :: rest =>
    (some (action, 1 + (rest.takeWhile (· == action)).length), rest.dropWhile (· == action))

/-- The locals of `acknowledge_mixed_with`. -/
structure MixedWalk where
  sink : ArchiveSink
  actionRun : Option (AckAction × Nat)
  actions : List AckAction
  deriving DecidableEq

/-- The action run after `consumed` of its offsets. -/
def MixedWalk.consume (w : MixedWalk) (action : AckAction) (same consumed : Nat) : MixedWalk :=
  if consumed = same then
    let (actionRun, actions) := nextActionRun w.actions
    { w with actionRun := actionRun, actions := actions }
  else { w with actionRun := some (action, same - consumed) }

def applyAction (run : InFlightBatch) (action : AckAction) (maxAttempts : Int)
    (sink : ArchiveSink) : Delivery × ArchiveSink :=
  match action with
  | .disposition ack => applyAck run ack maxAttempts sink
  | .renew deadline => ({ run.value with lockDeadline := some deadline }, sink)

/-- The `while` loop of `acknowledge_mixed_with` on the offsets of `batch` from
`offset` to `batchLast`.  Each round takes an offset or more, so that their
number is fuel enough. -/
def mixedPieces (batch : InFlightBatch) (batchLast : Int) (maxAttempts : Int) :
    Nat → Int → MixedWalk → List InFlightBatch × MixedWalk
  | 0, _, w => ([], w)
  | fuel + 1, offset, w =>
    if offset > batchLast then ([], w)
    else
      match w.actionRun with
      | none => ([{ batch with firstOffset := offset, lastOffset := batchLast }], w)
      | some (action, same) =>
        let runLast := min (offset + same - 1) batchLast
        let run : InFlightBatch := { batch with firstOffset := offset, lastOffset := runLast }
        let (value, sink) := applyAction run action maxAttempts w.sink
        let consumed := min (runLast - offset + 1).toNat same
        let w := { w with sink := sink }.consume action same consumed
        let (pieces, w) := mixedPieces batch batchLast maxAttempts fuel (runLast + 1) w
        ({ run with value := value } :: pieces, w)

/-- The batches that `acknowledge_mixed_with` puts in the place of `batch`. -/
def mixedBatch (batch : InFlightBatch) (first last : Int) (maxAttempts : Int) (w : MixedWalk) :
    List InFlightBatch × MixedWalk :=
  if batch.lastOffset < first ∨ batch.firstOffset > last then ([batch], w)
  else
    let before : List InFlightBatch :=
      if batch.firstOffset < first then [{ batch with lastOffset := first - 1 }] else []
    let offset := max batch.firstOffset first
    let batchLast := min batch.lastOffset last
    let (pieces, w) :=
      mixedPieces batch batchLast maxAttempts (batchLast + 1 - offset).toNat offset w
    let behind : List InFlightBatch :=
      if batch.lastOffset > last then [{ batch with firstOffset := last + 1 }] else []
    (before ++ pieces ++ behind, w)

/-- The `for` loop of `acknowledge_mixed_with`. -/
def mixedBatches (first last : Int) (maxAttempts : Int) :
    List InFlightBatch → MixedWalk → List InFlightBatch × MixedWalk
  | [], w => ([], w)
  | batch :: rest, w =>
    let (pieces, w) := mixedBatch batch first last maxAttempts w
    let (rest, w) := mixedBatches first last maxAttempts rest w
    (pieces ++ rest, w)

/-- The window after the loop of `acknowledge_mixed_with`. -/
def mixedRuns (first last : Int) (actions : List AckAction)
    (maxAttempts : Int) : AcquisitionState :=
  let (actionRun, actions) := nextActionRun actions
  let (batches, w) := mixedBatches first last maxAttempts s.batches ⟨s.sink, actionRun, actions⟩
  { s with
    batches := batches
    deliveryCompleteCount := w.sink.deliveryCompleteCount
    pendingDlq := w.sink.pendingDlq }

/-- The checks of `acknowledge_mixed_with`: the live part of the range and its
actions, or nothing to do.  `actions start stop` are the actions of the input
range from `start` to `stop`. -/
def mixedRange (first last : Int)
    (actionCount : Nat) (actions : Nat → Nat → List AckAction) :
    Except AckError (Option (Int × Int × List AckAction)) :=
  if last - first + 1 ≠ actionCount then .error .invalidRequest
  else
    match s.ackBounds first last with
    | .error e => .error e
    | .ok none => .ok none
    | .ok (some (liveFirst, liveLast)) =>
      if s.rangeAcquiredBy member liveFirst liveLast = false then .error .invalidRecordState
      else if liveFirst - first < 0 then .error .invalidRequest
      else
        let completedPrefix := (liveFirst - first).toNat
        let live := actions completedPrefix actionCount
        if live.length ≠ actionCount - completedPrefix then .error .invalidRequest
        else .ok (some (liveFirst, liveLast, live))

def acknowledgeMixedWith (first last : Int)
    (actionCount : Nat) (actions : Nat → Nat → List AckAction) (maxAttempts : Int) :
    AcquisitionState × Except AckError Unit :=
  match s.mixedRange member first last actionCount actions with
  | .error e => (s, .error e)
  | .ok none => (s, .ok ())
  | .ok (some (first, last, live)) => ((s.mixedRuns first last live maxAttempts).close true, .ok ())

def acknowledgeMixed (first last : Int)
    (actions : List AckAction) (maxAttempts : Int) : AcquisitionState × Except AckError Unit :=
  s.acknowledgeMixedWith member first last actions.length
    (fun start stop => (actions.drop start).take (stop - start)) maxAttempts

/-! ## Locks -/

/-- The loop of `renew`. -/
def renewRuns (first last : Int) (deadline : Int) : AcquisitionState :=
  s.sweepRuns fun sink b =>
    if b.acquiredWithin first last then ({ b.value with lockDeadline := some deadline }, sink)
    else (b.value, sink)

def renew (first last : Int) (now : Int)
    (lockDur : Int) : AcquisitionState × Except AckError Unit :=
  match s.splitAcquiredRange member first last with
  | .error e => (s, .error e)
  | .ok none => (s, .ok ())
  | .ok (some (s, first, last)) =>
    ({ s.renewRuns first last (now + lockDur) with dirty := true }, .ok ())

/-- The loop of `release_matching`, and whether a run matched. -/
def releaseRuns (maxAttempts : Int) (held : InFlightBatch → Bool) : AcquisitionState × Bool :=
  (s.sweepRuns fun sink b => if held b then giveBack b maxAttempts sink else (b.value, sink),
    s.batches.any held)

def releaseMatching (maxAttempts : Int) (held : InFlightBatch → Bool) : AcquisitionState :=
  let (s, changed) := s.releaseRuns maxAttempts held
  s.close changed

def expired (now : Int) (b : InFlightBatch) : Bool :=
  b.value.state == .acquired && b.value.lockDeadline.any fun deadline => now ≥ deadline

def heldBy (b : InFlightBatch) : Bool :=
  b.value.state == .acquired && b.value.acquiredBy == some member

def expireLocks (now : Int) (maxAttempts : Int) : AcquisitionState :=
  s.releaseMatching maxAttempts (expired now)

def releaseMember (maxAttempts : Int) : AcquisitionState :=
  s.releaseMatching maxAttempts (heldBy member)

/-! ## Scheduled delivery -/

def deferInternal (first last : Int) : AcquisitionState :=
  if first > last then s
  else
    (((s.splitAtOffset first).splitAtOffset (last + 1)).sweepRuns fun sink b =>
      if (b.lastOffset < first ∨ b.firstOffset > last) ∨ b.value.state ≠ .available then
        (b.value, sink)
      else ({ b.value with state := .deferred }, sink)).coalesce

def promoteDeferred : AcquisitionState :=
  (s.sweepRuns fun sink b =>
    if b.value.state = .deferred then ({ b.value with state := .available }, sink)
    else (b.value, sink)).coalesce

/-! ## The dead-letter queue -/

def setDlqEnabled (enabled : Bool) : AcquisitionState :=
  { s with dlqEnabled := enabled }

def takePendingDlq : AcquisitionState × List DlqRange :=
  ({ s with pendingDlq := [] }, s.pendingDlq)

/-- The runs that `finish_archiving` archives. -/
def finishing (first last : Int) (b : InFlightBatch) : Bool :=
  b.value.state == .archiving && b.firstOffset ≥ first && b.lastOffset ≤ last

def finishArchiving (first last : Int) : AcquisitionState :=
  match s.splitValidRange first last with
  | (s, false) => s
  | (s, true) =>
    let (s, changed) := s.archiveMatching (finishing first last) false
    { s with dirty := s.dirty || changed }.coalesce

def pruneTerminalPrefix : AcquisitionState := s.advanceSpso

end AcquisitionState

/-! ## Operations as values -/

open AcquisitionState

inductive Op
  | materialize (hwm : Int) (maxRecordLocks : Int)
  | archiveInternal (first last : Int)
  | advancePastLogStart (logStart : Int)
  | archiveExhausted (maxAttempts : Int)
  | acquireShaped (args : AcquireArgs)
  | acknowledge (member : Member) (first last : Int) (ack : AckType) (maxAttempts : Int)
  | acknowledgeMixedWith (member : Member) (first last : Int) (actionCount : Nat)
      (actions : Nat → Nat → List AckAction) (maxAttempts : Int)
  | renew (member : Member) (first last : Int) (now : Int) (lockDur : Int)
  | expireLocks (now : Int) (maxAttempts : Int)
  | releaseMember (member : Member) (maxAttempts : Int)
  | deferInternal (first last : Int)
  | promoteDeferred
  | setDlqEnabled (enabled : Bool)
  | takePendingDlq
  | finishArchiving (first last : Int)
  | pruneTerminalPrefix

/-- The state after an operation.  `acquire` and `acknowledge_mixed` are
`acquire_shaped` and `acknowledge_mixed_with` at arguments of their own. -/
def Op.run (s : AcquisitionState) : Op → AcquisitionState
  | .materialize hwm maxRecordLocks => s.materialize hwm maxRecordLocks
  | .archiveInternal first last => s.archiveInternal first last
  | .advancePastLogStart logStart => s.advancePastLogStart logStart
  | .archiveExhausted maxAttempts => s.archiveExhausted maxAttempts
  | .acquireShaped args => (s.acquireShaped args).1
  | .acknowledge member first last ack maxAttempts =>
    (s.acknowledge member first last ack maxAttempts).1
  | .acknowledgeMixedWith member first last actionCount actions maxAttempts =>
    (s.acknowledgeMixedWith member first last actionCount actions maxAttempts).1
  | .renew member first last now lockDur => (s.renew member first last now lockDur).1
  | .expireLocks now maxAttempts => s.expireLocks now maxAttempts
  | .releaseMember member maxAttempts => s.releaseMember member maxAttempts
  | .deferInternal first last => s.deferInternal first last
  | .promoteDeferred => s.promoteDeferred
  | .setDlqEnabled enabled => s.setDlqEnabled enabled
  | .takePendingDlq => s.takePendingDlq.1
  | .finishArchiving first last => s.finishArchiving first last
  | .pruneTerminalPrefix => s.pruneTerminalPrefix

/-- The state inside an operation just before it moves the start offset, or its
result when it does not. -/
def Op.settled (s : AcquisitionState) : Op → AcquisitionState
  | .archiveInternal first last =>
    (s.archiveRangeRuns first last (internalTo first last) true).1
  | .advancePastLogStart logStart =>
    if logStart ≤ s.startOffset then s else s.archiveBelow logStart
  | .archiveExhausted maxAttempts => (s.exhaustRuns maxAttempts).1
  | .acquireShaped args => (s.acquireRuns args).1
  | .acknowledge member first last ack maxAttempts =>
    match s.splitAcquiredRange member first last with
    | .ok (some (s, first, last)) => s.ackRuns first last ack maxAttempts
    | _ => s
  | .acknowledgeMixedWith member first last actionCount actions maxAttempts =>
    match s.mixedRange member first last actionCount actions with
    | .ok (some (first, last, live)) => s.mixedRuns first last live maxAttempts
    | _ => s
  | .expireLocks now maxAttempts => (s.releaseRuns maxAttempts (expired now)).1
  | .releaseMember member maxAttempts => (s.releaseRuns maxAttempts (heldBy member)).1
  | .pruneTerminalPrefix => s
  | op => op.run s

end Krabka.Share

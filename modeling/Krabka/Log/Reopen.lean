import Krabka.Lib.Transition
import Krabka.Log.Sound

/-!
# Reopening a log

`Log::open` on the directory of a log reads the segments back and rebuilds the
state from the snapshots and the batches behind them.  It reaches the state that
the append path left, in every run whose batches fit in recovery reads and in the
sparse indexes and in which no control batch is appended verbatim with an offset
that the log assigns.

Without the first condition it does not.  A batch larger than one recovery read
is never returned by it, so the log that holds it does not open again.
-/

namespace Krabka.Log

open Extent List Segment TransitionSystem

variable {ρ : Type}

namespace PartitionLog

variable {l l' : PartitionLog ρ}

/-! ## What `open` finds -/

def opened (l : PartitionLog ρ) : PartitionLog ρ :=
  { l with
    startOffset := 0
    startOffsetEstablished := false
    lso := l.logEndOffset
    state := .empty
    snapshots := withoutStrays l.snapshots (l.allSegments.map baseOffset)
    epochs := l.epochs.truncateFromEnd l.logEndOffset
    reconciledFrontier := 0 }

theorem sealAll_eq {a activeBase : Int} {segments : List (Segment ρ)} (h : Chained a segments)
    (hactive : activeBase = endOf a (segments.flatMap Segment.batches)) :
    sealAll activeBase segments = segments := by
  induction segments generalizing a with
  | nil => rfl
  | cons s segments ih =>
    obtain ⟨rfl, hs, hrest⟩ := h
    have hactive' : activeBase = endOf (s.lastOffset + 1) (segments.flatMap Segment.batches) := by
      rw [hactive, flatMap_cons, endOf_append, hs.lastOffset_eq]
    cases segments with
    | nil =>
      have hbase : activeBase = s.lastOffset + 1 := hactive'
      rw [sealAll, sealAt, hbase]
      simp
    | cons next segments =>
      have hnext : next.baseOffset = s.lastOffset + 1 := hrest.1
      rw [sealAll, ih hrest hactive', sealAt, hnext]
      simp

theorem Chained.bases {a : Int} {segments : List (Segment ρ)} {active : Segment ρ}
    (h : Chained a (segments ++ [active])) (hne : ∀ s ∈ segments, s.batches ≠ []) :
    ((segments ++ [active]).map baseOffset).Pairwise (· < ·) := by
  induction segments generalizing a with
  | nil => simp
  | cons s segments ih =>
    obtain ⟨rfl, hs, hrest⟩ := h
    rw [cons_append, map_cons, pairwise_cons]
    refine ⟨?_, ih hrest fun x hx => hne x (mem_cons_of_mem s hx)⟩
    intro base hbase
    obtain ⟨x, hx, rfl⟩ := mem_map.mp hbase
    have hle := hrest.le_base hx
    -- a sealed segment holds a batch, so the next one begins above it
    obtain ⟨b, hb⟩ := exists_mem_of_ne_nil _ (hne s mem_cons_self)
    have hlow := hs.ordered.lower b hb
    have hspan := hs.ordered.spans b hb
    have hlast := hs.ordered.last_lt_endOf hb
    rw [← hs.lastOffset_eq] at hlast
    omega

theorem Laid.openFiles_eq (h : l.Laid) (haddr : l.active.Addressable) :
    l.openFiles = .ok l.opened := by
  have hchain : segmentChain (l.allSegments.map Segment.baseOffset) = true := by
    unfold segmentChain
    rw [Bool.and_eq_true, all_eq_true]
    refine ⟨?_, decide_eq_true (Chained.bases h.chained h.sealed_ne)⟩
    intro base hbase
    obtain ⟨s, hs, rfl⟩ := mem_map.mp hbase
    simpa using h.chained.le_base hs
  unfold openFiles
  rw [if_neg (by rw [hchain]; simp), h.active_sound.recoverActiveTail_eq haddr]
  dsimp only
  rw [sealAll_eq h.chained_segments h.active_baseOffset, h.firstLocalOffset_eq]
  rfl

theorem Laid.reopen_ok (h : l.Laid) (hsnap : SnapshotsOf l.batches l.snapshots)
    (hseq : ∀ b ∈ l.batches, Sequenced b) (hrec : l.Recoverable) :
    ∃ l', l.reopen = .ok l' ∧ Rebuilt l.opened l' := by
  have hlaid : l.opened.Laid := h.congr rfl rfl h.startOffset_eq.symm
  have hopen := h.openFiles_eq (hrec.addressable l.active (by simp [allSegments]))
  unfold reopen
  rw [hopen]
  exact hlaid.rebuild_ok (hsnap.retain _) hseq (hlaid.readsInOrder (hrec.congr rfl rfl))

/-! ## Runs -/

/-- What a reopened log shares with the log that was left. -/
structure SameLog (l l' : PartitionLog ρ) : Prop where
  batches : l'.batches = l.batches
  logEndOffset : l'.logEndOffset = l.logEndOffset
  producerState : l'.state.producerState = l.state.producerState
  coordinatorEpochs : ∀ pid, l'.state.coordinatorEpoch pid = l.state.coordinatorEpoch pid
  pending : l'.state.pending = l.state.pending
  epochs : (l'.epochs.truncateFromEnd l.logEndOffset) = l.epochs.truncateFromEnd l.logEndOffset

theorem Sound.reopened (h : l.Sound) (hrebuilt : Rebuilt l.opened l') : l'.Sound := by
  have hlaid : l.opened.Laid := h.laid.congr rfl rfl h.laid.startOffset_eq.symm
  have hbatches : l'.batches = l.batches := hrebuilt.batches_eq
  refine ⟨hrebuilt.laid hlaid, ?_, ?_, hrebuilt.derived h.sequenced, ?_⟩
  · rw [hbatches]
    exact hrebuilt.snapshots
  · rw [hbatches]
    exact hrebuilt.producers hlaid
  · rw [hbatches]
    exact h.sequenced

theorem Sound.sameLog_reopened (h : l.Sound) (hrebuilt : Rebuilt l.opened l') : SameLog l l' := by
  have hlaid : l.opened.Laid := h.laid.congr rfl rfl h.laid.startOffset_eq.symm
  have hproducers : l'.state.producerState = l.state.producerState :=
    (hrebuilt.producers hlaid).trans h.producers.symm
  have hderived := hrebuilt.derived (l := l.opened) h.sequenced
  refine ⟨hrebuilt.batches_eq, ?_, hproducers, ?_, ?_, ?_⟩
  · rw [hrebuilt.frame]
    rfl
  · intro pid
    exact hderived.coordinatorEpoch_ext h.derived hproducers pid
  · exact hderived.pending_ext h.derived hproducers
  · rw [hrebuilt.frame]
    apply LeaderEpochCheckpoint.ext
    exact filter_filter .. |>.trans (by simp; rfl)

end PartitionLog

/-- The operations of a log whose start stays at 0. -/
inductive LogOp (ρ : Type) where
  | append (path : AppendPath) (rolls : Bool) (b : RecordBatch ρ)
  | roll
  | truncateTo (offset : Int)

namespace LogOp

def run : LogOp ρ → PartitionLog ρ → Except LogError (PartitionLog ρ)
  | append path rolls b, l => l.appendBatch path rolls b
  | roll, l => .ok l.roll
  | truncateTo offset, l => l.truncateTo offset

/-- The data batches of producers carry sequences, and no cut lies below the log
start. -/
def Admissible : LogOp ρ → Prop
  | append _ _ b => Sequenced b
  | roll => True
  | truncateTo offset => 0 ≤ offset

/-- No control batch takes the path that reads headers only. -/
def DecodesControls : LogOp ρ → Prop
  | append path _ b => PartitionLog.PathOk path b
  | _ => True

/-- A batch that is appended fits in the recovery reads and in the sparse indexes. -/
def Fits (l : PartitionLog ρ) : LogOp ρ → Prop
  | append path rolls b => (l.rolledIf rolls).Fits (path.assigned l b)
  | _ => True

instance : ∀ op : LogOp ρ, Decidable op.Admissible
  | append _ _ b => inferInstanceAs (Decidable (Sequenced b))
  | roll => .isTrue trivial
  | truncateTo offset => inferInstanceAs (Decidable (0 ≤ offset))

instance : ∀ op : LogOp ρ, Decidable op.DecodesControls
  | append path _ b => inferInstanceAs (Decidable (PartitionLog.PathOk path b))
  | roll | truncateTo _ => .isTrue trivial

instance (l : PartitionLog ρ) : ∀ op : LogOp ρ, Decidable (op.Fits l)
  | append path rolls b =>
    inferInstanceAs (Decidable ((l.rolledIf rolls).Fits (path.assigned l b)))
  | roll | truncateTo _ => .isTrue trivial

end LogOp

namespace PartitionLog

variable {l l' : PartitionLog ρ}

/-- Runs of successful operations from an empty directory. -/
def system (ρ : Type) (remote : Bool) : TransitionSystem (PartitionLog ρ) (LogOp ρ) where
  init l := l = fresh remote
  step l op l' := op.run l = .ok l' ∧ op.Admissible

/-- The runs whose batches fit and whose controls are decoded. -/
def recoverableSystem (ρ : Type) (remote : Bool) : TransitionSystem (PartitionLog ρ) (LogOp ρ) :=
  (system ρ remote).restrict fun l op _ => op.Fits l ∧ op.DecodesControls

theorem sound_of_reachable {remote : Bool} (h : (recoverableSystem ρ remote).Reachable l) :
    l.Sound ∧ l.Recoverable := by
  refine h.invariant (P := fun l => l.Sound ∧ l.Recoverable) ?_ ?_
  · rintro l rfl
    exact ⟨sound_fresh remote, recoverable_fresh remote⟩
  · rintro l op l' ⟨hsound, hrec⟩ ⟨⟨hrun, hop⟩, hfits, hcontrols⟩
    cases op with
    | append path rolls b =>
      have hkind := assigned_kind path l b
      have happ := appendBatch_ok hrun
      exact ⟨happ.sound (hsound.rolledIf rolls) (hkind.1.mpr hcontrols) (hkind.2.mpr hop),
        happ.recoverable (hrec.rolledIf rolls) hfits⟩
    | roll =>
      cases hrun
      exact ⟨hsound.roll, hrec.roll⟩
    | truncateTo offset => exact hsound.truncateTo hrec hop hrun

theorem Sound.reopen_ok (h : l.Sound) (hrec : l.Recoverable) :
    ∃ l', l.reopen = .ok l' ∧ Rebuilt l.opened l' :=
  h.laid.reopen_ok h.snapshots h.sequenced hrec

theorem Recoverable.takeProducerSnapshot (h : l.Recoverable) :
    l.takeProducerSnapshot.Recoverable := by
  rw [l.takeProducerSnapshot_frame]
  exact h.congr rfl rfl

theorem SameLog.of_takeProducerSnapshot (h : SameLog l.takeProducerSnapshot l') : SameLog l l' := by
  have hframe := l.takeProducerSnapshot_frame
  rw [hframe] at h
  exact ⟨h.batches, h.logEndOffset, h.producerState, h.coordinatorEpochs, h.pending, h.epochs⟩

/-- In every run whose batches fit, the log reopens to the state that its
appends left, after a close and after a plain drop. -/
theorem reopen_restores {remote : Bool} (h : (recoverableSystem ρ remote).Reachable l) :
    (∃ l', l.reopen = .ok l' ∧ SameLog l l') ∧
      ∃ l', l.closeAndReopen = .ok l' ∧ SameLog l l' := by
  obtain ⟨hsound, hrecoverable⟩ := sound_of_reachable h
  refine ⟨?_, ?_⟩
  · obtain ⟨l', hl', hrebuilt⟩ := hsound.reopen_ok hrecoverable
    exact ⟨l', hl', hsound.sameLog_reopened hrebuilt⟩
  · have hsnapped := hsound.takeProducerSnapshot
    obtain ⟨l', hl', hrebuilt⟩ := hsnapped.reopen_ok hrecoverable.takeProducerSnapshot
    exact ⟨l', hl', (hsnapped.sameLog_reopened hrebuilt).of_takeProducerSnapshot⟩

/-- A data batch of one record and `bodyLen` bytes, at offset 0. -/
def plainBatch (bodyLen : Nat) : RecordBatch Unit where
  baseOffset := 0
  lastOffsetDelta := 0
  partitionLeaderEpoch := 0
  maxTimestamp := 0
  producerId := -1
  producerEpoch := -1
  baseSequence := -1
  isTransactional := false
  deleteHorizonMs := none
  payload := .data [()]
  bodyLen := bodyLen

/-- A batch of the transaction of a producer. -/
def txnBatch (pid : Int) : RecordBatch Unit :=
  { plainBatch 10 with
    producerId := pid
    producerEpoch := 0
    baseSequence := 0
    isTransactional := true }

/-- The marker that ends it. -/
def endMarker (pid : Int) (marker : ControlRecord) : RecordBatch Unit :=
  { txnBatch pid with baseSequence := -1, payload := .control [(marker, ())] }

/-- Three transactions, the first of them aborted, in three segments and leader
epochs. -/
def sampleAppends : List (LogOp Unit) :=
  [.append .append false (txnBatch 1), .append .appendVerbatim false (txnBatch 2),
    .append .append false (endMarker 1 (.abort 0)),
    .append .append true { txnBatch 3 with partitionLeaderEpoch := 1 },
    .append .append false { plainBatch 10 with partitionLeaderEpoch := 1 }, .roll,
    .append .append false { plainBatch 10 with partitionLeaderEpoch := 2 }]

/-- The log of these batches after a cut at offset 4. -/
def sampleLog : PartitionLog Unit :=
  runAll (fun l op => (op.run l).toOption)
    (fun l op => op.Admissible ∧ op.Fits l ∧ op.DecodesControls)
    (fresh false) (sampleAppends ++ [.truncateTo 4])

theorem sampleLog_reachable : (recoverableSystem Unit false).Reachable sampleLog :=
  .runAll (.init rfl) fun _ _ _ hrun hok => ⟨⟨Except.eq_ok_of_toOption hrun, hok.1⟩, hok.2⟩

theorem reopen_restores_sampleLog :
    (sampleLog.segments.length = 1 ∧ sampleLog.batches.length = 4 ∧
      sampleLog.state.pending.entries = [(2, 1), (3, 3)] ∧
      sampleLog.epochs.entries = [⟨0, 0⟩, ⟨1, 3⟩]) ∧
    (∃ l', sampleLog.reopen = .ok l' ∧ SameLog sampleLog l') ∧
      ∃ l', sampleLog.closeAndReopen = .ok l' ∧ SameLog sampleLog l' :=
  ⟨by decide +kernel, reopen_restores sampleLog_reachable⟩

/-- A batch larger than a recovery read is appended, and the log does not open again
after a plain drop. -/
theorem reopen_fails_after_large_batch : ∃ l : PartitionLog Unit,
    (system Unit false).Reachable l ∧
      l.reopen = .error (.corrupt "producer-state recovery made no progress at offset 0") :=
  ⟨runAll (fun l op => (op.run l).toOption) (fun _ op => op.Admissible) (fresh false)
      [.append .append false (plainBatch 1048576)],
    .runAll (.init rfl) fun _ _ _ hrun hok => ⟨Except.eq_ok_of_toOption hrun, hok⟩, rfl⟩

end PartitionLog

end Krabka.Log

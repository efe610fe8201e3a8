import Krabka.Log.EpochHistory
import Krabka.Log.ReadCommitted
import Krabka.Log.Truncation

/-!
# Appends that fail

An I/O step of an append fails after the batch was admitted.  A step of the roll
returns its error at once, and when the files of the new segment cannot be made
no segment is active any more.  After any later step `rollback_failed_append`
truncates the log to the base of the batch.

The stored batches, the log end, the producer entries, the coordinator epochs,
the open transactions and the rows of aborted transactions are then those from
before.  The truncation trims the leader-epoch history at the log end, so a row
that starts there is lost.  And it rebuilds the state from a snapshot, so the
completed transactions that hold the first unstable offset back are those whose
markers lie behind that snapshot, which need not be those from before.
-/

namespace Krabka.Log

open Extent LeaderEpochCheckpoint TransactionState TransitionSystem

variable {ρ : Type}

inductive RollFault where
  /-- The flush, the producer snapshot or the seal, the snapshot being written or not. -/
  | prepare (snapshot : Bool)
  /-- The files of the new segment. -/
  | install
  /-- The stamp index of the new segment, or the write mode of the active one. -/
  | settle
  deriving DecidableEq

/-- The I/O step of an append that fails. -/
inductive AppendFault where
  | roll (fault : RollFault)
  /-- The write of the batch or of its index entries, which the segment takes back
  itself. -/
  | segmentWrite
  /-- The flush, the pacing of the writeback, or the stamp of a batch. -/
  | flush
  /-- The transaction index or the stamps that an end marker writes. -/
  | markerSidecar
  /-- The leader-epoch checkpoint, which keeps its rows then. -/
  | epochCheckpoint
  deriving DecidableEq

/-- The log that a failed append leaves. -/
structure FailedAppend (ρ : Type) where
  log : PartitionLog ρ
  /-- Whether a segment is active; all of them are sealed otherwise. -/
  hasActive : Bool

/-- `log_end_offset`, which is 0 without an active segment. -/
def FailedAppend.logEndOffset (failed : FailedAppend ρ) : Int :=
  if failed.hasActive then failed.log.logEndOffset else 0

namespace PartitionLog

variable {l l' x : PartitionLog ρ} {b : RecordBatch ρ}

/-- What a step of the roll leaves when it fails, if the append makes it. -/
def failRoll (l : PartitionLog ρ) (rolls : Bool) : RollFault → Option (FailedAppend ρ)
  | .prepare snapshot =>
    if rolls && !l.active.batches.isEmpty then
      let snapshots := writeSnapshot l.snapshots l.logEndOffset l.state.producerState
      some ⟨if snapshot then { l with snapshots } else l, true⟩
    else none
  | .install =>
    if rolls && !l.active.batches.isEmpty then some ⟨l.rollActiveSegment, false⟩ else none
  | .settle => some ⟨l.rolledIf rolls, true⟩

/-- The log at the moment a later step fails, for a log that has rolled if it had to
and a step that the append makes. -/
def interrupted (l : PartitionLog ρ) (path : AppendPath) (b : RecordBatch ρ) :
    AppendFault → Option (PartitionLog ρ)
  | .roll _ => none
  | .segmentWrite => some l
  | .flush => some { l with active := l.active.append b }
  | .markerSidecar =>
    -- the coordinator epoch of the marker is kept before the index is written
    if !path.readsHeaderOnly b && controlBatchKind b = some .transaction && l.state.closes b then
      some { l with active := l.active.append b, state := l.state.noteCoordinatorEpoch b }
    else none
  | .epochCheckpoint =>
    if 0 ≤ b.partitionLeaderEpoch ∧
        assignNeeded l.epochs.entries b.partitionLeaderEpoch b.baseOffset then
      (l.writeBatch path b).toOption
    else none

/-- A failed append of an admitted batch: what the roll or `rollback_failed_append`
leaves. -/
def failAppend (l : PartitionLog ρ) (path : AppendPath) (rolls : Bool) (b : RecordBatch ρ)
    (fault : AppendFault) : Option (Except LogError (FailedAppend ρ)) :=
  let b := path.assigned l b
  match l.checkAppend b with
  | .error _ => none
  | .ok () =>
    match fault with
    | .roll fault => (l.failRoll rolls fault).map .ok
    | fault => ((l.rolledIf rolls).interrupted path b fault).map fun x =>
        (x.truncateTo b.baseOffset).map (⟨·, true⟩)

end PartitionLog

/-! ## Log states -/

/-- What moves a log whose start stays at 0. -/
inductive StateOp (ρ : Type) where
  | edit (op : EditOp ρ)
  | releaseReplicatedTransactions (highWatermark : Int)

namespace StateOp

def run : StateOp ρ → PartitionLog ρ → Except LogError (PartitionLog ρ)
  | edit op, l => op.run l
  | releaseReplicatedTransactions hw, l => .ok (l.releaseReplicatedTransactions hw)

/-- A step whose batch the recovery can replay. -/
def Replays (l : PartitionLog ρ) : StateOp ρ → Prop
  | edit op => op.Replayable l
  | releaseReplicatedTransactions _ => True

instance (l : PartitionLog ρ) : ∀ op : StateOp ρ, Decidable (op.Replays l)
  | edit op => inferInstanceAs (Decidable (op.Replayable l))
  | releaseReplicatedTransactions _ => .isTrue trivial

end StateOp

namespace PartitionLog

variable {l l' x : PartitionLog ρ} {b : RecordBatch ρ} {cut : Int}

/-- The log states that operations reach, whatever they are given. -/
def states (ρ : Type) (remote : Bool) : TransitionSystem (PartitionLog ρ) (StateOp ρ) where
  init l := l = fresh remote
  step l op l' := op.run l = .ok l'

/-- Those that they reach with batches that the recovery can replay. -/
def replayedStates (ρ : Type) (remote : Bool) : TransitionSystem (PartitionLog ρ) (StateOp ρ) :=
  (states ρ remote).restrict fun l op _ => op.Replays l

/-- The invariant of these states.  A log that nothing holds back is stable up to its
end. -/
structure StateInv (l : PartitionLog ρ) : Prop extends EditInv l where
  quiet : (∀ start, ¬ l.state.Holds start) → l.lso = l.logEndOffset

theorem not_holds {s : TransactionState} (hs : s.Derived) (hproducers : s.producerState = .empty)
    (hunreplicated : s.unreplicated = .empty) (start : Int) : ¬ s.Holds start := by
  rw [holds_iff]
  rintro (⟨pid, hget⟩ | ⟨last, hget⟩)
  · rw [hs.pending_eq, hproducers] at hget
    cases hget
  · rw [hunreplicated] at hget
    cases hget

theorem lso_of_not_holds {s : TransactionState} {logEnd lso : Int}
    (hlso : s.refreshLso logEnd = .ok lso) (h : ∀ start, ¬ s.Holds start) : lso = logEnd :=
  (refreshLso_mem hlso).resolve_right (h lso)

theorem eq_empty_of_isEmpty {s : TransactionState}
    (h : (s.producerState.entries.isEmpty && s.unreplicated.entries.isEmpty) = true) :
    s.producerState = .empty ∧ s.unreplicated = .empty := by
  simp only [Bool.and_eq_true, List.isEmpty_iff] at h
  exact ⟨SortedMap.ext h.1, SortedMap.ext h.2⟩

theorem Truncated.quiet (htrunc : Truncated l cut l') (h : l.StateInv)
    (hnone : ∀ start, ¬ l'.state.Holds start) : l'.lso = l'.logEndOffset := by
  rcases htrunc.rebuilt with ⟨-, hstate, hlso⟩ | ⟨-, l₁, hrebuilt, hstate, hlso⟩
  · rw [hstate] at hnone
    have hle : l'.logEndOffset ≤ l.logEndOffset := by
      rw [htrunc.sound.laid.logEndOffset_eq, htrunc.batches, h.sound.laid.logEndOffset_eq]
      exact h.sound.laid.ordered.endOf_below_le_endOf cut
    rw [hlso, h.quiet hnone, min_eq_right hle]
  · rw [hstate] at hnone
    have hend : l₁.lso = l'.logEndOffset := lso_of_not_holds hrebuilt.lso hnone
    rw [hlso, hend, min_self]

theorem StateInv.step {op : StateOp ρ} (h : l.StateInv) (hrun : op.run l = .ok l')
    (hop : op.Replays l) : l'.StateInv := by
  cases op with
  | edit op =>
    refine ⟨h.toEditInv.step hrun hop, ?_⟩
    cases op with
    | assignEpoch epoch startOffset =>
      obtain ⟨heq, -⟩ := assignEpochStartOffset_ok hrun
      rw [heq]
      exact h.quiet
    | log op =>
      cases op with
      | append path rolls b =>
        have happ := appendBatch_ok hrun
        obtain ⟨-, -, hend⟩ := happ.laid (h.sound.rolledIf rolls).laid
        rw [hend]
        exact lso_of_not_holds happ.lso
      | roll =>
        cases hrun
        obtain ⟨-, hend, hstate, hlso, -⟩ := l.roll_frame
        rw [hend, hstate, hlso]
        exact h.quiet
      | truncateTo offset =>
        have hrun' : l.truncateTo offset = .ok l' := hrun
        by_cases hcut : l.CutsNothing offset
        · rw [truncateTo_of_cutsNothing hcut] at hrun'
          cases hrun'
          exact h.quiet
        · exact (h.sound.truncated h.recoverable hop.1 hcut hrun').quiet h
  | releaseReplicatedTransactions hw =>
    cases hrun
    have hframe := l.release_frame hw
    refine ⟨⟨h.sound.release hw, ?_, h.recoverable.release hw⟩, ?_⟩
    · rw [hframe]
      exact h.indexed.congr rfl rfl
    · unfold releaseReplicatedTransactions
      dsimp only
      split
      · split
        · rename_i hlso
          exact lso_of_not_holds hlso
        · rename_i herror
          intro hnone
          obtain ⟨lso, hlso⟩ := refreshLso_ok fun start hstart => absurd hstart (hnone start)
          rw [hlso] at herror
          cases herror
      · rename_i hlength
        have hkept : l.state.unreplicated.keepValues (hw ≤ ·) = l.state.unreplicated :=
          SortedMap.ext (List.filter_sublist.eq_of_length (not_not.mp hlength))
        rw [hkept]
        exact h.quiet

theorem stateInv_of_reachable {remote : Bool} (h : (replayedStates ρ remote).Reachable l) :
    l.StateInv := by
  refine h.invariant (P := StateInv) ?_ ?_
  · rintro l rfl
    exact ⟨⟨sound_fresh remote, indexedLog_fresh remote, recoverable_fresh remote⟩, fun _ => rfl⟩
  · rintro l op l' hinv ⟨hrun, hop⟩
    exact hinv.step hrun hop

theorem StateInv.rolledIf (h : l.StateInv) (rolls : Bool) : (l.rolledIf rolls).StateInv := by
  obtain ⟨-, hend, hstate, hlso, -⟩ := l.rolledIf_frame rolls
  refine ⟨⟨h.sound.rolledIf rolls, h.indexed.rolledIf rolls, h.recoverable.rolledIf rolls⟩, ?_⟩
  rw [hend, hstate, hlso]
  exact h.quiet

/-! ## What the truncation takes back -/

/-- A log in the middle of an append of `b` to `l`. -/
structure Underway (l : PartitionLog ρ) (b : RecordBatch ρ) (x : PartitionLog ρ) : Prop where
  laid : x.Laid
  placed : x.Placed
  recoverable : x.Recoverable
  batches : below b.baseOffset x.batches = l.batches
  rows : (x.rows.filter fun row => row.lastOffset < b.baseOffset) = l.rows
  epochs : x.epochs = l.epochs
  snapshots : x.snapshots = l.snapshots
  /-- A state that is not rebuilt is the one from before. -/
  quiet : (x.state.producerState.entries.isEmpty && x.state.unreplicated.entries.isEmpty) = true →
    x.state.Derived ∧ x.state.producerState = producersOf l.batches ∧ l.logEndOffset ≤ x.lso

theorem StateInv.rows_below (h : l.StateInv) {base : Int} (hbase : l.logEndOffset ≤ base) :
    (l.rows.filter fun row => row.lastOffset < base) = l.rows := by
  refine filter_txnIndex_eq_self ?_
  intro s hs row hrow
  have hle := (h.indexed.placed.bounds h.sound.laid.toRooted hs hrow).2
  have hend := h.sound.laid.chained.lastOffset_lt hs
  have hlog : l.logEndOffset = endOf 0 (l.allSegments.flatMap Segment.batches) :=
    h.sound.laid.logEndOffset_eq
  omega

theorem StateInv.below_eq (h : l.StateInv) {base : Int} (hbase : l.logEndOffset ≤ base) :
    below base l.batches = l.batches :=
  h.sound.laid.ordered.below_eq_self (by rw [← h.sound.laid.logEndOffset_eq]; exact hbase)

theorem StateInv.underway_self (h : l.StateInv) (hbase : l.logEndOffset ≤ b.baseOffset) :
    Underway l b l := by
  refine ⟨h.sound.laid, h.indexed.placed, h.recoverable, h.below_eq hbase, h.rows_below hbase, rfl,
    rfl, fun hempty => ?_⟩
  obtain ⟨hproducers, hunreplicated⟩ := eq_empty_of_isEmpty hempty
  have hnone := not_holds h.sound.derived hproducers hunreplicated
  exact ⟨h.sound.derived, h.sound.producers, (h.quiet hnone).ge⟩

theorem StateInv.underway (h : l.StateInv) (row : Option AbortedTxn) (hfits : l.Fits b)
    (hbase : l.logEndOffset ≤ b.baseOffset) (hdelta : 0 ≤ b.lastOffsetDelta)
    (hbounded : b.lastOffset < i64Max) (hrow : ∀ r, row = some r → r.lastOffset = b.lastOffset)
    {state : TransactionState} {lso : Int}
    (hx : x = { l with active := (l.active.append b).withRow row, state := state, lso := lso })
    (hquiet : (state.producerState.entries.isEmpty && state.unreplicated.entries.isEmpty) = true →
      state.Derived ∧ state.producerState = producersOf l.batches ∧ l.logEndOffset ≤ lso) :
    Underway l b x ∧ ¬ x.CutsNothing b.baseOffset := by
  have hlast : b.baseOffset ≤ b.lastOffset := by
    unfold RecordBatch.lastOffset
    omega
  have hactive : x.active = { l.active.append b with txnIndex := x.active.txnIndex } := by
    rw [hx]
    exact Segment.withRow_eq _ row
  obtain ⟨hrooted, hbatches, hend⟩ := h.sound.laid.append hbase hdelta hbounded
    (show x.segments = l.segments by rw [hx]) hactive
  have hactive_lt : l.active.lastOffset < b.lastOffset := by
    unfold logEndOffset at hbase
    omega
  obtain ⟨hplaced, hrows⟩ := h.indexed.placed.append h.sound.laid.toRooted hactive_lt hrow
    (show x.segments = l.segments by rw [hx]) (show x.active = _ by rw [hx])
  refine ⟨⟨⟨hrooted, by rw [hx]; exact h.sound.laid.startOffset_eq⟩, hplaced,
    h.recoverable.append hfits (by rw [hx]) hactive, ?_, ?_, by rw [hx], by rw [hx],
    by rw [hx]; exact hquiet⟩, ?_⟩
  · have hnew : below b.baseOffset [b] = [] := by
      rw [below_eq_nil_iff]
      intro y hy
      rw [List.mem_singleton.mp hy]
      exact hlast
    rw [hbatches, below_append, h.below_eq hbase, hnew, List.append_nil]
  · have hall : x.rows = l.rows ++ row.toList := hrows
    have hgone : (row.toList.filter fun row => row.lastOffset < b.baseOffset) = [] := by
      rw [List.filter_eq_nil_iff]
      intro r hr
      rw [hrow r (Option.mem_toList.mp hr)]
      simpa using hlast
    rw [hall, List.filter_append, h.rows_below hbase, hgone, List.append_nil]
  · unfold CutsNothing
    omega

theorem StateInv.interrupted {path : AppendPath} {fault : AppendFault} (h : l.StateInv)
    (hfits : l.Fits b) (hpath : PathOk path b) (hseq : Sequenced b)
    (hbase : l.logEndOffset ≤ b.baseOffset) (hdelta : 0 ≤ b.lastOffsetDelta)
    (hbounded : b.lastOffset < i64Max) (hfault : fault ≠ .segmentWrite)
    (hx : l.interrupted path b fault = some x) : Underway l b x ∧ ¬ x.CutsNothing b.baseOffset := by
  have hself := (h.underway_self hbase).quiet
  cases fault with
  | roll fault => cases hx
  | segmentWrite => exact absurd rfl hfault
  | flush =>
    cases hx
    exact h.underway none hfits hbase hdelta hbounded nofun rfl hself
  | markerSidecar =>
    simp only [PartitionLog.interrupted] at hx
    split at hx
    · rename_i hcloses
      cases hx
      refine h.underway none hfits hbase hdelta hbounded nofun rfl fun hempty => ?_
      -- the marker ends a transaction, so its producer has an entry
      obtain ⟨hproducers, hunreplicated⟩ := eq_empty_of_isEmpty hempty
      rw [noteCoordinatorEpoch_producerState] at hproducers
      rw [noteCoordinatorEpoch_unreplicated] at hunreplicated
      have hopen : l.state.pending.contains b.producerId = true := by
        simp only [Bool.and_eq_true, closes_eq] at hcloses
        exact hcloses.2.2
      obtain ⟨first, hfirst⟩ := Option.isSome_iff_exists.mp hopen
      exact absurd (holds_iff.mpr (.inl ⟨b.producerId, hfirst⟩))
        (not_holds h.sound.derived hproducers hunreplicated first)
    · cases hx
  | epochCheckpoint =>
    simp only [PartitionLog.interrupted] at hx
    split at hx
    · obtain ⟨hlso, row, hstate, heq⟩ := writeBatch_ok (Except.eq_ok_of_toOption hx)
      refine h.underway row hfits hbase hdelta hbounded ?_ heq fun hempty => ?_
      · rintro r rfl
        exact appendState_row_last hstate
      · obtain ⟨hproducers, hunreplicated⟩ := eq_empty_of_isEmpty hempty
        have happly := appendState_eq h.sound.derived hpath hstate
        have hderived : x.state.Derived := by
          rw [happly]
          exact h.sound.derived.applyRecoveredBatchState hseq
        have hbefore : l.state.producerState = .empty := by
          rw [happly, applyRecoveredBatchState_producerState] at hproducers
          exact eq_empty_of_producersAfter hproducers
        refine ⟨hderived, by rw [hproducers, ← h.sound.producers, hbefore], ?_⟩
        rw [lso_of_not_holds hlso (not_holds hderived hproducers hunreplicated)]
        unfold RecordBatch.lastOffset
        omega
    · cases hx

/-! ## Traces -/

/-- What a failed append should leave as it was. -/
@[mk_iff]
structure SameTrace (l : PartitionLog ρ) (failed : FailedAppend ρ) : Prop where
  batches : failed.log.batches = l.batches
  logEndOffset : failed.logEndOffset = l.logEndOffset
  producerState : failed.log.state.producerState = l.state.producerState
  coordinatorEpoch : ∀ pid, failed.log.state.coordinatorEpoch pid = l.state.coordinatorEpoch pid
  pending : failed.log.state.pending = l.state.pending
  lso : failed.log.lso = l.lso
  rows : failed.log.rows = l.rows
  epochs : failed.log.epochs = l.epochs

/-- No row of the history starts at or past the log end. -/
def EpochsBelowEnd (l : PartitionLog ρ) : Prop :=
  ∀ e ∈ l.epochs.entries, e.startOffset < l.logEndOffset

instance (l : PartitionLog ρ) : Decidable l.EpochsBelowEnd := by
  unfold EpochsBelowEnd
  infer_instance

theorem epochsBelowEnd_iff :
    l.epochs.truncateFromEnd l.logEndOffset = l.epochs ↔ l.EpochsBelowEnd := by
  constructor
  · intro h e he
    rw [← h] at he
    exact (mem_truncateFromEnd.mp he).2
  · exact truncateFromEnd_eq_self

/-- The first unstable offset is the one that a rebuild from the newest snapshot
finds. -/
def LsoRebuilt (l : PartitionLog ρ) (snapshot : Int) : Prop :=
  l.lso = (Ledger.of l.batches).stableFrom l.logEndOffset snapshot

instance (l : PartitionLog ρ) (snapshot : Int) : Decidable (l.LsoRebuilt snapshot) := by
  unfold LsoRebuilt
  infer_instance

/-- The failed steps after which nothing has changed.  A rollback that cuts nothing
rebuilds nothing. -/
def Traceless (l : PartitionLog ρ) (rolls : Bool) (base : Int) : AppendFault → Prop
  | .roll .install => False
  | .roll _ => True
  | .segmentWrite => l.EpochsBelowEnd ∧ ((l.rolledIf rolls).CutsNothing base ∨
      l.LsoRebuilt (l.rolledIf rolls).reloadOffset)
  | _ => l.EpochsBelowEnd ∧ l.LsoRebuilt (l.rolledIf rolls).reloadOffset

theorem traceless_of_cutsNothing {base : Int} (hcut : l.CutsNothing base) :
    (∃ l', l.truncateTo base = .ok l' ∧ SameTrace l ⟨l', true⟩) ↔ l.EpochsBelowEnd := by
  rw [truncateTo_of_cutsNothing hcut, ← epochsBelowEnd_iff]
  constructor
  · rintro ⟨l', hl', htrace⟩
    cases hl'
    exact htrace.epochs
  · intro htrim
    exact ⟨_, rfl, rfl, rfl, rfl, fun _ => rfl, rfl, rfl, rfl, htrim⟩

theorem Underway.rolledBack (h : Underway l b x) (hl : l.StateInv) (hzero : 0 ≤ b.baseOffset)
    {segments : List (Segment ρ)} {active : Segment ρ}
    (hcuts : CutSegments x b.baseOffset segments active) :
    let cut := x.cutLog b.baseOffset segments active
    cut.Laid ∧ cut.batches = l.batches ∧ cut.logEndOffset = l.logEndOffset ∧
      cut.reloadOffset = l.reloadOffset := by
  obtain ⟨hlaid, hbatches⟩ := h.laid.cutLog hzero hcuts
  rw [h.batches] at hbatches
  refine ⟨hlaid, hbatches, ?_, ?_⟩
  · rw [hlaid.logEndOffset_eq, hbatches, hl.sound.laid.logEndOffset_eq]
  · rw [h.laid.cutLog_reloadOffset hzero hcuts, h.batches, ← hl.sound.laid.logEndOffset_eq,
      snapshotBelow, h.snapshots, h.laid.producerReloadRange_eq, reloadOffset, snapshotBelow,
      hl.sound.laid.producerReloadRange_eq]

theorem Underway.traceless_of_cuts (h : Underway l b x) (hl : l.StateInv)
    (hzero : 0 ≤ b.baseOffset) (hcut : ¬ x.CutsNothing b.baseOffset) :
    (∃ l', x.truncateTo b.baseOffset = .ok l' ∧ SameTrace l ⟨l', true⟩) ↔
      l.EpochsBelowEnd ∧ l.LsoRebuilt l.reloadOffset := by
  have hseq : ∀ y ∈ below b.baseOffset x.batches, Sequenced y := by
    rw [h.batches]
    exact hl.sound.sequenced
  obtain ⟨segments, active, l₁, hcuts, hl₁, hok, hstate⟩ :=
    h.laid.truncateTo_ok h.recoverable hzero hcut hseq fun segments active => by
      rw [h.batches, cutLog, h.snapshots]
      exact hl.sound.snapshots.retain _
  obtain ⟨hlaid, hbatches, hlogEnd, hoffset⟩ := h.rolledBack hl hzero hcuts
  have hend : active.lastOffset + 1 = l.logEndOffset := hlogEnd
  have hrows := (h.placed.rows_cut h.laid.toRooted hzero hcuts).trans h.rows
  -- the state left or rebuilt, and its first unstable offset
  obtain ⟨hderived, hproducers, hlso⟩ : l₁.state.Derived ∧
      l₁.state.producerState = producersOf l.batches ∧
      min l₁.lso l.logEndOffset =
        (Ledger.of l.batches).stableFrom l.logEndOffset l.reloadOffset := by
    rcases hstate with ⟨hempty, rfl⟩ | ⟨-, hrebuilt⟩
    · obtain ⟨hderived, hproducers, hle⟩ := h.quiet hempty
      refine ⟨hderived, hproducers, ?_⟩
      have hnothing : Ledger.of l.batches = .empty :=
        ledger_eq_empty hl.sound.laid.ordered hl.sound.sequenced
          (hproducers ▸ (eq_empty_of_isEmpty hempty).1)
      rw [hnothing]
      exact min_eq_right hle
    · have hseq' : ∀ y ∈ (x.cutLog b.baseOffset segments active).batches, Sequenced y := by
        rw [hbatches]
        exact hl.sound.sequenced
      have hstable := (hrebuilt.replayedLedger hlaid hseq').refreshLso hrebuilt.lso
      rw [hbatches, hoffset, hlogEnd] at hstable
      refine ⟨hrebuilt.derived hseq', by rw [hrebuilt.producers hlaid, hbatches], ?_⟩
      rw [hstable, min_eq_left]
      exact hlogEnd ▸ (refreshLso_le hrebuilt.lso).1
  have hsame : l₁.state.producerState = l.state.producerState :=
    hproducers.trans hl.sound.producers.symm
  simp only [hok, Except.ok.injEq, exists_eq_left']
  rw [afterCut_eq hl₁, sameTrace_iff, hend, h.epochs, hlso, ← epochsBelowEnd_iff]
  constructor
  · rintro ⟨-, -, -, -, -, hlso, -, hepochs⟩
    exact ⟨hepochs, hlso.symm⟩
  · rintro ⟨hepochs, hlso⟩
    exact ⟨hbatches, hend, hsame, hderived.coordinatorEpoch_ext hl.sound.derived hsame,
      hderived.pending_ext hl.sound.derived hsame, hlso.symm, hrows, hepochs⟩

theorem StateInv.sameTrace_rolledIf (h : l.StateInv) (rolls : Bool) (failed : FailedAppend ρ) :
    SameTrace (l.rolledIf rolls) failed ↔ SameTrace l failed := by
  obtain ⟨hbatches, hend, hstate, hlso, hepochs, -⟩ := l.rolledIf_frame rolls
  rw [sameTrace_iff, sameTrace_iff, hbatches, hend, hstate, hlso, hepochs,
    (h.indexed.placed.rolledIf rolls).2]

theorem StateInv.failRoll {rolls : Bool} {fault : RollFault} {failed : FailedAppend ρ}
    (h : l.StateInv) (hfailed : l.failRoll rolls fault = some failed) :
    SameTrace l failed ↔ fault ≠ .install := by
  have hsame : SameTrace l ⟨l.rolledIf rolls, true⟩ :=
    (h.sameTrace_rolledIf rolls _).mp ⟨rfl, rfl, rfl, fun _ => rfl, rfl, rfl, rfl, rfl⟩
  cases fault with
  | prepare snapshot =>
    simp only [PartitionLog.failRoll] at hfailed
    split at hfailed
    · cases hfailed
      refine ⟨nofun, fun _ => ?_⟩
      split <;> exact ⟨rfl, rfl, rfl, fun _ => rfl, rfl, rfl, rfl, rfl⟩
    · cases hfailed
  | install =>
    simp only [PartitionLog.failRoll] at hfailed
    split at hfailed
    · cases hfailed
      refine ⟨fun htrace => ?_, fun hne => absurd rfl hne⟩
      -- the active segment has a batch, so the log does not end at 0
      rename_i hrolls
      have hzero : 0 = l.logEndOffset := htrace.logEndOffset
      rw [Bool.and_eq_true, Bool.not_eq_true', List.isEmpty_eq_false_iff] at hrolls
      obtain ⟨y, hy⟩ := List.exists_mem_of_ne_nil _ hrolls.2
      have hmem : y ∈ l.batches := by
        rw [batches_eq]
        exact List.mem_append_right _ hy
      have hord := h.sound.laid.ordered
      have hlower := hord.lower y hmem
      have hspan := hord.spans y hmem
      have hlt := hord.last_lt_endOf hmem
      rw [h.sound.laid.logEndOffset_eq] at hzero
      omega
    · cases hfailed
  | settle =>
    cases hfailed
    exact ⟨nofun, fun _ => hsame⟩

theorem rolledIf_traces (l : PartitionLog ρ) (rolls : Bool) (snapshot : Int) :
    ((l.rolledIf rolls).EpochsBelowEnd ↔ l.EpochsBelowEnd) ∧
      ((l.rolledIf rolls).LsoRebuilt snapshot ↔ l.LsoRebuilt snapshot) := by
  obtain ⟨hbatches, hend, -, hlso, hepochs, -⟩ := l.rolledIf_frame rolls
  unfold EpochsBelowEnd LsoRebuilt
  rw [hbatches, hend, hlso, hepochs]
  exact ⟨.rfl, .rfl⟩

theorem failAppend_cases {path : AppendPath} {rolls : Bool} {fault : AppendFault}
    (h : (l.failAppend path rolls b fault).isSome) :
    l.checkAppend (path.assigned l b) = .ok () ∧
      ((∃ step failed, fault = .roll step ∧ l.failRoll rolls step = some failed ∧
          l.failAppend path rolls b fault = some (.ok failed)) ∨
        ∃ x, (l.rolledIf rolls).interrupted path (path.assigned l b) fault = some x ∧
          l.failAppend path rolls b fault =
            some ((x.truncateTo (path.assigned l b).baseOffset).map (⟨·, true⟩))) := by
  unfold failAppend at h ⊢
  dsimp only at h ⊢
  split at h
  · cases h
  rename_i hcheck
  refine ⟨hcheck, ?_⟩
  split at h
  · obtain ⟨failed, hfailed⟩ := Option.isSome_iff_exists.mp (Option.isSome_map.symm.trans h)
    exact .inl ⟨_, failed, rfl, hfailed, by rw [hfailed]; rfl⟩
  · obtain ⟨x, hx⟩ := Option.isSome_iff_exists.mp (Option.isSome_map.symm.trans h)
    exact .inr ⟨x, hx, by rw [hx]; rfl⟩

def replayedLog (ops : List (StateOp Unit)) : PartitionLog Unit :=
  runAll (fun l op => (op.run l).toOption) (fun l op => op.Replays l) (fresh false) ops

theorem replayedLog_reachable (ops : List (StateOp Unit)) :
    (replayedStates Unit false).Reachable (replayedLog ops) :=
  .runAll (.init rfl) fun _ _ _ hrun hok => ⟨Except.eq_ok_of_toOption hrun, hok⟩

def sampleEdits : List (StateOp Unit) :=
  (sampleAppends ++ [LogOp.truncateTo 4]).map fun op => .edit (.log op)

theorem exists_failed (ops : List (StateOp Unit)) (rolls : Bool) (b : RecordBatch Unit)
    (fault : AppendFault) {P : PartitionLog Unit → FailedAppend Unit → Prop} [DecidableRel P]
    (h : (((replayedLog ops).failAppend .append rolls b fault).bind Except.toOption).any
      fun failed => P (replayedLog ops) failed) :
    ∃ l, (replayedStates Unit false).Reachable l ∧ ∃ failed,
      l.failAppend .append rolls b fault = some (.ok failed) ∧ P l failed := by
  refine ⟨_, replayedLog_reachable ops, ?_⟩
  obtain ⟨failed, hsome, hP⟩ := (Option.any_eq_true _ _).mp h
  obtain ⟨r, hr, hfailed⟩ := Option.bind_eq_some_iff.mp hsome
  exact ⟨failed, hr.trans (congrArg some (Except.eq_ok_of_toOption hfailed)), of_decide_eq_true hP⟩

end PartitionLog

end Krabka.Log

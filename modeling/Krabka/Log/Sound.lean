import Krabka.Log.Rebuild
import Krabka.Log.RecoveryReads

/-!
# The state describes the batches

`Sound` is the invariant of a log whose start stays at 0: its batches are laid
out in order, its snapshots hold the entries of the batches below them, and the
producer entries, open transactions and coordinator epochs in memory are those
of its batches.  Appends and rolls keep it, and so does a truncation of a
recoverable log.
-/

namespace Krabka.Log

open Extent

variable {ρ : Type}

theorem Segment.withRow_eq (seg : Segment ρ) (row : Option AbortedTxn) :
    seg.withRow row = { seg with txnIndex := (seg.withRow row).txnIndex } := by
  unfold Segment.withRow Segment.appendTxn
  cases row with
  | none => rfl
  | some row => by_cases hmem : row ∈ seg.txnIndex <;> simp [hmem]

theorem Segment.withRow_lastOffset (seg : Segment ρ) (row : Option AbortedTxn) :
    (seg.withRow row).lastOffset = seg.lastOffset := by
  rw [seg.withRow_eq row]

namespace PartitionLog

variable {l l' : PartitionLog ρ} {b : RecordBatch ρ} {cut : Int}

structure Sound (l : PartitionLog ρ) : Prop where
  laid : l.Laid
  snapshots : SnapshotsOf l.batches l.snapshots
  producers : l.state.producerState = producersOf l.batches
  derived : l.state.Derived
  sequenced : ∀ b ∈ l.batches, Sequenced b

theorem sound_fresh (remote : Bool) : (fresh remote : PartitionLog ρ).Sound where
  laid := laid_fresh remote
  snapshots := snapshotsOf_empty _
  producers := rfl
  derived := TransactionState.derived_empty
  sequenced := fun _ hb => absurd hb List.not_mem_nil

/-! ## Rolls -/

theorem Sound.rollActiveSegment (h : l.Sound) (hne : l.active.batches ≠ []) :
    l.rollActiveSegment.Sound := by
  have hbatches := l.batches_rollActiveSegment
  have hall := h.laid.ordered.below_eq_self h.laid.logEndOffset_eq.ge
  have hpos : 0 < l.logEndOffset := by
    obtain ⟨b, hb⟩ := List.exists_mem_of_ne_nil _ hne
    have hmem : b ∈ l.batches := by
      rw [batches_eq]
      exact List.mem_append_right _ hb
    have hlow : 0 ≤ b.baseOffset := h.laid.ordered.lower b hmem
    have hspan : b.baseOffset ≤ b.lastOffset := h.laid.ordered.spans b hmem
    have hlast := h.laid.lastOffset_lt hmem
    omega
  refine ⟨⟨h.laid.rollActiveSegment hne, h.laid.startOffset_eq⟩, ?_, ?_, h.derived, ?_⟩
  · rw [hbatches]
    refine h.snapshots.write hpos ?_ ?_
    · rw [hall]
      exact h.laid.logEndOffset_eq.symm
    · rw [hall]
      exact h.producers
  · rw [hbatches]
    exact h.producers
  · rw [hbatches]
    exact h.sequenced

theorem Sound.roll (h : l.Sound) : l.roll.Sound := by
  rcases l.roll_cases with heq | ⟨hne, heq⟩
  · rw [heq]
    exact h
  · rw [heq]
    exact h.rollActiveSegment hne

theorem roll_frame (l : PartitionLog ρ) : l.roll.batches = l.batches ∧
    l.roll.logEndOffset = l.logEndOffset ∧ l.roll.state = l.state ∧ l.roll.lso = l.lso ∧
    l.roll.epochs = l.epochs ∧ l.roll.reconciledFrontier = l.reconciledFrontier := by
  rcases l.roll_cases with heq | ⟨-, heq⟩
  · rw [heq]
    exact ⟨rfl, rfl, rfl, rfl, rfl, rfl⟩
  · rw [heq]
    exact ⟨l.batches_rollActiveSegment, l.logEndOffset_rollActiveSegment, rfl, rfl, rfl, rfl⟩

/-! ## Appends -/

/-- The log after the roll of an append, if it makes one. -/
def rolledIf (l : PartitionLog ρ) (rolls : Bool) : PartitionLog ρ := if rolls then l.roll else l

theorem Sound.rolledIf (h : l.Sound) (rolls : Bool) : (l.rolledIf rolls).Sound := by
  unfold PartitionLog.rolledIf
  split
  · exact h.roll
  · exact h

theorem Recoverable.rolledIf (h : l.Recoverable) (rolls : Bool) :
    (l.rolledIf rolls).Recoverable := by
  unfold PartitionLog.rolledIf
  split
  · exact h.roll
  · exact h

theorem rolledIf_frame (l : PartitionLog ρ) (rolls : Bool) :
    (l.rolledIf rolls).batches = l.batches ∧
      (l.rolledIf rolls).logEndOffset = l.logEndOffset ∧ (l.rolledIf rolls).state = l.state ∧
      (l.rolledIf rolls).lso = l.lso ∧ (l.rolledIf rolls).epochs = l.epochs ∧
      (l.rolledIf rolls).reconciledFrontier = l.reconciledFrontier := by
  unfold rolledIf
  split
  · exact l.roll_frame
  · exact ⟨rfl, rfl, rfl, rfl, rfl, rfl⟩

/-- The state and the index row that a path leaves for a batch. -/
def appendState (s : TransactionState) (path : AppendPath) (b : RecordBatch ρ) :
    Except LogError (TransactionState × Option AbortedTxn) :=
  if path.readsHeaderOnly b then .ok (s.appendVerbatim b, none) else s.appendOwned b

/-- What a successful append of `b` does to a log that has rolled if it had to. -/
structure Appended (l : PartitionLog ρ) (path : AppendPath) (b : RecordBatch ρ)
    (l' : PartitionLog ρ) : Prop where
  frontier : l.appendAtExpectedOffset ≤ b.baseOffset
  delta : 0 ≤ b.lastOffsetDelta
  bounded : b.lastOffset < i64Max
  lso : l'.state.refreshLso (b.lastOffset + 1) = .ok l'.lso
  epochs : (b.partitionLeaderEpoch < 0 ∧ l'.epochs = l.epochs) ∨
    (0 ≤ b.partitionLeaderEpoch ∧
      l.epochs.assign b.partitionLeaderEpoch b.baseOffset = .ok l'.epochs)
  stored : ∃ row, appendState l.state path b = .ok (l'.state, row) ∧
    l' = { l with active := (l.active.append b).withRow row, state := l'.state, lso := l'.lso,
                  epochs := l'.epochs }

theorem commitAppend_ok {state : TransactionState} {row : Option AbortedTxn}
    (h : l.commitAppend b state row = .ok l') :
    state.refreshLso (b.lastOffset + 1) = .ok l'.lso ∧
      l' = { l with active := (l.active.append b).withRow row, state := state, lso := l'.lso } := by
  unfold commitAppend at h
  dsimp only at h
  rw [Segment.withRow_lastOffset] at h
  cases hlso : state.refreshLso ((l.active.append b).lastOffset + 1) with
  | error e =>
    rw [hlso] at h
    cases h
  | ok lso =>
    rw [hlso] at h
    cases h
    exact ⟨hlso, rfl⟩

theorem checkAppend_ok (h : l.checkAppend b = .ok ()) :
    l.appendAtExpectedOffset ≤ b.baseOffset ∧ 0 ≤ b.lastOffsetDelta ∧ b.lastOffset < i64Max := by
  unfold checkAppend checkAppendFrontier localAppendCoordinates at h
  split at h
  · cases h
  · split at h
    · cases h
    · rename_i hsome
      split at hsome
      · cases hsome
      · unfold RecordBatch.lastOffset
        omega

theorem assignAppendedEpoch_ok (h : l.assignAppendedEpoch b = .ok l') :
    l' = { l with epochs := l'.epochs } ∧
      ((b.partitionLeaderEpoch < 0 ∧ l'.epochs = l.epochs) ∨
        (0 ≤ b.partitionLeaderEpoch ∧
          l.epochs.assign b.partitionLeaderEpoch b.baseOffset = .ok l'.epochs)) := by
  unfold assignAppendedEpoch at h
  split at h
  · rename_i hneg
    cases h
    exact ⟨rfl, .inl ⟨hneg, rfl⟩⟩
  · split at h
    · cases h
    · rename_i epochs hassign
      cases h
      exact ⟨rfl, .inr ⟨by omega, hassign⟩⟩

/-- The batch is written by one of the two routines. -/
def writeBatch (l : PartitionLog ρ) (path : AppendPath) (b : RecordBatch ρ) :
    Except LogError (PartitionLog ρ) :=
  if path.readsHeaderOnly b then l.appendVerbatimPreservingOffset b else l.appendPreservingOffset b

variable {path : AppendPath}

theorem writeBatch_ok (h : l.writeBatch path b = .ok l') :
    l'.state.refreshLso (b.lastOffset + 1) = .ok l'.lso ∧ ∃ row,
      appendState l.state path b = .ok (l'.state, row) ∧
      l' =
        { l with active := (l.active.append b).withRow row, state := l'.state, lso := l'.lso } := by
  unfold writeBatch at h
  unfold appendState
  split at h
  · rename_i hheader
    obtain ⟨hlso, heq⟩ := commitAppend_ok h
    rw [heq, if_pos hheader]
    exact ⟨hlso, none, rfl, rfl⟩
  · rename_i hheader
    unfold appendPreservingOffset at h
    split at h
    · cases h
    · rename_i state row happend
      obtain ⟨hlso, heq⟩ := commitAppend_ok h
      rw [heq, if_neg hheader]
      exact ⟨hlso, row, happend, rfl⟩

theorem appendBatch_ok {rolls : Bool} (h : l.appendBatch path rolls b = .ok l') :
    Appended (l.rolledIf rolls) path (path.assigned l b) l' := by
  have hroll := l.rolledIf_frame rolls
  unfold appendBatch at h
  dsimp only at h
  cases hcheck : l.checkAppend (path.assigned l b) with
  | error e =>
    rw [hcheck] at h
    cases h
  | ok u =>
    rw [hcheck] at h
    dsimp only at h
    obtain ⟨hfrontier, hdelta, hbounded⟩ := checkAppend_ok hcheck
    split at h
    · cases h
    · rename_i l₁ hl₁
      have hwritten : (l.rolledIf rolls).writeBatch path (path.assigned l b) = .ok l₁ := hl₁
      obtain ⟨hframe, hepochs⟩ := assignAppendedEpoch_ok h
      obtain ⟨hlso, row, hstate, hl₁_eq⟩ := writeBatch_ok hwritten
      refine ⟨?_, hdelta, hbounded, ?_, ?_, row, ?_, ?_⟩
      · unfold appendAtExpectedOffset at hfrontier ⊢
        rw [hroll.2.1, hroll.2.2.2.2.2]
        exact hfrontier
      · rw [hframe]
        exact hlso
      · rw [hl₁_eq] at hepochs
        exact hepochs
      · rw [hframe]
        exact hstate
      · rw [hframe, hl₁_eq]

/-- A batch of a kind that the path keeps the books of. -/
def PathOk (path : AppendPath) (b : RecordBatch ρ) : Prop :=
  path = .appendVerbatim → b.isControlBatch = false

instance (path : AppendPath) (b : RecordBatch ρ) : Decidable (PathOk path b) := by
  unfold PathOk
  infer_instance

theorem PathOk.data (h : PathOk path b) (hheader : path.readsHeaderOnly b = true) :
    b.isControlBatch = false := by
  cases path with
  | append | appendAt => exact absurd hheader (by simp [AppendPath.readsHeaderOnly])
  | appendVerbatim => exact h rfl
  | appendVerbatimAt => simpa [AppendPath.readsHeaderOnly] using hheader

theorem appendState_eq {s s' : TransactionState} {row : Option AbortedTxn}
    (hs : s.Derived) (hpath : PathOk path b) (h : appendState s path b = .ok (s', row)) :
    s' = s.applyRecoveredBatchState b := by
  unfold appendState at h
  split at h
  · rename_i hheader
    obtain ⟨rfl, -⟩ := Prod.mk.inj (Except.ok.inj h)
    exact TransactionState.appendVerbatim_eq (hpath.data hheader)
  · exact hs.appendOwned_eq h

theorem Appended.rooted {a : Int} (h : l.Rooted a) (happ : Appended l path b l') :
    l'.Rooted a ∧ l'.batches = l.batches ++ [b] ∧ l'.logEndOffset = b.lastOffset + 1 := by
  obtain ⟨row, -, heq⟩ := happ.stored
  have hfrontier := happ.frontier
  unfold appendAtExpectedOffset at hfrontier
  refine h.append (by omega) happ.delta happ.bounded ?_ ?_
  · rw [heq]
  · rw [heq]
    exact Segment.withRow_eq _ row

theorem Appended.laid (h : l.Laid) (happ : Appended l path b l') :
    l'.Laid ∧ l'.batches = l.batches ++ [b] ∧ l'.logEndOffset = b.lastOffset + 1 := by
  obtain ⟨hrooted, hbatches, hend⟩ := happ.rooted h.toRooted
  obtain ⟨row, -, heq⟩ := happ.stored
  have hstart : l'.startOffset = l.startOffset := by rw [heq]
  exact ⟨⟨hrooted, hstart.trans h.startOffset_eq⟩, hbatches, hend⟩

theorem Appended.sound (h : l.Sound) (happ : Appended l path b l')
    (hpath : PathOk path b) (hseq : Sequenced b) : l'.Sound := by
  obtain ⟨hlaid, hbatches, -⟩ := happ.laid h.laid
  obtain ⟨row, hstate, heq⟩ := happ.stored
  have hstate' := appendState_eq h.derived hpath hstate
  have hord : Ordered 0 (l.batches ++ [b]) := by
    rw [← hbatches]
    exact hlaid.ordered
  refine ⟨hlaid, ?_, ?_, ?_, ?_⟩
  · have hsnap : l'.snapshots = l.snapshots := by rw [heq]
    rw [hbatches, hsnap]
    exact h.snapshots.append h.laid.ordered (ordered_append.mp hord).2
  · rw [hstate', hbatches, TransactionState.applyRecoveredBatchState_producerState, h.producers]
    simp [producersOf]
  · rw [hstate']
    exact h.derived.applyRecoveredBatchState hseq
  · intro x hx
    rw [hbatches] at hx
    rcases List.mem_append.mp hx with hx | hx
    · exact h.sequenced x hx
    · obtain rfl := List.mem_singleton.mp hx
      exact hseq

theorem Appended.recoverable (happ : Appended l path b l') (h : l.Recoverable) (hfits : l.Fits b) :
    l'.Recoverable := by
  obtain ⟨row, -, heq⟩ := happ.stored
  refine h.append hfits (by rw [heq]) ?_
  rw [heq]
  exact Segment.withRow_eq _ row

theorem assigned_kind (path : AppendPath) (l : PartitionLog ρ) (b : RecordBatch ρ) :
    (PathOk path (path.assigned l b) ↔ PathOk path b) ∧
      (Sequenced (path.assigned l b) ↔ Sequenced b) := by
  cases path <;> exact ⟨Iff.rfl, Iff.rfl⟩

/-! ## Truncations -/

theorem rebuild_frame (h : l.rebuildProducerAndTransactionState = .ok l') :
    l' = { l with state := l'.state, snapshots := l'.snapshots, lso := l'.lso } := by
  unfold rebuildProducerAndTransactionState at h
  dsimp only at h
  split at h
  · cases h
  split at h
  · cases h
  split at h
  · cases h
  split at h
  · cases h
  · cases h
    rfl

theorem rebuildAfterCut_frame (h : l.rebuildAfterCut = .ok l') :
    l' = { l with state := l'.state, snapshots := l'.snapshots, lso := l'.lso } := by
  unfold rebuildAfterCut at h
  split at h
  · cases h
    rfl
  · exact rebuild_frame h

theorem takeProducerSnapshot_frame (l : PartitionLog ρ) :
    l.takeProducerSnapshot = { l with snapshots := l.takeProducerSnapshot.snapshots } := by
  unfold takeProducerSnapshot
  split <;> rfl

theorem batches_congr (hsegments : l'.segments = l.segments) (hactive : l'.active = l.active) :
    l'.batches = l.batches := by
  unfold batches allSegments
  rw [hsegments, hactive]

theorem Rooted.congr {a : Int} (h : l.Rooted a) (hsegments : l'.segments = l.segments)
    (hactive : l'.active = l.active) : l'.Rooted a := by
  refine ⟨?_, ?_⟩
  · unfold allSegments
    rw [hsegments, hactive]
    exact h.chained
  · rw [hsegments]
    exact h.sealed_ne

theorem Laid.congr (h : l.Laid) (hsegments : l'.segments = l.segments)
    (hactive : l'.active = l.active) (hstart : l'.startOffset = l.startOffset) : l'.Laid :=
  ⟨h.toRooted.congr hsegments hactive, hstart.trans h.startOffset_eq⟩

theorem Sound.withEpochs (h : l.Sound) (epochs : LeaderEpochCheckpoint) :
    { l with epochs := epochs }.Sound :=
  ⟨h.laid.congr rfl rfl rfl, h.snapshots, h.producers, h.derived, h.sequenced⟩

theorem Sound.takeProducerSnapshot (h : l.Sound) : l.takeProducerSnapshot.Sound := by
  have hall := h.laid.ordered.below_eq_self h.laid.logEndOffset_eq.ge
  unfold PartitionLog.takeProducerSnapshot
  split
  · rename_i hgt
    rw [h.laid.producerReloadRange_eq] at hgt
    refine ⟨h.laid.congr rfl rfl rfl, ?_, h.producers, h.derived, h.sequenced⟩
    have hend : endOf 0 (below l.logEndOffset l.batches) = l.logEndOffset := by
      rw [hall]
      exact h.laid.logEndOffset_eq.symm
    have hentries : l.state.producerState = producersOf (below l.logEndOffset l.batches) := by
      rw [hall]
      exact h.producers
    exact h.snapshots.write hgt hend hentries
  · exact h

/-- The log that a cut leaves before its state is rebuilt. -/
def cutLog (l : PartitionLog ρ) (cut : Int) (segments : List (Segment ρ)) (active : Segment ρ) :
    PartitionLog ρ :=
  { l with
    segments := segments
    active := active
    snapshots := l.snapshots.retain (producerSnapshotReloadKeeps (l.producerReloadRange cut)) }

/-- A cut returns early when there is nothing to discard. -/
def CutsNothing (l : PartitionLog ρ) (cut : Int) : Prop :=
  cut > l.logEndOffset ∨ (cut = l.logEndOffset ∧ ¬ l.emptyRolledActiveAt cut)

instance (l : PartitionLog ρ) (cut : Int) : Decidable (l.CutsNothing cut) := by
  unfold CutsNothing
  infer_instance

theorem cuts_of_not_cutsNothing (h : ¬ l.CutsNothing cut) :
    cut < l.logEndOffset ∨ cut = l.active.baseOffset := by
  unfold CutsNothing at h
  push Not at h
  by_cases hlt : cut < l.logEndOffset
  · exact .inl hlt
  · have heq : cut = l.logEndOffset := by omega
    have hrolled := h.2 heq
    unfold emptyRolledActiveAt at hrolled
    simp only [Bool.and_eq_true, decide_eq_true_eq] at hrolled
    exact .inr hrolled.2.symm

theorem Laid.cutLog (h : l.Laid) {segments : List (Segment ρ)} {active : Segment ρ}
    (hzero : 0 ≤ cut) (hcut : CutSegments l cut segments active) :
    (l.cutLog cut segments active).Laid ∧
      (l.cutLog cut segments active).batches = below cut l.batches := by
  obtain ⟨hchained, hne, hbatches⟩ := hcut.rooted h.toRooted hzero
  exact ⟨⟨⟨hchained, hne⟩, h.startOffset_eq⟩, hbatches⟩

theorem Laid.cutLog_reloadOffset (h : l.Laid) {segments : List (Segment ρ)} {active : Segment ρ}
    (hzero : 0 ≤ cut) (hcut : CutSegments l cut segments active) :
    (l.cutLog cut segments active).reloadOffset =
      l.snapshotBelow (endOf 0 (below cut l.batches)) := by
  obtain ⟨hlaid, hbatches⟩ := h.cutLog hzero hcut
  have hend := hlaid.logEndOffset_eq
  rw [hbatches] at hend
  have hle := endOf_below_le hzero l.batches
  have hsnapshots : ((l.cutLog cut segments active).snapshots.retain
      (producerSnapshotReloadKeeps ⟨0, 0, endOf 0 (below cut l.batches)⟩)) = l.snapshots.retain
        (producerSnapshotReloadKeeps ⟨0, 0, endOf 0 (below cut l.batches)⟩) := by
    refine SortedMap.retain_retain _ fun offset hkeeps => ?_
    rw [h.producerReloadRange_eq]
    simp only [producerSnapshotReloadKeeps, Bool.and_eq_true, decide_eq_true_eq] at hkeeps ⊢
    omega
  unfold reloadOffset snapshotBelow reload
  rw [hend, hlaid.producerReloadRange_eq, h.producerReloadRange_eq, hsnapshots]

theorem Sound.cutLog_snapshots (h : l.Sound) {segments : List (Segment ρ)} {active : Segment ρ} :
    SnapshotsOf (below cut l.batches) (l.cutLog cut segments active).snapshots := by
  refine (h.snapshots.retain _).below ?_
  intro offset producers hget
  rw [SortedMap.get?_retain] at hget
  split at hget
  · rename_i hkeeps
    unfold producerSnapshotReloadKeeps at hkeeps
    simp only [Bool.and_eq_true, decide_eq_true_eq] at hkeeps
    exact hkeeps.2
  · cases hget

theorem eq_empty_of_producersAfter {s : ProducerState} (h : producersAfter s b = .empty) :
    s = .empty := by
  have hne : ∀ pid e, s.insert pid e ≠ .empty := by
    intro pid e heq
    have hget := congrArg (·.get? pid) heq
    simp at hget
  unfold producersAfter updateOwnedProducerEntry updateDataProducerEntry at h
  split_ifs at h
  exacts [h, h, absurd h (hne _ _), h, absurd h (hne _ _)]

theorem producersOf_eq_empty_of_append {xs : List (RecordBatch ρ)} (ys : List (RecordBatch ρ))
    (h : producersOf (xs ++ ys) = .empty) : producersOf xs = .empty := by
  induction ys using List.reverseRecOn with
  | nil => rwa [List.append_nil] at h
  | append_singleton ys b ih =>
    rw [← List.append_assoc, producersOf, List.foldl_concat] at h
    exact ih (eq_empty_of_producersAfter h)

theorem Sound.not_rebuilt (h : l.Sound) (hempty : (l.state.producerState.entries.isEmpty &&
    l.state.unreplicated.entries.isEmpty) = true) :
    producersOf (below cut l.batches) = l.state.producerState := by
  simp only [Bool.and_eq_true, List.isEmpty_iff] at hempty
  have hproducers : l.state.producerState = .empty := by
    apply SortedMap.ext
    exact hempty.1
  rw [hproducers]
  apply producersOf_eq_empty_of_append (above cut l.batches)
  rw [h.laid.ordered.below_append_above, ← h.producers, hproducers]

/-- What a truncation does once the segments are cut and the state is rebuilt. -/
def afterCut (l : PartitionLog ρ) (cut : Int) : PartitionLog ρ :=
  let l := l.takeProducerSnapshot
  { l with
    lso := min l.lso l.logEndOffset
    epochs := l.epochs.truncateFromEnd l.logEndOffset
    startOffset := if min cut l.logEndOffset ≥ l.startOffset then l.startOffset
      else min cut l.logEndOffset }

theorem truncateTo_iff (hcut : ¬ l.CutsNothing cut)
    (hfirst : l.firstLocalOffset ≤ cut) : l.truncateTo cut = .ok l' ↔
      ∃ segments active l₁, l.cutSegments cut = .ok (segments, active) ∧
        (l.cutLog cut segments active).rebuildAfterCut = .ok l₁ ∧ l' = l₁.afterCut cut := by
  unfold truncateTo
  unfold CutsNothing at hcut
  rw [if_neg hcut, if_neg (by omega)]
  dsimp only
  constructor
  · intro h
    split at h
    · cases h
    · rename_i segments active hsegments
      split at h
      · cases h
      · rename_i l₁ hl₁
        exact ⟨segments, active, l₁, hsegments, hl₁, (Except.ok.inj h).symm⟩
  · rintro ⟨segments, active, l₁, hsegments, hl₁, rfl⟩
    have hl₁' : rebuildAfterCut { l with
        segments := segments
        active := active
        snapshots := l.snapshots.retain
          (producerSnapshotReloadKeeps (l.producerReloadRange cut)) } = .ok l₁ := hl₁
    rw [hsegments]
    dsimp only
    rw [hl₁']
    rfl

theorem afterCut_eq {segments : List (Segment ρ)} {active : Segment ρ} {l₁ : PartitionLog ρ}
    (h : (l.cutLog cut segments active).rebuildAfterCut = .ok l₁) :
    l₁.afterCut cut = { l with
      segments := segments
      active := active
      state := l₁.state
      snapshots := l₁.takeProducerSnapshot.snapshots
      lso := min l₁.lso (active.lastOffset + 1)
      epochs := l.epochs.truncateFromEnd (active.lastOffset + 1)
      startOffset := if min cut (active.lastOffset + 1) ≥ l.startOffset then l.startOffset
        else min cut (active.lastOffset + 1) } := by
  unfold afterCut
  rw [l₁.takeProducerSnapshot_frame, rebuildAfterCut_frame h]
  rfl

theorem Sound.afterCut (h : l.Sound) (hzero : 0 ≤ cut) : (l.afterCut cut).Sound := by
  have hsnapped := h.takeProducerSnapshot
  have hstart := hsnapped.laid.startOffset_eq
  have hnonneg := hsnapped.laid.le_logEndOffset
  exact ⟨hsnapped.laid.congr rfl rfl (if_pos (by omega)), hsnapped.snapshots,
    hsnapped.producers, hsnapped.derived, hsnapped.sequenced⟩

/-- How a truncation that discards something leaves the log. -/
structure Truncated (l : PartitionLog ρ) (cut : Int) (l' : PartitionLog ρ) : Prop where
  segments : CutSegments l cut l'.segments l'.active
  sound : l'.Sound
  batches : l'.batches = below cut l.batches
  epochs : l'.epochs = l.epochs.truncateFromEnd l'.logEndOffset
  rebuilt : (l.state.producerState.entries.isEmpty && l.state.unreplicated.entries.isEmpty) = true ∧
      l'.state = l.state ∧ l'.lso = min l.lso l'.logEndOffset ∨
    (l.state.producerState.entries.isEmpty && l.state.unreplicated.entries.isEmpty) = false ∧
      ∃ l₁, Rebuilt (l.cutLog cut l'.segments l'.active) l₁ ∧ l'.state = l₁.state ∧
        l'.lso = min l₁.lso l'.logEndOffset
  frontier : l'.reconciledFrontier = l.reconciledFrontier

theorem Laid.truncateTo_ok (h : l.Laid) (hrec : l.Recoverable) (hzero : 0 ≤ cut)
    (hcut : ¬ l.CutsNothing cut) (hseq : ∀ b ∈ below cut l.batches, Sequenced b)
    (hsnap : ∀ segments active, SnapshotsOf (below cut l.batches)
      (l.cutLog cut segments active).snapshots) :
    ∃ segments active l₁, CutSegments l cut segments active ∧
      (l.cutLog cut segments active).rebuildAfterCut = .ok l₁ ∧
      l.truncateTo cut = .ok (l₁.afterCut cut) ∧
      ((l.state.producerState.entries.isEmpty && l.state.unreplicated.entries.isEmpty) = true ∧
          l₁ = l.cutLog cut segments active ∨
        (l.state.producerState.entries.isEmpty && l.state.unreplicated.entries.isEmpty) = false ∧
          Rebuilt (l.cutLog cut segments active) l₁) := by
  obtain ⟨segments, active, hsegments, hcuts⟩ :=
    h.cutSegments_ok hrec.addressable le_rfl (cuts_of_not_cutsNothing hcut)
  obtain ⟨hlaid, hbatches⟩ := h.cutLog hzero hcuts
  have hfirst : l.firstLocalOffset ≤ cut := by
    rw [h.firstLocalOffset_eq]
    exact hzero
  by_cases hempty : (l.state.producerState.entries.isEmpty &&
      l.state.unreplicated.entries.isEmpty) = true
  · have hl₁ : (l.cutLog cut segments active).rebuildAfterCut =
        .ok (l.cutLog cut segments active) := if_pos hempty
    exact ⟨segments, active, _, hcuts, hl₁,
      (truncateTo_iff hcut hfirst).mpr ⟨segments, active, _, hsegments, hl₁, rfl⟩,
      .inl ⟨hempty, rfl⟩⟩
  · obtain ⟨l₁, hl₁, hrebuilt⟩ := hlaid.rebuild_ok (by rw [hbatches]; exact hsnap segments active)
      (by rwa [hbatches]) (hlaid.readsInOrder (hrec.cutSegments h.toRooted hcuts rfl))
    have hl₁' : (l.cutLog cut segments active).rebuildAfterCut = .ok l₁ :=
      (if_neg hempty).trans hl₁
    exact ⟨segments, active, l₁, hcuts, hl₁',
      (truncateTo_iff hcut hfirst).mpr ⟨segments, active, l₁, hsegments, hl₁', rfl⟩,
      .inr ⟨Bool.eq_false_iff.mpr hempty, hrebuilt⟩⟩

theorem Sound.truncateTo_ok (h : l.Sound) (hrec : l.Recoverable) (hzero : 0 ≤ cut)
    (hcut : ¬ l.CutsNothing cut) : ∃ l', l.truncateTo cut = .ok l' ∧ Truncated l cut l' := by
  have hseq : ∀ b ∈ below cut l.batches, Sequenced b :=
    fun b hb => h.sequenced b (mem_below.mp hb).1
  obtain ⟨segments, active, l₁, hcuts, hl₁, hok, hstate⟩ :=
    h.laid.truncateTo_ok hrec hzero hcut hseq fun _ _ => h.cutLog_snapshots
  obtain ⟨hlaid, hbatches⟩ := h.laid.cutLog hzero hcuts
  have hsound : l₁.Sound := by
    rcases hstate with ⟨hempty, rfl⟩ | ⟨-, hrebuilt⟩
    · refine ⟨hlaid, ?_, ?_, h.derived, by rwa [hbatches]⟩
      · rw [hbatches]
        exact h.cutLog_snapshots
      · rw [hbatches]
        exact (h.not_rebuilt hempty).symm
    · refine ⟨hrebuilt.laid hlaid, ?_, ?_, hrebuilt.derived (by rwa [hbatches]), ?_⟩
      · rw [hrebuilt.batches_eq]
        exact hrebuilt.snapshots
      · rw [hrebuilt.batches_eq]
        exact hrebuilt.producers hlaid
      · rwa [hrebuilt.batches_eq, hbatches]
  refine ⟨_, hok, ?_⟩
  have hafter := hsound.afterCut hzero
  rw [afterCut_eq hl₁] at hafter ⊢
  refine ⟨hcuts, hafter, hbatches, rfl, ?_, rfl⟩
  rcases hstate with ⟨hempty, rfl⟩ | ⟨hstateful, hrebuilt⟩
  · exact .inl ⟨hempty, rfl, rfl⟩
  · exact .inr ⟨hstateful, l₁, hrebuilt, rfl, rfl⟩

theorem Truncated.recoverable (htrunc : Truncated l cut l') (h : l.Sound)
    (hrec : l.Recoverable) : l'.Recoverable :=
  hrec.cutSegments h.laid.toRooted htrunc.segments rfl

theorem truncateTo_of_cutsNothing (hcut : l.CutsNothing cut) :
    l.truncateTo cut = .ok { l with epochs := l.epochs.truncateFromEnd l.logEndOffset } :=
  if_pos hcut

theorem Sound.truncated (h : l.Sound) (hrec : l.Recoverable) (hzero : 0 ≤ cut)
    (hcut : ¬ l.CutsNothing cut) (hrun : l.truncateTo cut = .ok l') : Truncated l cut l' := by
  obtain ⟨l₁, hl₁, htrunc⟩ := h.truncateTo_ok hrec hzero hcut
  obtain rfl := Except.ok.inj (hl₁.symm.trans hrun)
  exact htrunc

theorem Sound.truncateTo (h : l.Sound) (hrec : l.Recoverable) (hzero : 0 ≤ cut)
    (hrun : l.truncateTo cut = .ok l') : l'.Sound ∧ l'.Recoverable := by
  by_cases hcut : l.CutsNothing cut
  · rw [truncateTo_of_cutsNothing hcut] at hrun
    cases hrun
    exact ⟨h.withEpochs _, hrec.congr rfl rfl⟩
  · have htrunc := h.truncated hrec hzero hcut hrun
    exact ⟨htrunc.sound, htrunc.recoverable h hrec⟩

/-- The segments that a truncation leaves are those of the cut, the log start moves
down with the log end only, and the epoch history ends there. -/
theorem truncateTo_cutSegments (h : l.truncateTo cut = .ok l') (hcut : ¬ l.CutsNothing cut)
    (hfirst : l.firstLocalOffset ≤ cut) :
    l.cutSegments cut = .ok (l'.segments, l'.active) ∧
      (l'.startOffset = if min cut l'.logEndOffset ≥ l.startOffset then l.startOffset
        else min cut l'.logEndOffset) ∧
      l'.epochs = l.epochs.truncateFromEnd l'.logEndOffset := by
  obtain ⟨segments, active, l₁, hsegments, hl₁, rfl⟩ := (truncateTo_iff hcut hfirst).mp h
  rw [afterCut_eq hl₁]
  exact ⟨hsegments, rfl, rfl⟩

end PartitionLog

end Krabka.Log

import Krabka.Log.Ledger
import Krabka.Log.Reopen

/-!
# The last stable offset

A reader of committed records stops at `Log::last_stable_offset`.  The answer at
a high watermark may not pass the first offset of a transaction of the ledger
that is open, nor of one whose marker the high watermark has not passed.

It does not, in every run whose rebuilds start from a snapshot with no end
marker at or above the high watermark below it.  The transactions that are
complete and not replicated are in no snapshot, so a rebuild that restores one
taken past such a marker forgets the transaction.
-/

namespace Krabka.Log

open Extent PartitionLog TransactionState Ledger SortedMap TransitionSystem

variable {ρ : Type}

namespace PartitionLog

variable {l l' : PartitionLog ρ} {hw : Int}

/-! ## The state holds the transactions back -/

/-- No end marker of the batches lies at or above `hw`. -/
def MarkersBelow (hw : Int) (batches : List (RecordBatch ρ)) : Prop :=
  ∀ txn ∈ (of batches).closed, txn.2 < hw

instance (hw : Int) (batches : List (RecordBatch ρ)) : Decidable (MarkersBelow hw batches) :=
  inferInstanceAs (Decidable (∀ txn ∈ _, _))

/-- The log holds back what its ledger says, and its first unstable offset is at
most everything that it holds back. -/
structure Holding (l : PartitionLog ρ) (hw : Int) : Prop where
  held : (of l.batches).Held hw l.state
  lso : ∀ start, l.state.Holds start → l.lso ≤ start

theorem holding_fresh (remote : Bool) (hw : Int) : (fresh remote : PartitionLog ρ).Holding hw where
  held := held_empty hw
  lso := by
    rintro start (hstart | hstart)
    · cases hstart
    · cases hstart

theorem Holding.congr (h : l.Holding hw) (hbatches : l'.batches = l.batches)
    (hstate : l'.state = l.state) (hlso : l'.lso = l.lso) : l'.Holding hw := by
  refine ⟨?_, ?_⟩
  · rw [hbatches, hstate]
    exact h.held
  · rw [hstate, hlso]
    exact h.lso

theorem Rebuilt.holding (h : Rebuilt l l') (hlaid : l.Laid) (hseq : ∀ b ∈ l.batches, Sequenced b)
    (hbelow : MarkersBelow hw (below l.reloadOffset l.batches)) : l'.Holding hw := by
  obtain ⟨restored, hopened, -, hstate⟩ := h.restored hlaid hseq
  have hsplit := hlaid.ordered.below_append_above l.reloadOffset
  have hrestored : (of (below l.reloadOffset l.batches)).Held hw restored := by
    refine ⟨hopened, ?_⟩
    intro first marker hmem hle
    have hlt := hbelow _ hmem
    omega
  refine ⟨?_, ?_⟩
  · rw [h.batches_eq, hstate]
    have hall := hrestored.foldl (hlaid.ordered.ordered_above _) fun first marker hmem =>
      marker_lt (hlaid.ordered.below _) hmem
    rw [← of_append, hsplit] at hall
    exact hall
  · exact (refreshLso_le h.lso).2

theorem Appended.holding {path : AppendPath} {b : RecordBatch ρ} (happ : Appended l path b l')
    (hsound : l.Sound) (hpath : PathOk path b) (h : l.Holding hw) : l'.Holding hw := by
  obtain ⟨hlaid, hbatches, hend⟩ := happ.laid hsound.laid
  obtain ⟨row, hstate, heq⟩ := happ.stored
  have hlast : ∀ first marker, (first, marker) ∈ (of l.batches).closed →
      marker ≤ b.lastOffset := by
    intro first marker hmem
    have hlt := marker_lt hsound.laid.ordered hmem
    have hfrontier := happ.frontier
    have hdelta := happ.delta
    unfold appendAtExpectedOffset at hfrontier
    rw [← hsound.laid.logEndOffset_eq] at hlt
    unfold RecordBatch.lastOffset
    omega
  refine ⟨?_, ?_⟩
  · rw [hbatches, appendState_eq hsound.derived hpath hstate, of_append]
    exact h.held.applyRecoveredBatchState hlast
  · exact (refreshLso_le happ.lso).2

theorem Laid.closed_below (h : l.Laid) (cut : Int) {first marker : Int}
    (hmem : (first, marker) ∈ (of (below cut l.batches)).closed) :
    (first, marker) ∈ (of l.batches).closed := by
  have hsplit := h.ordered.below_append_above cut
  rw [← hsplit, of_append]
  exact (closed_prefix_foldl _ _).subset hmem

theorem Truncated.holding {cut : Int} (htruncated : Truncated l cut l') (hzero : 0 ≤ cut)
    (hsound : l.Sound)
    (hbelow : (l.state.producerState.entries.isEmpty &&
        l.state.unreplicated.entries.isEmpty) = true ∨
      MarkersBelow hw
        (below (l.snapshotBelow (endOf 0 (below cut l.batches))) (below cut l.batches)))
    (h : l.Holding hw) : l'.Holding hw := by
  obtain ⟨hlaid, hbatches⟩ := hsound.laid.cutLog hzero htruncated.segments
  rcases htruncated.rebuilt with ⟨-, hstate, hlso⟩ | ⟨hstateful, l₁, hrebuilt, hstate, hlso⟩
  · refine ⟨⟨htruncated.sound.pending_eq, ?_⟩, ?_⟩
    · rw [hstate, htruncated.batches]
      intro first marker hmem hle
      exact h.held.closed first marker (hsound.laid.closed_below cut hmem) hle
    · rw [hstate, hlso]
      intro start hstart
      exact (min_le_left _ _).trans (h.lso start hstart)
  · have hmarkers := hbelow.resolve_left (by rw [hstateful]; simp)
    rw [← hsound.laid.cutLog_reloadOffset hzero htruncated.segments, ← hbatches] at hmarkers
    have hseq : ∀ b ∈ (l.cutLog cut l'.segments l'.active).batches, Sequenced b := by
      rw [hbatches]
      exact fun b hb => hsound.sequenced b (mem_below.mp hb).1
    have hholding := hrebuilt.holding hlaid hseq hmarkers
    refine ⟨?_, ?_⟩
    · rw [htruncated.batches, hstate, ← hbatches, ← hrebuilt.batches_eq]
      exact hholding.held
    · rw [hstate, hlso]
      intro start hstart
      exact (min_le_left _ _).trans (hholding.lso start hstart)

theorem Holding.release {hw' : Int} (h : l.Holding hw) (hle : hw ≤ hw') :
    (l.releaseReplicatedTransactions hw').Holding hw' := by
  have hheld : (of l.batches).Held hw'
      { l.state with unreplicated := l.state.unreplicated.keepValues (hw' ≤ ·) } := by
    refine ⟨h.held.opened, ?_⟩
    intro first marker hmem hmarker
    obtain ⟨m, hm, hlem⟩ := h.held.closed first marker hmem (hle.trans hmarker)
    refine ⟨m, ?_, hlem⟩
    rw [get?_keepValues, hm]
    have hkept : hw' ≤ m := hmarker.trans hlem
    simp [Option.filter, hkept]
  have hfewer : ∀ start, TransactionState.Holds
      { l.state with unreplicated := l.state.unreplicated.keepValues (hw' ≤ ·) } start →
      l.state.Holds start := by
    rintro start (hstart | hstart)
    · exact .inl hstart
    · right
      rw [mem_keys_iff] at hstart ⊢
      unfold contains at hstart ⊢
      rw [get?_keepValues] at hstart
      cases hget : l.state.unreplicated.get? start with
      | none =>
        rw [hget] at hstart
        cases hstart
      | some m => rfl
  unfold releaseReplicatedTransactions
  dsimp only
  split
  · split
    · rename_i lso hlso
      exact ⟨hheld, (refreshLso_le hlso).2⟩
    · exact ⟨hheld, fun start hstart => h.lso start (hfewer start hstart)⟩
  · exact ⟨hheld, fun start hstart => h.lso start (hfewer start hstart)⟩

theorem release_frame (l : PartitionLog ρ) (hw : Int) :
    l.releaseReplicatedTransactions hw =
      { l with
        state := { l.state with unreplicated := l.state.unreplicated.keepValues (hw ≤ ·) }
        lso := (l.releaseReplicatedTransactions hw).lso } := by
  unfold releaseReplicatedTransactions
  dsimp only
  split
  · split <;> rfl
  · rfl

theorem Sound.release (h : l.Sound) (hw : Int) : (l.releaseReplicatedTransactions hw).Sound := by
  have hframe := l.release_frame hw
  rw [hframe]
  exact ⟨h.laid.congr rfl rfl rfl, h.snapshots, h.producers,
    ⟨h.derived.pending_eq, h.derived.coordinatorEpoch_eq, h.derived.nonneg⟩, h.sequenced⟩

theorem Recoverable.release (h : l.Recoverable) (hw : Int) :
    (l.releaseReplicatedTransactions hw).Recoverable := by
  rw [l.release_frame hw]
  exact h.congr rfl rfl

end PartitionLog

/-! ## Runs -/

structure Replica (ρ : Type) where
  log : PartitionLog ρ
  highWatermark : Int

inductive ReplicaOp (ρ : Type) where
  | log (op : LogOp ρ)
  | reopen
  | closeAndReopen
  | lastStableOffset (highWatermark : Int)

/-- A truncation does not cut below the high watermark. -/
def LogOp.CutsAbove (hw : Int) : LogOp ρ → Prop
  | truncateTo offset => hw ≤ offset ∧ 0 ≤ offset
  | _ => True

instance (hw : Int) : ∀ op : LogOp ρ, Decidable (op.CutsAbove hw)
  | .truncateTo _ => inferInstanceAs (Decidable (_ ∧ _))
  | .append _ _ _ => .isTrue trivial
  | .roll => .isTrue trivial

namespace Replica

/-- One operation, if it succeeds.  High watermarks do not decrease and do not
pass the log end. -/
def apply (s : Replica ρ) : ReplicaOp ρ → Option (Replica ρ)
  | .log op =>
    if op.CutsAbove s.highWatermark then
      (op.run s.log).toOption.map fun l => { s with log := l }
    else none
  | .reopen => s.log.reopen.toOption.map fun l => { s with log := l }
  | .closeAndReopen => s.log.closeAndReopen.toOption.map fun l => { s with log := l }
  | .lastStableOffset hw =>
    if s.highWatermark ≤ hw ∧ hw ≤ s.log.logEndOffset then
      some ⟨(s.log.lastStableOffset hw).2, hw⟩
    else none

/-- Runs from an empty directory, with any high watermark that is known then. -/
def system (ρ : Type) (remote : Bool) : TransitionSystem (Replica ρ) (ReplicaOp ρ) where
  init s := s.log = .fresh remote ∧ s.highWatermark ≤ 0
  step s op s' := s.apply op = some s'

/-- The batches that are appended keep producer entries and fit, and no rebuild
starts past an end marker that the high watermark has not passed. -/
def Sheltered (s : Replica ρ) : ReplicaOp ρ → Prop
  | .log (.truncateTo offset) => s.log.CutsNothing offset ∨
      (s.log.state.producerState.entries.isEmpty &&
        s.log.state.unreplicated.entries.isEmpty) = true ∨
      let kept := below offset s.log.batches
      MarkersBelow s.highWatermark (below (s.log.snapshotBelow (endOf 0 kept)) kept)
  | .log op => op.Admissible ∧ op.DecodesControls ∧ op.Fits s.log
  | .reopen => MarkersBelow s.highWatermark (below s.log.opened.reloadOffset s.log.batches)
  | .closeAndReopen => MarkersBelow s.highWatermark
      (below s.log.takeProducerSnapshot.opened.reloadOffset s.log.batches)
  | .lastStableOffset _ => True

instance (s : Replica ρ) : ∀ op, Decidable (s.Sheltered op)
  | .log (.truncateTo _) => inferInstanceAs (Decidable (_ ∨ _ ∨ MarkersBelow _ _))
  | .log (.append ..) | .log .roll => inferInstanceAs (Decidable (_ ∧ _ ∧ LogOp.Fits _ _))
  | .reopen | .closeAndReopen => inferInstanceAs (Decidable (MarkersBelow _ _))
  | .lastStableOffset _ => .isTrue trivial

structure Inv (s : Replica ρ) : Prop where
  sound : s.log.Sound
  recoverable : s.log.Recoverable
  holding : s.log.Holding s.highWatermark

variable {s s' : Replica ρ}

theorem inv_of_reopen {l l' : PartitionLog ρ} {hw : Int} (hsound : l.Sound)
    (hrecoverable : l.Recoverable)
    (hmarkers : PartitionLog.MarkersBelow hw (below l.opened.reloadOffset l.batches))
    (hrun : l.reopen = .ok l') : Inv ⟨l', hw⟩ := by
  obtain ⟨l₁, hl₁, hrebuilt⟩ := hsound.reopen_ok hrecoverable
  obtain rfl := Except.ok.inj (hl₁.symm.trans hrun)
  have hlaid : l.opened.Laid := hsound.laid.congr rfl rfl hsound.laid.startOffset_eq.symm
  refine ⟨hsound.reopened hrebuilt, hrecoverable.congr ?_ ?_,
    hrebuilt.holding hlaid hsound.sequenced hmarkers⟩
  · rw [hrebuilt.frame]
    rfl
  · rw [hrebuilt.frame]
    rfl

theorem Inv.log {op : LogOp ρ} {l' : PartitionLog ρ} (h : s.Inv)
    (hcuts : op.CutsAbove s.highWatermark)
    (hrun : op.run s.log = .ok l') (hok : s.Sheltered (.log op)) : Inv { s with log := l' } := by
  cases op with
  | append path rolls b =>
    have happended := appendBatch_ok hrun
    have hkind := assigned_kind path s.log b
    have hroll := s.log.rolledIf_frame rolls
    have hsound := h.sound.rolledIf rolls
    have hpath := hkind.1.mpr hok.2.1
    have hholding := h.holding.congr hroll.1 hroll.2.2.1 hroll.2.2.2.1
    exact ⟨happended.sound hsound hpath (hkind.2.mpr hok.1),
      happended.recoverable (h.recoverable.rolledIf rolls) hok.2.2,
      happended.holding hsound hpath hholding⟩
  | roll =>
    cases hrun
    have hroll := s.log.roll_frame
    exact ⟨h.sound.roll, h.recoverable.roll, h.holding.congr hroll.1 hroll.2.2.1 hroll.2.2.2.1⟩
  | truncateTo offset =>
    obtain ⟨hsound, hrecoverable⟩ := h.sound.truncateTo h.recoverable hcuts.2 hrun
    refine ⟨hsound, hrecoverable, ?_⟩
    by_cases hcut : s.log.CutsNothing offset
    · have heq := (truncateTo_of_cutsNothing hcut).symm.trans hrun
      cases heq
      exact h.holding.congr rfl rfl rfl
    · have htruncated := h.sound.truncated h.recoverable hcuts.2 hcut hrun
      exact htruncated.holding hcuts.2 h.sound (hok.resolve_left hcut) h.holding

theorem Inv.apply {op : ReplicaOp ρ} (h : s.Inv) (hrun : s.apply op = some s')
    (hok : s.Sheltered op) : s'.Inv := by
  have hopened : ∀ {r : Except LogError (PartitionLog ρ)},
      (r.toOption.map fun l => ({ s with log := l } : Replica ρ)) = some s' →
      ∃ l', r = .ok l' ∧ s' = { s with log := l' } := by
    intro r hr
    obtain ⟨l', hl', heq⟩ := Option.map_eq_some_iff.mp hr
    exact ⟨l', Except.eq_ok_of_toOption hl', heq.symm⟩
  cases op with
  | log op =>
    simp only [Replica.apply] at hrun
    split at hrun
    · rename_i hcuts
      obtain ⟨l', hl', rfl⟩ := hopened hrun
      exact h.log hcuts hl' hok
    · cases hrun
  | reopen =>
    obtain ⟨l', hl', rfl⟩ := hopened hrun
    exact inv_of_reopen h.sound h.recoverable hok hl'
  | closeAndReopen =>
    obtain ⟨l', hl', rfl⟩ := hopened hrun
    have hbatches : s.log.takeProducerSnapshot.batches = s.log.batches := by
      rw [s.log.takeProducerSnapshot_frame]
      rfl
    refine inv_of_reopen h.sound.takeProducerSnapshot h.recoverable.takeProducerSnapshot ?_ hl'
    rw [hbatches]
    exact hok
  | lastStableOffset hw =>
    simp only [Replica.apply] at hrun
    split at hrun
    · rename_i hbounds
      cases hrun
      exact ⟨h.sound.release hw, h.recoverable.release hw, h.holding.release hbounds.1⟩
    · cases hrun

def shelteredSystem (ρ : Type) (remote : Bool) : TransitionSystem (Replica ρ) (ReplicaOp ρ) :=
  (system ρ remote).restrict fun s op _ => s.Sheltered op

theorem inv_of_reachable {remote : Bool} (h : (shelteredSystem ρ remote).Reachable s) : s.Inv := by
  refine h.invariant (P := Inv) ?_ ?_
  · rintro ⟨l, hw⟩ ⟨rfl, -⟩
    exact ⟨sound_fresh remote, recoverable_fresh remote,
      holding_fresh remote hw⟩
  · rintro s op s' hinv ⟨hrun, hok⟩
    exact hinv.apply hrun hok

/-- In every run that is sheltered, the last stable offset at a high watermark
passes neither it, nor an open transaction, nor a transaction whose marker is
not below it. -/
theorem lastStableOffset_shields {remote : Bool} {hw : Int}
    (h : (shelteredSystem ρ remote).Reachable s) (hle : s.highWatermark ≤ hw) :
    (s.log.lastStableOffset hw).1 ≤ hw ∧
      (∀ pid first, (of s.log.batches).opened.get? pid = some first →
        (s.log.lastStableOffset hw).1 ≤ first) ∧
      ∀ first marker, (first, marker) ∈ (of s.log.batches).closed → hw ≤ marker →
        (s.log.lastStableOffset hw).1 ≤ first := by
  have hholding := (inv_of_reachable h).holding.release hle
  have hbatches : (s.log.releaseReplicatedTransactions hw).batches = s.log.batches := by
    rw [s.log.release_frame hw]
    rfl
  have hheld := hholding.held
  rw [hbatches] at hheld
  refine ⟨min_le_right _ _, ?_, ?_⟩
  · intro pid first hopen
    refine (min_le_left _ _).trans (hholding.lso first (.inl ?_))
    rw [← hheld.opened pid] at hopen
    exact List.mem_map_of_mem (mem_of_get? _ hopen)
  · intro first marker hmem hmarker
    obtain ⟨m, hm, -⟩ := hheld.closed first marker hmem hmarker
    refine (min_le_left _ _).trans (hholding.lso first (.inr ?_))
    rw [mem_keys_iff, contains, hm]
    rfl

/-- A transaction is replicated, a second one rolls the log, a batch behind it is cut
off, and the log is reopened past the marker that ends it. -/
def shelteredOps : List (ReplicaOp Unit) :=
  [.log (.append .append false (txnBatch 1)),
    .log (.append .append false (endMarker 1 (.commit 0))), .lastStableOffset 2,
    .log (.append .append true (txnBatch 2)), .log (.append .append false (plainBatch 10)),
    .log (.truncateTo 3), .log (.append .append false (endMarker 2 (.abort 0))), .reopen]

theorem lastStableOffset_shields_reopened : ∃ s : Replica Unit,
    (shelteredSystem Unit false).Reachable s ∧ s.highWatermark = 2 ∧
      (2, 3) ∈ (of s.log.batches).closed ∧ (s.log.lastStableOffset 3).1 ≤ 2 := by
  let s := runAll apply Sheltered ⟨.fresh false, 0⟩ shelteredOps
  have hreach : (shelteredSystem Unit false).Reachable s :=
    .runAll (.init ⟨rfl, le_rfl⟩) fun _ _ _ hrun hok => ⟨hrun, hok⟩
  have hrun : s.highWatermark = 2 ∧ (2, 3) ∈ (of s.log.batches).closed := by
    decide +kernel
  exact ⟨s, hreach, hrun.1, hrun.2,
    (lastStableOffset_shields hreach (by omega)).2.2 2 3 hrun.2 le_rfl⟩

/-- A close past the marker writes a snapshot without the transaction, and the
reopened log answers with the high watermark on the marker. -/
theorem lastStableOffset_passes_after_close : ∃ s : Replica Unit,
    (system Unit false).Reachable s ∧ s.highWatermark ≤ 1 ∧ 1 ≤ s.log.logEndOffset ∧
      (0, 1) ∈ (of s.log.batches).closed ∧ (s.log.lastStableOffset 1).1 = 1 := by
  refine ⟨runAll apply (fun _ _ => True) ⟨.fresh false, 0⟩
    [.log (.append .append false (txnBatch 1)),
      .log (.append .append false (endMarker 1 (.commit 0))), .closeAndReopen],
    .runAll (.init ⟨rfl, le_rfl⟩) fun _ _ _ hrun _ => hrun, ?_⟩
  decide +kernel

end Replica

end Krabka.Log

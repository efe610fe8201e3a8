import Krabka.Log.AbortIndex
import Krabka.Log.Reopen

/-!
# Truncation and logs that never held what it took

A log that was truncated agrees with a fresh log to which only the batches that
are left were appended: in the producer entries, the coordinator epochs, the open
transactions, the aborted transactions of every range and the greatest timestamps
of its segments.  The leader-epoch history agrees too in runs that bring the
epochs in order.
-/

namespace Krabka.Log

open Extent LeaderEpochCheckpoint TransactionState SortedMap List TransitionSystem

variable {ρ : Type}

/-! ## The epochs of a run of batches -/

def epochsAfter (c : LeaderEpochCheckpoint) (b : RecordBatch ρ) : LeaderEpochCheckpoint :=
  if b.partitionLeaderEpoch < 0 then c
  else match c.assign b.partitionLeaderEpoch b.baseOffset with
    | .error _ => c
    | .ok c' => c'

/-- The history that a fresh log has after the batches. -/
def epochsOf (batches : List (RecordBatch ρ)) : LeaderEpochCheckpoint :=
  batches.foldl epochsAfter .empty

theorem epochsOf_concat (batches : List (RecordBatch ρ)) (b : RecordBatch ρ) :
    epochsOf (batches ++ [b]) = epochsAfter (epochsOf batches) b :=
  foldl_concat ..

/-- Batches that brought their epochs in order, and the history they left. -/
inductive Settled : List (RecordBatch ρ) → LeaderEpochCheckpoint → Prop
  | nil : Settled [] .empty
  | unknown {batches c b} (h : Settled batches c) (hb : b.partitionLeaderEpoch < 0) :
      Settled (batches ++ [b]) c
  | known {batches c c' b} (h : Settled batches c) (hb : 0 ≤ b.partitionLeaderEpoch)
      (hmost : c.AllAtMost b.partitionLeaderEpoch)
      (hassign : c.assign b.partitionLeaderEpoch b.baseOffset = .ok c') :
      Settled (batches ++ [b]) c'

variable {c : LeaderEpochCheckpoint}

theorem mem_truncateFromEnd {endOffset : Int} {e : EpochEntry} :
    e ∈ (c.truncateFromEnd endOffset).entries ↔ e ∈ c.entries ∧ e.startOffset < endOffset := by
  unfold truncateFromEnd
  simp

theorem truncateFromEnd_eq_self {endOffset : Int}
    (h : ∀ e ∈ c.entries, e.startOffset < endOffset) : c.truncateFromEnd endOffset = c := by
  apply ext_mem
  intro e
  rw [mem_truncateFromEnd]
  exact ⟨fun he => he.1, fun he => ⟨he, h e he⟩⟩

theorem truncateFromEnd_truncateFromEnd {first second : Int}
    (h : second ≤ first) : (c.truncateFromEnd first).truncateFromEnd second =
      c.truncateFromEnd second := by
  apply ext_mem
  intro e
  simp only [mem_truncateFromEnd]
  constructor
  · exact fun he => ⟨he.1.1, he.2⟩
  · exact fun he => ⟨⟨he.1, by omega⟩, he.2⟩

theorem truncateFromEnd_assign {c' : LeaderEpochCheckpoint} {epoch startOffset endOffset : Int}
    (hmost : c.AllAtMost epoch) (hassign : c.assign epoch startOffset = .ok c')
    (hle : endOffset ≤ startOffset) :
    c'.truncateFromEnd endOffset = c.truncateFromEnd endOffset := by
  apply ext_mem
  intro e
  rw [mem_truncateFromEnd, mem_truncateFromEnd]
  exact and_congr_left fun hlt => mem_assign hmost hassign (hlt.trans_le hle)

namespace Settled

variable {batches : List (RecordBatch ρ)} {c : LeaderEpochCheckpoint}

theorem eq_epochsOf (h : Settled batches c) : c = epochsOf batches := by
  induction h with
  | nil => rfl
  | @unknown batches c b h hb ih =>
    rw [epochsOf_concat, ← ih, epochsAfter, if_pos hb]
  | @known batches c c' b h hb hmost hassign ih =>
    rw [epochsOf_concat, ← ih, epochsAfter, if_neg (by omega), hassign]

theorem startOffset_lt (h : Settled batches c) (hord : Ordered 0 batches) :
    ∀ e ∈ c.entries, e.startOffset < endOf 0 batches := by
  induction h with
  | nil => exact nofun
  | @unknown batches c b h hb ih =>
    obtain ⟨hfirst, hlow, hspan, hend⟩ := ordered_concat hord
    intro e he
    have hlt := ih hfirst e he
    omega
  | @known batches c c' b h hb hmost hassign ih =>
    obtain ⟨hfirst, -, hspan, hend⟩ := ordered_concat hord
    intro e he
    by_cases hlow : e.startOffset < b.baseOffset
    · omega
    · have hrow := (mem_assign_of_le hmost hassign (by omega)).mp he
      rw [hrow.1]
      dsimp only
      omega

theorem truncateFromEnd_endOf (h : Settled batches c) (hord : Ordered 0 batches) :
    c.truncateFromEnd (endOf 0 batches) = c :=
  truncateFromEnd_eq_self (h.startOffset_lt hord)

theorem cutAt (h : Settled batches c) (hord : Ordered 0 batches) (cut : Int) :
    Settled (Extent.below cut batches)
      (c.truncateFromEnd (endOf 0 (Extent.below cut batches))) := by
  induction h with
  | nil => exact .nil
  | @unknown batches c b h hb ih =>
    have hfirst := (ordered_append.mp hord).1
    have hsettled : Settled (batches ++ [b]) c := .unknown h hb
    rw [hord.below_concat]
    split
    · rwa [hsettled.truncateFromEnd_endOf hord]
    · exact ih hfirst
  | @known batches c c' b h hb hmost hassign ih =>
    obtain ⟨hfirst, hlow, -⟩ := ordered_concat hord
    have hsettled : Settled (batches ++ [b]) c' := .known h hb hmost hassign
    rw [hord.below_concat]
    split
    · rwa [hsettled.truncateFromEnd_endOf hord]
    · rw [truncateFromEnd_assign hmost hassign ((hfirst.endOf_below_le_endOf cut).trans hlow)]
      exact ih hfirst

end Settled

namespace PartitionLog

variable {l l' f : PartitionLog ρ} {b : RecordBatch ρ} {cut : Int}

/-- The history below the log end is the one that the batches leave in order. -/
def SettledLog (l : PartitionLog ρ) : Prop :=
  Settled l.batches (l.epochs.truncateFromEnd l.logEndOffset)

/-- The batch brings no epoch below a recorded one, and a row from the log end on
is one that it starts at or before, with an epoch of its own. -/
def EpochInOrder (l : PartitionLog ρ) (b : RecordBatch ρ) : Prop :=
  (0 ≤ b.partitionLeaderEpoch → l.epochs.AllAtMost b.partitionLeaderEpoch) ∧
    ∀ e ∈ l.epochs.entries, e.startOffset < l.logEndOffset ∨
      (0 ≤ b.partitionLeaderEpoch ∧ b.baseOffset ≤ e.startOffset)

instance (l : PartitionLog ρ) (b : RecordBatch ρ) : Decidable (l.EpochInOrder b) := by
  unfold EpochInOrder
  infer_instance

theorem Appended.settledLog {path : AppendPath} (h : l.SettledLog) (hlaid : l.Laid)
    (happ : Appended l path b l') (hin : l.EpochInOrder b) : l'.SettledLog := by
  obtain ⟨hlaid', hbatches, hend⟩ := happ.laid hlaid
  obtain ⟨hmost, hrows⟩ := hin
  have hfrontier := happ.frontier
  have hdelta := happ.delta
  have hnonneg := hlaid.le_logEndOffset
  unfold appendAtExpectedOffset at hfrontier
  have hbase : l.logEndOffset ≤ b.baseOffset := by omega
  have hspan : b.baseOffset ≤ b.lastOffset := by
    unfold RecordBatch.lastOffset
    omega
  unfold SettledLog at h ⊢
  rw [hbatches]
  rcases happ.epochs with ⟨hneg, heq⟩ | ⟨hpos, hassign⟩
  · -- no row starts at or past the old end
    have hbelow : ∀ e ∈ l.epochs.entries, e.startOffset < l.logEndOffset :=
      fun e he => (hrows e he).resolve_right fun hknown => by omega
    rw [truncateFromEnd_eq_self hbelow] at h
    rw [heq, truncateFromEnd_eq_self fun e he => by have hlt := hbelow e he; omega]
    exact .unknown h hneg
  · obtain ⟨c', hc'⟩ := (l.epochs.truncateFromEnd l.logEndOffset).assign_ok hpos
      (hnonneg.trans hbase)
    have hmost' : (l.epochs.truncateFromEnd l.logEndOffset).AllAtMost b.partitionLeaderEpoch :=
      fun e he => hmost hpos e (mem_truncateFromEnd.mp he).1
    -- below the batch the history and its part below the log end are the same
    have hsame : ∀ e, e.startOffset < b.baseOffset →
        (e ∈ (l.epochs.truncateFromEnd l.logEndOffset).entries ↔ e ∈ l.epochs.entries) := by
      intro e hlt
      rw [mem_truncateFromEnd]
      refine ⟨fun he => he.1, fun he => ⟨he, ?_⟩⟩
      exact (hrows e he).resolve_right fun hknown => by omega
    have heq : l'.epochs.truncateFromEnd l'.logEndOffset = c' := by
      apply ext_mem
      intro e
      rw [mem_truncateFromEnd]
      by_cases hlt : e.startOffset < b.baseOffset
      · rw [mem_assign (hmost hpos) hassign hlt, mem_assign hmost' hc' hlt, hsame e hlt]
        exact and_iff_left (by omega)
      · have hge : b.baseOffset ≤ e.startOffset := by omega
        rw [mem_assign_of_le (hmost hpos) hassign hge, mem_assign_of_le hmost' hc' hge]
        constructor
        · rintro ⟨⟨rfl, hnone⟩, -⟩
          exact ⟨rfl, fun x hx hxlt => hnone x ((hsame x hxlt).mp hx) hxlt⟩
        · rintro ⟨rfl, hnone⟩
          refine ⟨⟨rfl, fun x hx hxlt => hnone x ((hsame x hxlt).mpr hx) hxlt⟩, ?_⟩
          dsimp only
          omega
    rw [heq]
    exact .known h hpos hmost' hc'

theorem SettledLog.cutAt (h : l.SettledLog) (hlaid : l.Laid) (hlaid' : l'.Laid)
    (hbatches : l'.batches = below cut l.batches)
    (hepochs : l'.epochs = l.epochs.truncateFromEnd l'.logEndOffset) :
    Settled l'.batches l'.epochs := by
  have hend : l'.logEndOffset = endOf 0 (below cut l.batches) := by
    rw [hlaid'.logEndOffset_eq, hbatches]
  have hle : l'.logEndOffset ≤ l.logEndOffset := by
    rw [hend, hlaid.logEndOffset_eq]
    exact hlaid.ordered.endOf_below_le_endOf cut
  have hcut := Settled.cutAt h hlaid.ordered cut
  rw [← hend, truncateFromEnd_truncateFromEnd hle, ← hepochs, ← hbatches] at hcut
  exact hcut

/-! ## Fresh logs -/

variable {s : TransactionState}

theorem holds_applyRecoveredBatchState {start : Int}
    (h : (s.applyRecoveredBatchState b).Holds start) : s.Holds start ∨ start = b.baseOffset := by
  rw [holds_iff] at h ⊢
  rcases h with ⟨pid, hget⟩ | ⟨last, hget⟩
  · rw [applyRecoveredBatchState_pending_get?] at hget
    unfold openAfter at hget
    cases hopen : s.pending.get? pid <;> grind
  · -- a transaction that the marker completes was open before it
    rcases s.applyRecoveredBatchState_unreplicated_get? b start with hsame | hopen
    · exact .inl (.inr ⟨last, hsame ▸ hget⟩)
    · exact .inl (.inl ⟨b.producerId, hopen⟩)

theorem abortedTxn_exists (hneg : b.producerId < 0 →
      s.pending.get? b.producerId = none) (hholds : ∀ start, s.Holds start → start ≤ b.lastOffset) :
    ∃ row, s.abortedTxn b = .ok row := by
  unfold abortedTxn
  split
  · rename_i hcloses
    rw [Bool.and_eq_true, closes_eq, Bool.and_eq_true] at hcloses
    obtain ⟨first, hfirst⟩ := Option.isSome_iff_exists.mp hcloses.1.2
    have hle := hholds first (holds_iff.mpr (.inl ⟨b.producerId, hfirst⟩))
    have hpid : ¬ b.producerId < 0 := by
      intro hlt
      rw [hneg hlt] at hfirst
      cases hfirst
    rw [hfirst, abortedTransactionInterval]
    dsimp only
    rw [if_neg (by omega)]
    -- the other transactions that hold the first unstable offset back began earlier
    have hstarts : ∀ start ∈ (s.pending.erase b.producerId).values ++
        s.unreplicated.keys.head?.toList, start ≤ b.lastOffset + 1 := by
      intro start hmem
      have hstart : start ≤ b.lastOffset := by
        apply hholds
        rcases mem_append.mp hmem with hmem | hmem
        · obtain ⟨⟨pid, x⟩, hentry, rfl⟩ := mem_map.mp hmem
          have hget := get?_of_mem _ hentry
          rw [get?_erase] at hget
          split at hget
          · cases hget
          · exact holds_iff.mpr (.inl ⟨pid, hget⟩)
        · exact .inr (mem_of_head? (Option.mem_toList.mp hmem))
      omega
    have hsome := firstUnstableOffset_eq_some.mpr ⟨hstarts, rfl⟩
    rw [hsome]
    exact ⟨_, rfl⟩
  · exact ⟨none, rfl⟩

theorem appendOwned_exists (hs : s.Derived)
    (hholds : ∀ start, s.Holds start → start ≤ b.lastOffset) :
    ∃ s' row, s.appendOwned b = .ok (s', row) := by
  obtain ⟨row, hrow⟩ := abortedTxn_exists (fun hneg => hs.pending_of_neg hneg) hholds
  rw [← s.appendOwned_row] at hrow
  cases happ : s.appendOwned b with
  | error e =>
    rw [happ] at hrow
    cases hrow
  | ok r => exact ⟨r.1, r.2, rfl⟩

/-- Nothing holds the first unstable offset back from past the log end, and no
external frontier does. -/
structure Ready (l : PartitionLog ρ) : Prop where
  holds : ∀ start, l.state.Holds start → start ≤ l.logEndOffset
  frontier : l.reconciledFrontier = 0

theorem Ready.appendAt_ok (h : l.Ready) (hsound : l.Sound) (hbase : l.logEndOffset ≤ b.baseOffset)
    (hspan : b.baseOffset ≤ b.lastOffset) (hbounded : b.lastOffset < i64Max) :
    ∃ l', l.appendBatch .appendAt false b = .ok l' := by
  have hnonneg := hsound.laid.le_logEndOffset
  have hexpected : l.appendAtExpectedOffset = l.logEndOffset := by
    unfold appendAtExpectedOffset
    rw [h.frontier]
    omega
  have hcheck : l.checkAppend b = .ok () := by
    unfold RecordBatch.lastOffset at hspan hbounded
    unfold checkAppend checkAppendFrontier localAppendCoordinates
    rw [hexpected, if_neg (by omega), if_neg (by omega)]
  have hholds : ∀ start, l.state.Holds start → start ≤ b.lastOffset := by
    intro start hstart
    have hle := h.holds start hstart
    omega
  obtain ⟨state, row, happend⟩ := appendOwned_exists hsound.derived hholds
  obtain ⟨lso, hlso⟩ : ∃ lso, state.refreshLso (b.lastOffset + 1) = .ok lso := by
    apply refreshLso_ok
    intro start hstart
    rw [hsound.derived.appendOwned_eq happend] at hstart
    rcases holds_applyRecoveredBatchState hstart with hold | rfl
    · have hle := hholds start hold
      omega
    · omega
  have hcommit : l.appendPreservingOffset b = .ok { l with
      active := (l.active.append b).withRow row, state := state, lso := lso } := by
    unfold appendPreservingOffset
    rw [happend]
    dsimp only [commitAppend]
    have hlast : ((l.active.append b).withRow row).lastOffset = b.lastOffset :=
      Segment.withRow_lastOffset ..
    rw [hlast, hlso]
  obtain ⟨l', hl'⟩ : ∃ l', assignAppendedEpoch { l with
      active := (l.active.append b).withRow row, state := state, lso := lso } b = .ok l' := by
    unfold assignAppendedEpoch
    split
    · exact ⟨_, rfl⟩
    · have hknown : 0 ≤ b.partitionLeaderEpoch := by omega
      obtain ⟨c, hc⟩ := l.epochs.assign_ok hknown (hnonneg.trans hbase)
      rw [hc]
      exact ⟨_, rfl⟩
  refine ⟨l', ?_⟩
  unfold appendBatch
  dsimp only [AppendPath.assigned, AppendPath.readsHeaderOnly]
  rw [hcheck]
  simp only [Bool.false_eq_true, if_false]
  rw [hcommit]
  exact hl'

/-- Appends and rolls of a log that holds nothing yet. -/
def freshSystem (ρ : Type) (remote : Bool) : TransitionSystem (PartitionLog ρ) (LogOp ρ) :=
  (system ρ remote).restrict fun _ op _ => (∀ offset, op ≠ .truncateTo offset) ∧ op.DecodesControls

structure FreshInv (f : PartitionLog ρ) : Prop where
  sound : f.Sound
  indexed : f.IndexedLog
  epochs : f.epochs = epochsOf f.batches
  ready : f.Ready

theorem Ready.rolledIf (h : l.Ready) (rolls : Bool) : (l.rolledIf rolls).Ready := by
  obtain ⟨-, hend, hstate, -, -, hfrontier⟩ := l.rolledIf_frame rolls
  refine ⟨?_, hfrontier.trans h.frontier⟩
  rw [hend, hstate]
  exact h.holds

theorem Appended.freshInv {path : AppendPath} (h : f.FreshInv) (happ : Appended f path b l')
    (hpath : PathOk path b) (hseq : Sequenced b) : l'.FreshInv := by
  obtain ⟨hlaid, hbatches, hend⟩ := happ.laid h.sound.laid
  obtain ⟨row, hstate, heq⟩ := happ.stored
  refine ⟨happ.sound h.sound hpath hseq, happ.indexedLog h.sound h.indexed hpath hseq, ?_, ?_, ?_⟩
  · rw [hbatches, epochsOf_concat, ← h.epochs, epochsAfter]
    rcases happ.epochs with ⟨hneg, hsame⟩ | ⟨hpos, hassign⟩
    · rw [if_pos hneg]
      exact hsame
    · rw [if_neg (by omega), hassign]
  · intro start hstart
    have hfrontier := happ.frontier
    have hdelta := happ.delta
    unfold appendAtExpectedOffset at hfrontier
    have hlast : b.lastOffset = b.baseOffset + b.lastOffsetDelta := rfl
    rw [appendState_eq h.sound.derived hpath hstate] at hstart
    rcases holds_applyRecoveredBatchState hstart with hold | rfl
    · have hle := h.ready.holds start hold
      omega
    · omega
  · rw [heq]
    exact h.ready.frontier

theorem FreshInv.rolledIf (h : f.FreshInv) (rolls : Bool) : (f.rolledIf rolls).FreshInv := by
  obtain ⟨hbatches, -, -, -, hepochs, -⟩ := f.rolledIf_frame rolls
  refine ⟨h.sound.rolledIf rolls, h.indexed.rolledIf rolls, ?_, h.ready.rolledIf rolls⟩
  rw [hbatches, hepochs]
  exact h.epochs

theorem freshInv_of_reachable {remote : Bool} (h : (freshSystem ρ remote).Reachable f) :
    f.FreshInv := by
  refine h.invariant (P := FreshInv) ?_ ?_
  · rintro l rfl
    refine ⟨sound_fresh remote, indexedLog_fresh remote, rfl, ?_, rfl⟩
    rintro start (hmem | hmem) <;> cases hmem
  · rintro l op l' hinv ⟨⟨hrun, hop⟩, honly, hcontrols⟩
    cases op with
    | append path rolls b =>
      have hkind := assigned_kind path l b
      exact (appendBatch_ok hrun).freshInv (hinv.rolledIf rolls) (hkind.1.mpr hcontrols)
        (hkind.2.mpr hop)
    | roll =>
      cases hrun
      exact hinv.rolledIf true
    | truncateTo offset => exact absurd rfl (honly offset)

theorem exists_appended {remote : Bool} (hf : (freshSystem ρ remote).Reachable f)
    (batches : List (RecordBatch ρ)) (hord : Ordered f.logEndOffset batches)
    (hbounded : ∀ b ∈ batches, b.lastOffset < i64Max) (hseq : ∀ b ∈ batches, Sequenced b) :
    ∃ f', (freshSystem ρ remote).Reachable f' ∧ f'.segments = f.segments ∧
      f'.active.batches = f.active.batches ++ batches := by
  induction batches generalizing f with
  | nil => exact ⟨f, hf, rfl, (append_nil _).symm⟩
  | cons b batches ih =>
    obtain ⟨hlow, hspan, hrest⟩ := ordered_cons.mp hord
    have hinv := freshInv_of_reachable hf
    have hb := mem_cons_self (a := b) (l := batches)
    obtain ⟨f₁, hf₁⟩ := hinv.ready.appendAt_ok hinv.sound hlow hspan (hbounded b hb)
    have happ : Appended f .appendAt b f₁ := appendBatch_ok hf₁
    obtain ⟨-, -, hend⟩ := happ.laid hinv.sound.laid
    obtain ⟨row, -, heq⟩ := happ.stored
    have hstep : (freshSystem ρ remote).step f (.append .appendAt false b) f₁ :=
      ⟨⟨hf₁, hseq b hb⟩, nofun, fun hpath => absurd hpath (by decide)⟩
    have hrest' : Ordered f₁.logEndOffset batches := by
      rw [hend]
      exact hrest
    obtain ⟨f', hf', hsegments, hactive⟩ := ih (.step hf hstep) hrest'
      (fun x hx => hbounded x (mem_cons_of_mem b hx))
      (fun x hx => hseq x (mem_cons_of_mem b hx))
    refine ⟨f', hf', ?_, ?_⟩
    · rw [hsegments, heq]
    · have hstored : f₁.active.batches = f.active.batches ++ [b] := by
        rw [heq]
        rw [Segment.withRow_eq]
        rfl
      rw [hactive, hstored, append_assoc]
      rfl

theorem exists_filled {remote : Bool} {segments : List (Segment ρ)} {s : Segment ρ}
    (hf : (freshSystem ρ remote).Reachable f) (hempty : f.active.batches = [])
    (hsegments : f.segments.map Segment.batches = segments.map Segment.batches) (hs : s.Sound)
    (hbase : s.baseOffset = endOf 0 (segments.flatMap Segment.batches))
    (hseq : ∀ b ∈ s.batches, Sequenced b) :
    ∃ f', (freshSystem ρ remote).Reachable f' ∧
      f'.segments.map Segment.batches = segments.map Segment.batches ∧
      f'.active.batches = s.batches := by
  have hend : f.logEndOffset = s.baseOffset := by
    rw [(freshInv_of_reachable hf).sound.laid.logEndOffset_eq, batches_eq, hempty, append_nil,
      flatMap_def, hsegments, hbase, flatMap_def]
  obtain ⟨f', hf', hsegments', hactive⟩ := exists_appended hf s.batches
    (by rw [hend]; exact hs.ordered) hs.bounded hseq
  exact ⟨f', hf', hsegments' ▸ hsegments, by rw [hactive, hempty, nil_append]⟩

theorem exists_sealed (remote : Bool) {segments : List (Segment ρ)} (hchain : Chained 0 segments)
    (hne : ∀ s ∈ segments, s.batches ≠ [])
    (hseq : ∀ b ∈ segments.flatMap Segment.batches, Sequenced b) :
    ∃ f, (freshSystem ρ remote).Reachable f ∧ f.active.batches = [] ∧
      f.segments.map Segment.batches = segments.map Segment.batches := by
  induction segments using reverseRecOn with
  | nil => exact ⟨fresh remote, .init rfl, rfl, rfl⟩
  | append_singleton segments s ih =>
    obtain ⟨hinit, hbase, hs, -⟩ := chained_append.mp hchain
    obtain ⟨f, hf, hempty, hsegments⟩ := ih hinit
      (fun x hx => hne x (mem_append_left _ hx)) (fun b hb => hseq b (by
        rw [flatMap_append]
        exact mem_append_left _ hb))
    obtain ⟨f₁, hf₁, hsegments₁, hactive₁⟩ := exists_filled hf hempty hsegments hs hbase
      (fun b hb => hseq b (by
        rw [flatMap_append]
        exact mem_append_right _ (by simpa using hb)))
    have hfull : f₁.active.batches ≠ [] := by
      rw [hactive₁]
      exact hne s (mem_append_right _ mem_cons_self)
    have hroll : f₁.roll = f₁.rollActiveSegment := if_neg (by simpa using hfull)
    have hstep : (freshSystem ρ remote).step f₁ .roll f₁.roll :=
      ⟨⟨rfl, trivial⟩, nofun, trivial⟩
    refine ⟨f₁.roll, .step hf₁ hstep, ?_, ?_⟩
    · rw [hroll]
      rfl
    · rw [hroll]
      show (f₁.segments ++ [f₁.active]).map Segment.batches = _
      rw [map_append, map_append, hsegments₁, map_singleton, map_singleton,
        hactive₁]

theorem Sound.exists_fresh (h : l.Sound) (remote : Bool) :
    ∃ f, (freshSystem ρ remote).Reachable f ∧
      f.allSegments.map Segment.batches = l.allSegments.map Segment.batches := by
  have hseq : ∀ b ∈ l.segments.flatMap Segment.batches ++ l.active.batches, Sequenced b := by
    rw [← batches_eq]
    exact h.sequenced
  obtain ⟨f, hf, hempty, hsegments⟩ := exists_sealed remote h.laid.chained_segments
    h.laid.sealed_ne (fun b hb => hseq b (mem_append_left _ hb))
  obtain ⟨f₁, hf₁, hsegments₁, hactive₁⟩ := exists_filled hf hempty hsegments h.laid.active_sound
    h.laid.active_baseOffset (fun b hb => hseq b (mem_append_right _ hb))
  refine ⟨f₁, hf₁, ?_⟩
  unfold allSegments
  rw [map_append, map_append, hsegments₁, map_singleton, map_singleton, hactive₁]

/-- The first unstable offset as the open transactions alone place it. -/
def openLso (l : PartitionLog ρ) : Except LogError Int :=
  refreshLso { l.state with unreplicated := .empty } l.logEndOffset

/-- What a truncated log shares with one that never held what was cut. -/
structure SameState (l f : PartitionLog ρ) : Prop where
  producerState : l.state.producerState = f.state.producerState
  coordinatorEpoch : ∀ pid, l.state.coordinatorEpoch pid = f.state.coordinatorEpoch pid
  pending : l.state.pending = f.state.pending
  logEndOffset : l.logEndOffset = f.logEndOffset
  openLso : l.openLso = f.openLso
  aborted : ∀ start stop, (l.abortedInRange start stop).map AbortedTxn.span =
    (f.abortedInRange start stop).map AbortedTxn.span

theorem map_span_overlapping (start stop : Int) (rows : List AbortedTxn) :
    (overlapping start stop rows).map AbortedTxn.span =
      (rows.map AbortedTxn.span).filter fun span =>
        abortedTransactionOverlaps span.1 span.2.1 start stop := by
  rw [filter_map]
  rfl

theorem Sound.sameState (h : l.Sound) (hindex : l.IndexedLog) (hf : f.Sound)
    (hfindex : f.IndexedLog) (hbatches : f.batches = l.batches) : SameState l f := by
  have hproducers : l.state.producerState = f.state.producerState := by
    rw [h.producers, hf.producers, hbatches]
  have hpending := h.derived.pending_ext hf.derived hproducers
  have hend : l.logEndOffset = f.logEndOffset := by
    rw [h.laid.logEndOffset_eq, hf.laid.logEndOffset_eq, hbatches]
  refine ⟨hproducers, h.derived.coordinatorEpoch_ext hf.derived hproducers, hpending, hend, ?_, ?_⟩
  · unfold PartitionLog.openLso refreshLso pendingBounds
    rw [hpending, hend]
  · intro start stop
    rw [hindex.abortedInRange_eq h.laid, hfindex.abortedInRange_eq hf.laid, map_span_overlapping,
      map_span_overlapping, hindex.indexed.spans, hfindex.indexed.spans, hbatches]

theorem Sound.maxTimestamps_eq (h : l.Sound) (hf : f.Sound)
    (hsegments : f.allSegments.map Segment.batches = l.allSegments.map Segment.batches) :
    l.allSegments.map Segment.maxTimestamp = f.allSegments.map Segment.maxTimestamp := by
  have hread : ∀ x : PartitionLog ρ, x.Sound → x.allSegments.map Segment.maxTimestamp =
      (x.allSegments.map Segment.batches).map (maxTimestampFrom i64Min) := by
    intro x hx
    rw [map_map]
    exact map_congr_left fun s hs => (hx.laid.chained.sound hs).maxTimestamp_eq
  rw [hread l h, hread f hf, hsegments]

/-! ## Runs -/

def assignEpochStartOffset (l : PartitionLog ρ) (epoch startOffset : Int) :
    Except LogError (PartitionLog ρ) :=
  match l.epochs.assign epoch startOffset with
  | .error e => .error e
  | .ok epochs => .ok { l with epochs := epochs }

theorem assignEpochStartOffset_ok {epoch startOffset : Int}
    (h : l.assignEpochStartOffset epoch startOffset = .ok l') :
    l' = { l with epochs := l'.epochs } ∧ l.epochs.assign epoch startOffset = .ok l'.epochs := by
  unfold assignEpochStartOffset at h
  split at h
  · cases h
  · rename_i epochs hassign
    cases h
    exact ⟨rfl, hassign⟩

end PartitionLog

/-- The operations of a log whose start stays at 0, epoch assignments included. -/
inductive EditOp (ρ : Type) where
  | log (op : LogOp ρ)
  | assignEpoch (epoch startOffset : Int)

namespace EditOp

def run : EditOp ρ → PartitionLog ρ → Except LogError (PartitionLog ρ)
  | log op, l => op.run l
  | assignEpoch epoch startOffset, l => l.assignEpochStartOffset epoch startOffset

def Replayable (l : PartitionLog ρ) : EditOp ρ → Prop
  | log op => op.Admissible ∧ op.DecodesControls ∧ op.Fits l
  | assignEpoch _ _ => True

/-- The epochs come in order: an append as `EpochInOrder` says, an assignment at the
log end. -/
def InOrder (l : PartitionLog ρ) : EditOp ρ → Prop
  | log (.append path _ b) => l.EpochInOrder (path.assigned l b)
  | log _ => True
  | assignEpoch epoch startOffset => l.epochs.AllAtMost epoch ∧ startOffset = l.logEndOffset

instance (l : PartitionLog ρ) : ∀ op : EditOp ρ, Decidable (op.Replayable l)
  | log op => inferInstanceAs (Decidable (_ ∧ _ ∧ op.Fits l))
  | assignEpoch _ _ => .isTrue trivial

instance (l : PartitionLog ρ) : ∀ op : EditOp ρ, Decidable (op.InOrder l)
  | log (.append path _ b) => inferInstanceAs (Decidable (l.EpochInOrder (path.assigned l b)))
  | log .roll | log (.truncateTo _) => .isTrue trivial
  | assignEpoch _ _ => inferInstanceAs (Decidable (_ ∧ _))

end EditOp

namespace PartitionLog

variable {l l' f : PartitionLog ρ} {cut : Int}

/-- Runs from an empty directory whose batches the recovery can replay. -/
def edits (ρ : Type) (remote : Bool) : TransitionSystem (PartitionLog ρ) (EditOp ρ) where
  init l := l = fresh remote
  step l op l' := op.run l = .ok l' ∧ op.Replayable l

def orderlyEdits (ρ : Type) (remote : Bool) : TransitionSystem (PartitionLog ρ) (EditOp ρ) :=
  (edits ρ remote).restrict fun l op _ => op.InOrder l

structure EditInv (l : PartitionLog ρ) : Prop where
  sound : l.Sound
  indexed : l.IndexedLog
  recoverable : l.Recoverable

theorem EditInv.truncateTo_ok (h : l.EditInv) (hzero : 0 ≤ cut) :
    ∃ l', l.truncateTo cut = .ok l' ∧ l'.EditInv ∧ l'.batches = below cut l.batches ∧
      l'.epochs = l.epochs.truncateFromEnd l'.logEndOffset := by
  by_cases hcut : l.CutsNothing cut
  · have hle : l.logEndOffset ≤ cut := by
      unfold CutsNothing at hcut
      omega
    refine ⟨_, truncateTo_of_cutsNothing hcut, ⟨h.sound.withEpochs _, h.indexed.congr rfl rfl,
      h.recoverable.congr rfl rfl⟩, ?_, rfl⟩
    symm
    refine h.sound.laid.ordered.below_eq_self ?_
    rw [← h.sound.laid.logEndOffset_eq]
    exact hle
  · obtain ⟨l', hl', htrunc⟩ := h.sound.truncateTo_ok h.recoverable hzero hcut
    exact ⟨l', hl', ⟨htrunc.sound, htrunc.indexedLog h.indexed h.sound.laid hzero,
      htrunc.recoverable h.sound h.recoverable⟩, htrunc.batches, htrunc.epochs⟩

theorem EditInv.step {op : EditOp ρ} (h : l.EditInv) (hrun : op.run l = .ok l')
    (hop : op.Replayable l) : l'.EditInv := by
  cases op with
  | assignEpoch epoch startOffset =>
    obtain ⟨heq, -⟩ := assignEpochStartOffset_ok hrun
    rw [heq]
    exact ⟨h.sound.withEpochs _, h.indexed.congr rfl rfl, h.recoverable.congr rfl rfl⟩
  | log op =>
    obtain ⟨hadmissible, hcontrols, hfits⟩ := hop
    cases op with
    | append path rolls b =>
      have hkind := assigned_kind path l b
      have happ := appendBatch_ok hrun
      have hpath := hkind.1.mpr hcontrols
      have hseq := hkind.2.mpr hadmissible
      exact ⟨happ.sound (h.sound.rolledIf rolls) hpath hseq,
        happ.indexedLog (h.sound.rolledIf rolls) (h.indexed.rolledIf rolls) hpath hseq,
        happ.recoverable (h.recoverable.rolledIf rolls) hfits⟩
    | roll =>
      cases hrun
      exact ⟨h.sound.roll, h.indexed.rolledIf true, h.recoverable.roll⟩
    | truncateTo offset =>
      obtain ⟨l₁, hl₁, hinv, -⟩ := h.truncateTo_ok hadmissible
      have hrun' : l.truncateTo offset = .ok l' := hrun
      obtain rfl := Except.ok.inj (hrun'.symm.trans hl₁)
      exact hinv

theorem editInv_of_reachable {remote : Bool} (h : (edits ρ remote).Reachable l) : l.EditInv := by
  refine h.invariant (P := EditInv) ?_ ?_
  · rintro l rfl
    exact ⟨sound_fresh remote, indexedLog_fresh remote, recoverable_fresh remote⟩
  · rintro l op l' hinv ⟨hrun, hop⟩
    exact hinv.step hrun hop

theorem SettledLog.step {op : EditOp ρ} (h : l.SettledLog) (hinv : l.EditInv)
    (hrun : op.run l = .ok l') (hop : op.Replayable l) (hin : op.InOrder l) : l'.SettledLog := by
  cases op with
  | assignEpoch epoch startOffset =>
    obtain ⟨heq, hassign⟩ := assignEpochStartOffset_ok hrun
    obtain ⟨hmost, rfl⟩ := hin
    have hbatches : l'.batches = l.batches := by
      rw [heq]
      rfl
    have hend : l'.logEndOffset = l.logEndOffset := by
      rw [heq]
      rfl
    unfold SettledLog at h ⊢
    rwa [hbatches, hend, truncateFromEnd_assign hmost hassign le_rfl]
  | log op =>
    cases op with
    | append path rolls b =>
      obtain ⟨hbatches, hend, -, -, hepochs, -⟩ := l.rolledIf_frame rolls
      refine (appendBatch_ok hrun).settledLog ?_ (hinv.sound.rolledIf rolls).laid ?_
      · unfold SettledLog
        rw [hbatches, hend, hepochs]
        exact h
      · unfold EpochInOrder
        rw [hend, hepochs]
        exact hin
    | roll =>
      cases hrun
      obtain ⟨hbatches, hend, -, -, hepochs, -⟩ := l.roll_frame
      unfold SettledLog
      rw [hbatches, hend, hepochs]
      exact h
    | truncateTo offset =>
      obtain ⟨l₁, hl₁, ⟨hsound, -, -⟩, hbatches, hepochs⟩ := hinv.truncateTo_ok hop.1
      have hrun' : l.truncateTo offset = .ok l' := hrun
      obtain rfl := Except.ok.inj (hrun'.symm.trans hl₁)
      have hsettled := h.cutAt hinv.sound.laid hsound.laid hbatches hepochs
      unfold SettledLog
      rwa [hsound.laid.logEndOffset_eq, hsettled.truncateFromEnd_endOf hsound.laid.ordered]

theorem settledLog_of_reachable {remote : Bool} (h : (orderlyEdits ρ remote).Reachable l) :
    l.SettledLog := by
  induction h with
  | init hl =>
    cases hl
    exact .nil
  | step hreach hstep ih =>
    obtain ⟨⟨hrun, hop⟩, hin⟩ := hstep
    exact ih.step (editInv_of_reachable hreach.of_restrict) hrun hop hin

/-- After a truncation the log is as one that never held what was cut. -/
theorem truncateTo_forgets {remote : Bool} (h : (edits ρ remote).Reachable l) (hcut : 0 ≤ cut) :
    ∃ l', l.truncateTo cut = .ok l' ∧
      l'.batches = l.batches.filter (fun b => b.lastOffset < cut) ∧
      (∃ f, (freshSystem ρ remote).Reachable f ∧
        f.allSegments.map Segment.batches = l'.allSegments.map Segment.batches) ∧
      ∀ f, (freshSystem ρ remote).Reachable f → f.batches = l'.batches →
        SameState l' f ∧
        (f.allSegments.map Segment.batches = l'.allSegments.map Segment.batches →
          l'.allSegments.map Segment.maxTimestamp = f.allSegments.map Segment.maxTimestamp) ∧
        ((orderlyEdits ρ remote).Reachable l → l'.epochs = f.epochs) := by
  have hinv := editInv_of_reachable h
  obtain ⟨l', hl', ⟨hsound, hindex, -⟩, hbatches, hepochs⟩ := hinv.truncateTo_ok hcut
  refine ⟨l', hl', hbatches, hsound.exists_fresh remote, ?_⟩
  intro f hf hsame
  have hfresh := freshInv_of_reachable hf
  refine ⟨hsound.sameState hindex hfresh.sound hfresh.indexed hsame,
    hsound.maxTimestamps_eq hfresh.sound, ?_⟩
  intro horderly
  have hsettled := (settledLog_of_reachable horderly).cutAt hinv.sound.laid hsound.laid hbatches
    hepochs
  rw [hsettled.eq_epochsOf, hfresh.epochs, hsame]

/-- The log of the sample batches, in three segments. -/
def threeSegments : PartitionLog Unit :=
  runAll (fun l op => (op.run l).toOption) (fun l op => op.Replayable l ∧ op.InOrder l)
    (fresh false) (sampleAppends.map EditOp.log)

theorem threeSegments_reachable : (orderlyEdits Unit false).Reachable threeSegments :=
  .runAll (.init rfl) fun _ _ _ hrun hok => ⟨⟨Except.eq_ok_of_toOption hrun, hok.1⟩, hok.2⟩

/-- A cut inside the second of three segments keeps an aborted transaction, two open
ones and the epochs below it. -/
theorem truncateTo_forgets_threeSegments :
    (threeSegments.allSegments.length = 3 ∧
      (threeSegments.truncateTo 4).toOption.map (fun l => (l.state.pending.entries,
        (l.abortedInRange 0 4).map AbortedTxn.span, l.epochs.entries)) =
        some ([(2, 1), (3, 3)], [(0, 2, 1)], [⟨0, 0⟩, ⟨1, 3⟩])) ∧
    ∃ l', threeSegments.truncateTo 4 = .ok l' ∧
      ∀ f, (freshSystem Unit false).Reachable f → f.batches = l'.batches →
        SameState l' f ∧ l'.epochs = f.epochs := by
  have hreach := threeSegments_reachable
  obtain ⟨l', hl', -, -, hfresh⟩ :=
    truncateTo_forgets hreach.of_restrict (show (0 : Int) ≤ 4 by decide)
  refine ⟨by decide +kernel, l', hl', fun f hf hsame => ?_⟩
  obtain ⟨hstate, -, hepochs⟩ := hfresh f hf hsame
  exact ⟨hstate, hepochs hreach⟩

/-- A batch of an older epoch takes the row of the newer one along, and the cut of
that batch does not bring it back. -/
theorem truncateTo_loses_epoch : ∃ l : PartitionLog Unit, (edits Unit false).Reachable l ∧
    ∃ l', l.truncateTo 1 = .ok l' ∧ ∃ f, (freshSystem Unit false).Reachable f ∧
      f.batches = l'.batches ∧ l'.epochs ≠ f.epochs := by
  let newer : LogOp Unit := .append .append false { plainBatch 10 with partitionLeaderEpoch := 5 }
  let older : LogOp Unit := .append .append false { plainBatch 10 with partitionLeaderEpoch := 3 }
  let l := runAll (fun l op => (EditOp.run op l).toOption) (fun l op => op.Replayable l)
    (fresh false) [.log newer, .log older]
  have hreach : (edits Unit false).Reachable l :=
    .runAll (.init rfl) fun _ _ _ hrun hok => ⟨Except.eq_ok_of_toOption hrun, hok⟩
  obtain ⟨l', hl', hinv, hbatches, hepochs⟩ :=
    (editInv_of_reachable hreach).truncateTo_ok (zero_le_one : (0 : Int) ≤ 1)
  refine ⟨l, hreach, l', hl', _, .step (a := newer) (.init rfl)
    ⟨⟨rfl, by decide⟩, nofun, by decide⟩, hbatches.symm, ?_⟩
  have hend : l'.logEndOffset = 1 := by
    rw [hinv.sound.laid.logEndOffset_eq, hbatches]
    rfl
  rw [hepochs, hend]
  decide +kernel

end PartitionLog

end Krabka.Log

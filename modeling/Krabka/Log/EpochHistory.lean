import Krabka.Log.Reopen
import Krabka.Log.StartOffset

/-!
# The leader-epoch history and the records

The rows of the leader-epoch checkpoint grow strictly in both columns, by their
type.  In runs whose appends carry no epoch below a recorded one, the history
gives every stored offset from the log start on the leader epoch of its batch,
if that batch has one, and the end that it gives for the latest epoch of another
such log lies past every record that the two share.
-/

namespace Krabka.Log

open List Extent LeaderEpochCheckpoint PartitionLog Inv Option TransitionSystem

variable {ρ : Type}

namespace PartitionLog

variable {l l' : PartitionLog ρ} {b : RecordBatch ρ} {a : Int}

/-- The history gives every offset of a batch with a known leader epoch that
epoch, from the log start on. -/
def Covered (l : PartitionLog ρ) : Prop :=
  ∀ b ∈ l.batches, 0 ≤ b.partitionLeaderEpoch → ∀ offset, b.baseOffset ≤ offset →
    offset ≤ b.lastOffset → l.startOffset ≤ offset →
      l.epochs.epochForOffset offset = some b.partitionLeaderEpoch

theorem Covered.anti (h : l.Covered) (hbatches : ∀ b ∈ l'.batches, b ∈ l.batches)
    (hsame : ∀ b ∈ l'.batches, ∀ offset, b.baseOffset ≤ offset → offset ≤ b.lastOffset →
      l'.startOffset ≤ offset → l.startOffset ≤ offset ∧
        l'.epochs.epochForOffset offset = l.epochs.epochForOffset offset) : l'.Covered := by
  intro b hb hknown offset hlow hhigh hstart
  obtain ⟨hstart', hepoch⟩ := hsame b hb offset hlow hhigh hstart
  rw [hepoch]
  exact h b (hbatches b hb) hknown offset hlow hhigh hstart'

theorem Covered.congr (h : l.Covered) (hbatches : l'.batches = l.batches)
    (hstart : l'.startOffset = l.startOffset) (hepochs : l'.epochs = l.epochs) : l'.Covered := by
  refine h.anti (fun b hb => hbatches ▸ hb) ?_
  intro b hb offset hlow hhigh hle
  rw [hepochs]
  exact ⟨hstart ▸ hle, rfl⟩

theorem covered_of_no_batches (h : l.batches = []) : l.Covered := by
  intro b hb
  rw [h] at hb
  cases hb

/-! ## Appends and assignments -/

theorem Rooted.roll (h : l.Rooted a) : l.roll.Rooted a := by
  rcases l.roll_cases with heq | ⟨hne, heq⟩
  · rw [heq]
    exact h
  · rw [heq]
    exact h.rollActiveSegment hne

theorem roll_startOffset (l : PartitionLog ρ) : l.roll.startOffset = l.startOffset := by
  rcases l.roll_cases with heq | ⟨-, heq⟩
  · rw [heq]
  · rw [heq]
    rfl

theorem Rooted.rolledIf (h : l.Rooted a) (rolls : Bool) :
    (l.rolledIf rolls).Rooted a ∧ (l.rolledIf rolls).startOffset = l.startOffset := by
  unfold PartitionLog.rolledIf
  split
  · exact ⟨h.roll, l.roll_startOffset⟩
  · exact ⟨h, rfl⟩

theorem Appended.covered {path : AppendPath} (happ : Appended l path b l') (hrooted : l.Rooted a)
    (horder : 0 ≤ b.partitionLeaderEpoch → l.epochs.AllAtMost b.partitionLeaderEpoch)
    (h : l.Covered) : l'.Covered := by
  obtain ⟨-, hbatches, -⟩ := happ.rooted hrooted
  obtain ⟨row, -, heq⟩ := happ.stored
  have hstart : l'.startOffset = l.startOffset := by rw [heq]
  have hbase : l.logEndOffset ≤ b.baseOffset := by
    have hfrontier := happ.frontier
    unfold appendAtExpectedOffset at hfrontier
    omega
  intro x hx hknown offset hlow hhigh hle
  rw [hstart] at hle
  rw [hbatches] at hx
  rcases mem_append.mp hx with hx | hx
  · -- the rows below the batches that were there stay
    have hlast := hrooted.lastOffset_lt hx
    have hold := h x hx hknown offset hlow hhigh hle
    rcases happ.epochs with ⟨-, hepochs⟩ | ⟨hpos, hassign⟩
    · rw [hepochs]
      exact hold
    · rw [← hold]
      apply epochForOffset_congr
      intro e he
      exact mem_assign (horder hpos) hassign (by omega)
  · obtain rfl := mem_singleton.mp hx
    rcases happ.epochs with ⟨hneg, -⟩ | ⟨-, hassign⟩
    · omega
    · exact epochForOffset_assign hassign hlow

/-! ## Cuts -/

theorem CutSegments.batches_eq {segments : List (Segment ρ)} {active : Segment ρ} {cut : Int}
    (hcut : CutSegments l cut segments active) (h : l.Rooted a) (ha : a ≤ cut)
    (hsegments : l'.segments = segments) (hactive : l'.active = active) :
    l'.Rooted a ∧ l'.batches = below cut l.batches := by
  obtain ⟨hchained, hne, hbatches⟩ := hcut.rooted h ha
  refine ⟨⟨?_, ?_⟩, ?_⟩
  · unfold allSegments
    rw [hsegments, hactive]
    exact hchained
  · rw [hsegments]
    exact hne
  · unfold batches allSegments
    rw [hsegments, hactive]
    exact hbatches

theorem Rooted.truncateTo {cut : Int} (hrooted : l.Rooted a) (hrun : l.truncateTo cut = .ok l')
    (h : l.Covered) :
    (l'.Rooted a ∧ l'.Covered ∧ a ≤ cut ∧ l'.startOffset ≤ l.startOffset) ∨
      (cut < a ∧ 0 ≤ cut ∧ l'.Rooted cut ∧ l'.Covered ∧ l'.startOffset = cut) := by
  have hfirst := hrooted.firstLocalOffset_eq
  have hle := hrooted.le_logEndOffset
  by_cases hcut : l.CutsNothing cut
  · left
    rw [truncateTo_of_cutsNothing hcut] at hrun
    cases hrun
    refine ⟨hrooted.congr rfl rfl, ?_, ?_, le_rfl⟩
    · refine h.anti (fun b hb => hb) ?_
      intro b hb offset hlow hhigh hstart
      have hlast := hrooted.lastOffset_lt hb
      exact ⟨hstart, epochForOffset_truncateFromEnd (by omega)⟩
    · unfold CutsNothing at hcut
      omega
  · by_cases hbelow : cut < l.firstLocalOffset
    · right
      unfold PartitionLog.truncateTo at hrun
      unfold CutsNothing at hcut
      rw [if_neg hcut, if_pos hbelow] at hrun
      unfold resetTo at hrun
      split at hrun
      · cases hrun
      · cases hrun
        refine ⟨by omega, by omega, ⟨⟨rfl, Segment.sound_create cut, trivial⟩, nofun⟩, ?_, rfl⟩
        exact covered_of_no_batches rfl
    · left
      obtain ⟨hsegments, hstart, hepochs⟩ := truncateTo_cutSegments hrun hcut (by omega)
      have hcuts := hrooted.cutSegments_inv (cuts_of_not_cutsNothing hcut) hsegments
      obtain ⟨hrooted', hbatches⟩ := hcuts.batches_eq hrooted (by omega) rfl rfl
      refine ⟨hrooted', ?_, by omega, ?_⟩
      · refine h.anti ?_ ?_
        · intro b hb
          rw [hbatches] at hb
          exact (mem_below.mp hb).1
        · intro b hb offset hlow hhigh hle'
          have hlast := hrooted'.lastOffset_lt hb
          rw [hepochs]
          refine ⟨?_, epochForOffset_truncateFromEnd (by omega)⟩
          -- a start that moved down lies at the new end
          rw [hbatches] at hb
          have hcut_lt : b.lastOffset < cut := (mem_below.mp hb).2
          split at hstart <;> omega
      · split at hstart <;> omega

/-! ## Log starts -/

theorem advanceLogStart_ok {newStart : Int} (h : l.advanceLogStart newStart = .ok l') :
    l'.segments = l.segments ∧ l'.active = l.active ∧
      l'.startOffset = max l.startOffset newStart ∧
      (l'.epochs = l.epochs ∨ l'.epochs = l.epochs.truncateFromStart l'.startOffset) := by
  unfold advanceLogStart at h
  split at h
  · cases h
  · dsimp only at h
    split at h
    · split at h
      · cases h
      · cases h
        exact ⟨rfl, rfl, rfl, .inr rfl⟩
    · cases h
      exact ⟨rfl, rfl, rfl, .inl rfl⟩

theorem Covered.advanceLogStart {newStart : Int} (h : l.Covered)
    (hrun : l.advanceLogStart newStart = .ok l') : l'.Covered := by
  obtain ⟨hsegments, hactive, hstart, hepochs⟩ := advanceLogStart_ok hrun
  have hbatches := batches_congr hsegments hactive
  refine h.anti (fun b hb => hbatches ▸ hb) ?_
  intro b hb offset hlow hhigh hle
  refine ⟨by omega, ?_⟩
  rcases hepochs with hepochs | hepochs
  · rw [hepochs]
  · rw [hepochs]
    exact epochForOffset_truncateFromStart hle

theorem Rooted.dropSealed (h : l.Rooted a) (n : Nat) :
    ∃ a', a ≤ a' ∧ (l.dropSealed n).Rooted a' ∧ ∀ b ∈ (l.dropSealed n).batches, b ∈ l.batches := by
  have hsplit : l.segments.take n ++ (l.dropSealed n).allSegments = l.allSegments := by
    show l.segments.take n ++ (l.segments.drop n ++ [l.active]) = l.segments ++ [l.active]
    rw [← append_assoc, take_append_drop]
  have hchain := h.chained
  rw [← hsplit, chained_append] at hchain
  refine ⟨_, hchain.1.ordered.le_endOf, ⟨hchain.2, ?_⟩, ?_⟩
  · exact fun s hs => h.sealed_ne s (mem_of_mem_drop hs)
  · intro b hb
    obtain ⟨s, hs, hbs⟩ := mem_flatMap.mp hb
    refine mem_flatMap.mpr ⟨s, ?_, hbs⟩
    rw [← hsplit]
    exact mem_append_right _ hs

theorem Covered.dropSealed (h : l.Covered) (hrooted : l.Rooted a) (n : Nat) :
    (l.dropSealed n).Covered := by
  obtain ⟨-, -, -, hbatches⟩ := hrooted.dropSealed n
  exact h.anti hbatches fun b hb offset hlow hhigh hle => ⟨hle, rfl⟩

/-! ## Reopening -/

theorem Rooted.openFrom {checkpoint : Option Int} (h : l.Rooted a)
    (hrun : l.openFrom checkpoint = .ok l') :
    l'.segments = l.segments ∧ l'.active = l.active ∧
      l'.startOffset = (checkpoint.map l.effectiveStart).getD a ∧
      (l'.epochs = l.epochs.truncateFromEnd l.logEndOffset ∨
        l'.epochs = (l.epochs.truncateFromEnd l.logEndOffset).truncateFromStart
          l'.startOffset) := by
  unfold PartitionLog.openFrom openFiles at hrun
  dsimp only at hrun
  split at hrun
  · cases hrun
  · rename_i found hfound
    split at hfound
    · cases hfound
    · split at hfound
      · cases hfound
      · rename_i active hactive
        obtain rfl := h.active_sound.recoverActiveTail_ok hactive
        rw [sealAll_eq h.chained_segments h.active_baseOffset] at hfound
        obtain rfl := Except.ok.inj hfound
        rw [rebuild_frame hrun]
        cases checkpoint with
        | none => exact ⟨rfl, rfl, h.firstLocalOffset_eq, .inl rfl⟩
        | some checkpointed => exact ⟨rfl, rfl, rfl, .inr rfl⟩

end PartitionLog

/-! ## Runs -/

/-- The operations that touch the records, the log start or the history. -/
inductive HistoryOp (ρ : Type) where
  | append (path : AppendPath) (rolls : Bool) (b : RecordBatch ρ)
  | roll
  | assignEpoch (epoch : Int)
  | truncateTo (offset : Int)
  | setLogStartOffset (newStart : Int)
  | trimToOffset (target : Int)
  | enforceRetention (n : Nat)
  | flushLogStartCheckpoint
  | resetTo (newBase : Int)
  | reopen
  | closeAndReopen

namespace StartedLog

variable {s s' : StartedLog ρ}

def appendBatch (s : StartedLog ρ) (path : AppendPath) (rolls : Bool) (b : RecordBatch ρ) :
    Except LogError (StartedLog ρ) :=
  match s.log.appendBatch path rolls b with
  | .error e => .error e
  | .ok l => .ok { s with log := l }

/-- One operation.  An epoch is assigned at the log end. -/
def run (s : StartedLog ρ) : HistoryOp ρ → Except LogError (StartedLog ρ)
  | .append path rolls b => s.appendBatch path rolls b
  | .roll => .ok { s with log := s.log.roll }
  | .assignEpoch epoch => s.assignEpochStartOffset epoch s.log.logEndOffset
  | .truncateTo offset => s.truncateTo offset
  | .setLogStartOffset newStart => s.setLogStartOffset newStart
  | .trimToOffset target => s.trimToOffset target
  | .enforceRetention n => s.enforceRetention n
  | .flushLogStartCheckpoint => .ok s.flushLogStartCheckpoint
  | .resetTo newBase => s.resetTo newBase
  | .reopen => s.reopen
  | .closeAndReopen => s.closeAndReopen

/-- The known epochs of appends do not decrease, and an assigned epoch is above
every stored one. -/
def Nondecreasing (s : StartedLog ρ) : HistoryOp ρ → Prop
  | .append _ _ b => 0 ≤ b.partitionLeaderEpoch →
      ∀ x ∈ s.log.batches, x.partitionLeaderEpoch ≤ b.partitionLeaderEpoch
  | .assignEpoch epoch => ∀ e ∈ s.log.epochs.entries, e.epoch < epoch
  | _ => True

/-- The known epochs of appends are not below a recorded one, assigned ones
included. -/
def Orderly (s : StartedLog ρ) : HistoryOp ρ → Prop
  | .append _ _ b => 0 ≤ b.partitionLeaderEpoch → s.log.epochs.AllAtMost b.partitionLeaderEpoch
  | .assignEpoch epoch => ∀ e ∈ s.log.epochs.entries, e.epoch < epoch
  | _ => True

def system (ρ : Type) (remote : Bool) (ok : StartedLog ρ → HistoryOp ρ → Prop) :
    TransitionSystem (StartedLog ρ) (HistoryOp ρ) where
  init s := s = fresh remote
  step s op s' := s.run op = .ok s' ∧ ok s op

structure Inv (s : StartedLog ρ) : Prop where
  rooted : s.log.Rooted s.log.firstLocalOffset
  nonneg : 0 ≤ s.log.firstLocalOffset
  covered : s.log.Covered
  /-- A start that the file does not hold is the one of the first segment. -/
  start : s.log.startOffset ≤ max (s.checkpointedStart.getD 0) s.log.firstLocalOffset

theorem Inv.mk' {a : Int} (hrooted : s.log.Rooted a) (hnonneg : 0 ≤ a) (hcovered : s.log.Covered)
    (hstart : s.log.startOffset ≤ max (s.checkpointedStart.getD 0) a) : s.Inv := by
  have hfirst := hrooted.firstLocalOffset_eq
  refine ⟨?_, ?_, hcovered, ?_⟩
  · rw [hfirst]
    exact hrooted
  · omega
  · rw [hfirst]
    exact hstart

theorem inv_fresh (remote : Bool) : (fresh remote : StartedLog ρ).Inv :=
  Inv.mk' (laid_fresh remote).toRooted le_rfl
    (covered_of_no_batches rfl) le_rfl

theorem Inv.append {path : AppendPath} {rolls : Bool} {b : RecordBatch ρ} (h : s.Inv)
    (hrun : s.appendBatch path rolls b = .ok s') (hok : s.Orderly (.append path rolls b)) :
    s'.Inv := by
  unfold appendBatch at hrun
  split at hrun
  · cases hrun
  · rename_i l hl
    cases hrun
    have happ := appendBatch_ok hl
    have hframe := s.log.rolledIf_frame rolls
    obtain ⟨hrooted, hstart⟩ := h.rooted.rolledIf rolls
    obtain ⟨row, -, heq⟩ := happ.stored
    have hcovered := h.covered.congr hframe.1 hstart hframe.2.2.2.2.1
    have hepoch : (path.assigned s.log b).partitionLeaderEpoch = b.partitionLeaderEpoch := by
      cases path <;> rfl
    have horder : 0 ≤ (path.assigned s.log b).partitionLeaderEpoch →
        (s.log.rolledIf rolls).epochs.AllAtMost (path.assigned s.log b).partitionLeaderEpoch := by
      rw [hepoch, hframe.2.2.2.2.1]
      exact hok
    refine mk' (happ.rooted hrooted).1 h.nonneg (happ.covered hrooted horder hcovered) ?_
    have hsame : l.startOffset = s.log.startOffset := by
      rw [heq]
      exact hstart
    exact hsame ▸ h.start

theorem Inv.assignEpoch {epoch : Int} (h : s.Inv)
    (hrun : s.assignEpochStartOffset epoch s.log.logEndOffset = .ok s')
    (hok : ∀ e ∈ s.log.epochs.entries, e.epoch < epoch) : s'.Inv := by
  unfold assignEpochStartOffset at hrun
  split at hrun
  · cases hrun
  · rename_i epochs hassign
    cases hrun
    refine mk' (h.rooted.congr rfl rfl) h.nonneg ?_ h.start
    refine h.covered.anti (fun b hb => hb) ?_
    intro b hb offset hlow hhigh hstart
    have hlast := h.rooted.lastOffset_lt hb
    refine ⟨hstart, epochForOffset_congr ?_⟩
    intro e he
    exact mem_assign (fun x hx => (hok x hx).le) hassign (by omega)

theorem Inv.truncateTo {offset : Int} (h : s.Inv)
    (hrun : s.truncateTo offset = .ok s') : s'.Inv := by
  unfold StartedLog.truncateTo at hrun
  split at hrun
  · cases hrun
  · rename_i l hl
    have hle := h.rooted.le_logEndOffset
    rcases h.rooted.truncateTo hl h.covered with ⟨hrooted, hcovered, hcut, hstart⟩ |
      ⟨hcut, hnonneg, hrooted, hcovered, hstart⟩
    · rw [if_neg (by omega)] at hrun
      split at hrun
      · cases hrun
        exact mk' hrooted h.nonneg hcovered (le_max_left _ _)
      · cases hrun
        exact mk' hrooted h.nonneg hcovered (hstart.trans h.start)
    · rw [if_pos ⟨by omega, hcut⟩] at hrun
      cases hrun
      exact mk' hrooted hnonneg hcovered (hstart.le.trans (le_max_right _ _))

theorem Inv.setLogStartOffset {newStart : Int} (h : s.Inv)
    (hrun : s.setLogStartOffset newStart = .ok s') : s'.Inv := by
  unfold StartedLog.setLogStartOffset at hrun
  split at hrun
  · cases hrun
  · rename_i l hl
    obtain ⟨hsegments, hactive, -, -⟩ := advanceLogStart_ok hl
    have hrooted := h.rooted.congr hsegments hactive
    have hcovered := h.covered.advanceLogStart hl
    split at hrun
    · rename_i hcheckpoint
      cases hrun
      refine mk' hrooted h.nonneg hcovered ?_
      rw [hcheckpoint]
      exact le_max_left _ _
    · cases hrun
      exact mk' hrooted h.nonneg hcovered (le_max_left _ _)

theorem Inv.dropSealed (h : s.Inv) (n : Nat) : Inv { s with log := s.log.dropSealed n } := by
  obtain ⟨a, ha, hrooted, -⟩ := h.rooted.dropSealed n
  have hnonneg := h.nonneg
  refine mk' hrooted (by omega) (h.covered.dropSealed h.rooted n) ?_
  exact h.start.trans (max_le_max le_rfl ha)

theorem Inv.trimToOffset {target : Int} (h : s.Inv) (hrun : s.trimToOffset target = .ok s') :
    s'.Inv := by
  unfold StartedLog.trimToOffset at hrun
  split at hrun
  · cases hrun
  · dsimp only at hrun
    split at hrun
    · exact Except.ok.inj hrun ▸ h
    · exact (h.dropSealed _).setLogStartOffset hrun

theorem Inv.roll (h : s.Inv) : Inv { s with log := s.log.roll } := by
  have hframe := s.log.roll_frame
  refine mk' h.rooted.roll h.nonneg
    (h.covered.congr hframe.1 s.log.roll_startOffset hframe.2.2.2.2.1) ?_
  exact s.log.roll_startOffset.le.trans h.start

theorem Inv.enforceRetention {n : Nat} (h : s.Inv) (hrun : s.enforceRetention n = .ok s') :
    s'.Inv := by
  unfold StartedLog.enforceRetention at hrun
  split at hrun
  · exact Except.ok.inj hrun ▸ h
  · dsimp only at hrun
    have hrolled :
        Inv { s with log := if n > s.log.segments.length then s.log.roll else s.log } := by
      split
      · exact h.roll
      · exact h
    have hdropped := hrolled.dropSealed n
    split at hrun
    · cases hrun
    · rename_i l hl
      obtain ⟨hsegments, hactive, hstart, -⟩ := advanceLogStart_ok hl
      cases hrun
      refine mk' (hdropped.rooted.congr hsegments hactive) hdropped.nonneg
        (hdropped.covered.advanceLogStart hl) ?_
      rw [hstart]
      exact max_le hdropped.start (le_max_right _ _)

theorem Inv.flushLogStartCheckpoint (h : s.Inv) : s.flushLogStartCheckpoint.Inv := by
  unfold StartedLog.flushLogStartCheckpoint
  split
  · exact mk' h.rooted h.nonneg h.covered (le_max_left _ _)
  · exact h

theorem Inv.resetTo {newBase : Int} (hrun : s.resetTo newBase = .ok s') : s'.Inv := by
  unfold StartedLog.resetTo PartitionLog.resetTo at hrun
  split at hrun
  · cases hrun
  · rename_i l hl
    split at hl
    · cases hl
    · cases hl
      cases hrun
      exact mk' (a := newBase) ⟨⟨rfl, Segment.sound_create newBase, trivial⟩, nofun⟩ (by omega)
        (covered_of_no_batches rfl) (le_max_right _ _)

theorem Inv.reopen (h : s.Inv) (hrun : s.reopen = .ok s') : s'.Inv := by
  unfold StartedLog.reopen at hrun
  split at hrun
  · cases hrun
  · rename_i l hl
    obtain ⟨hsegments, hactive, hstart, hepochs⟩ := h.rooted.openFrom hl
    have hrooted := h.rooted.congr hsegments hactive
    have hend : l.logEndOffset = s.log.logEndOffset := by
      unfold PartitionLog.logEndOffset
      rw [hactive]
    have hbatches := batches_congr hsegments hactive
    have hbound := h.start
    have hnonneg := h.nonneg
    have hcovered : l.Covered := by
      refine h.covered.anti (fun b hb => hbatches ▸ hb) ?_
      intro b hb offset hlow hhigh hle
      have hlast := hrooted.lastOffset_lt hb
      rw [hend] at hlast
      have hfirst : s.log.firstLocalOffset ≤ b.baseOffset := hrooted.ordered.lower b hb
      refine ⟨?_, ?_⟩
      · cases hcheckpoint : s.checkpointedStart with
        | none =>
          rw [hcheckpoint] at hbound
          simp only [getD_none] at hbound
          omega
        | some checkpointed =>
          rw [hcheckpoint] at hbound hstart
          simp only [getD_some, map_some] at hbound hstart
          unfold PartitionLog.effectiveStart at hstart
          dsimp only at hstart
          split at hstart <;> omega
      · have htail : (s.log.epochs.truncateFromEnd s.log.logEndOffset).epochForOffset offset =
            s.log.epochs.epochForOffset offset := epochForOffset_truncateFromEnd (by omega)
        rcases hepochs with hepochs | hepochs
        · rw [hepochs]
          exact htail
        · rw [hepochs, epochForOffset_truncateFromStart hle]
          exact htail
    cases hcheckpoint : s.checkpointedStart with
    | none =>
      rw [hcheckpoint] at hrun hstart
      cases hrun
      exact mk' hrooted hnonneg hcovered (hstart.le.trans (le_max_right _ _))
    | some checkpointed =>
      rw [hcheckpoint] at hrun hstart
      dsimp only at hrun
      split at hrun
      · cases hrun
        exact mk' hrooted hnonneg hcovered (le_max_left _ _)
      · cases hrun
        refine mk' hrooted hnonneg hcovered ?_
        simp only [map_some, getD_some] at hstart ⊢
        unfold PartitionLog.effectiveStart at hstart
        dsimp only at hstart
        split at hstart <;> omega

theorem Inv.closeAndReopen (h : s.Inv) (hrun : s.closeAndReopen = .ok s') : s'.Inv := by
  have hsnapped : Inv { s with log := s.log.takeProducerSnapshot } := by
    rw [s.log.takeProducerSnapshot_frame]
    exact mk' (h.rooted.congr rfl rfl) h.nonneg (h.covered.congr rfl rfl rfl) h.start
  unfold StartedLog.closeAndReopen at hrun
  split at hrun
  · exact hsnapped.flushLogStartCheckpoint.reopen hrun
  · exact hsnapped.reopen hrun

theorem Inv.run {op : HistoryOp ρ} (h : s.Inv) (hrun : s.run op = .ok s') (hok : s.Orderly op) :
    s'.Inv := by
  cases op with
  | append path rolls b => exact h.append hrun hok
  | roll => exact Except.ok.inj hrun ▸ h.roll
  | assignEpoch epoch => exact h.assignEpoch hrun hok
  | truncateTo offset => exact h.truncateTo hrun
  | setLogStartOffset newStart => exact h.setLogStartOffset hrun
  | trimToOffset target => exact h.trimToOffset hrun
  | enforceRetention n => exact h.enforceRetention hrun
  | flushLogStartCheckpoint => exact Except.ok.inj hrun ▸ h.flushLogStartCheckpoint
  | resetTo newBase => exact resetTo hrun
  | reopen => exact h.reopen hrun
  | closeAndReopen => exact h.closeAndReopen hrun

variable {remote : Bool}

theorem inv_of_reachable (h : (system ρ remote Orderly).Reachable s) : s.Inv := by
  refine h.invariant (P := Inv) ?_ ?_
  · rintro s rfl
    exact inv_fresh remote
  · rintro s op s' hinv ⟨hrun, hok⟩
    exact hinv.run hrun hok

/-- The epoch that a log sends to find where it diverges, `-1` when it has none. -/
def lastEpoch (s : StartedLog ρ) : Int := s.log.epochs.latestEpoch.getD (-1)

/-- In every orderly run the rows grow in both columns, the history gives the
stored offsets of known epochs their epochs, and the end it gives for the last
epoch of another such log lies past every such record that the two share. -/
theorem epochs_describe_records {remote remote' : Bool}
    (h : (system ρ remote Orderly).Reachable s) (h' : (system ρ remote' Orderly).Reachable s') :
    s.log.epochs.entries.Pairwise IsStrictSuccessor ∧ s.log.Covered ∧
      (s.log.startOffset = 0 → s'.log.startOffset = 0 →
        ∀ b ∈ s.log.batches, ∀ b' ∈ s'.log.batches, 0 ≤ b.partitionLeaderEpoch →
          b'.partitionLeaderEpoch = b.partitionLeaderEpoch → ∀ offset,
            b.baseOffset ≤ offset → offset ≤ b.lastOffset →
            b'.baseOffset ≤ offset → offset ≤ b'.lastOffset →
              (s.log.epochs.epochAndOffsetFor s'.lastEpoch s.log.logEndOffset).2 = -1 ∨
                offset < (s.log.epochs.epochAndOffsetFor s'.lastEpoch s.log.logEndOffset).2) := by
  have hinv := inv_of_reachable h
  have hinv' := inv_of_reachable h'
  refine ⟨s.log.epochs.increasing, hinv.covered, ?_⟩
  intro hstart hstart' b hb b' hb' hknown hsame offset hlow hhigh hlow' hhigh'
  have hfirst : s.log.firstLocalOffset ≤ b.baseOffset := hinv.rooted.ordered.lower b hb
  have hnonneg := hinv.nonneg
  have hepoch := hinv.covered b hb hknown offset hlow hhigh (by omega)
  have hepoch' := hinv'.covered b' hb' (by omega) offset hlow' hhigh' (by omega)
  have hlast := hinv.rooted.lastOffset_lt hb
  -- the other log records the epoch of the shared record, so its last epoch is not below it
  obtain ⟨e, he, heq, -, -⟩ := epochForOffset_eq_some.mp hepoch'
  obtain ⟨latest, hlatest, hle⟩ := le_latestEpoch he
  refine lt_epochAndOffsetFor hepoch ?_ (by omega)
  unfold lastEpoch
  rw [hlatest, getD_some]
  omega

/-! ## Runs on fixed inputs -/

instance (s : StartedLog ρ) : ∀ op : HistoryOp ρ, Decidable (s.Nondecreasing op)
  | .append _ _ b => inferInstanceAs (Decidable (0 ≤ b.partitionLeaderEpoch → _))
  | .assignEpoch epoch =>
    inferInstanceAs (Decidable (∀ e ∈ s.log.epochs.entries, e.epoch < epoch))
  | .roll | .truncateTo _ | .setLogStartOffset _ | .trimToOffset _ | .enforceRetention _
  | .flushLogStartCheckpoint | .resetTo _ | .reopen | .closeAndReopen => .isTrue trivial

instance (s : StartedLog ρ) : ∀ op : HistoryOp ρ, Decidable (s.Orderly op)
  | .append _ _ b => inferInstanceAs (Decidable (0 ≤ b.partitionLeaderEpoch → _))
  | .assignEpoch epoch =>
    inferInstanceAs (Decidable (∀ e ∈ s.log.epochs.entries, e.epoch < epoch))
  | .roll | .truncateTo _ | .setLogStartOffset _ | .trimToOffset _ | .enforceRetention _
  | .flushLogStartCheckpoint | .resetTo _ | .reopen | .closeAndReopen => .isTrue trivial

/-- The log that a list of operations leaves from an empty directory. -/
def ran (ok : StartedLog Unit → HistoryOp Unit → Prop) [∀ s op, Decidable (ok s op)]
    (ops : List (HistoryOp Unit)) : StartedLog Unit :=
  runAll (fun s op => (s.run op).toOption) ok (fresh false) ops

theorem ran_reachable (ok : StartedLog Unit → HistoryOp Unit → Prop)
    [∀ s op, Decidable (ok s op)] (ops : List (HistoryOp Unit)) :
    (system Unit false ok).Reachable (ran ok ops) :=
  .runAll (.init rfl) fun _ _ _ hrun hok => ⟨Except.eq_ok_of_toOption hrun, hok⟩

def epochBatch (epoch : Int) : RecordBatch Unit :=
  { plainBatch 10 with partitionLeaderEpoch := epoch }

def appendEpoch (epoch : Int) : HistoryOp Unit := .append .append false (epochBatch epoch)

/-- A leader takes over after a truncation and is reopened; a follower still has the
record that was cut off.  They share the record at offset 1. -/
theorem epochs_describe_records_diverged : ∃ s s' : StartedLog Unit,
    (system Unit false Orderly).Reachable s ∧ (system Unit false Orderly).Reachable s' ∧
      s.log.batches.map RecordBatch.partitionLeaderEpoch = [3, 3, 5] ∧ s'.lastEpoch = 4 ∧
      s.log.Covered ∧
      1 < (s.log.epochs.epochAndOffsetFor s'.lastEpoch s.log.logEndOffset).2 := by
  let s := ran Orderly [appendEpoch 3, appendEpoch 3, appendEpoch 4, .truncateTo 2,
    .assignEpoch 5, .append .append true (epochBatch 5), .reopen]
  let s' := ran Orderly [appendEpoch 3, appendEpoch 3, appendEpoch 4]
  have hs : (system Unit false Orderly).Reachable s := ran_reachable _ _
  have hs' : (system Unit false Orderly).Reachable s' := ran_reachable _ _
  have hshared : { epochBatch 3 with baseOffset := 1 } ∈ s.log.batches ∧
      { epochBatch 3 with baseOffset := 1 } ∈ s'.log.batches := by decide +kernel
  obtain ⟨-, hcovered, hend⟩ := epochs_describe_records hs hs'
  refine ⟨s, s', hs, hs', by decide +kernel, by decide +kernel, hcovered, ?_⟩
  refine (hend (by decide +kernel) (by decide +kernel) _ hshared.1 _ hshared.2 (by decide) rfl 1
    (by decide) (by decide) (by decide) (by decide)).resolve_left ?_
  decide +kernel

/-- An append below an assigned epoch drops the row of the records before it, a
batch without an epoch is given the one before it, and after an assignment such a
batch lies past the end that the log gives for the epoch of a log that shares it. -/
theorem epochs_miss_records :
    (∃ s : StartedLog Unit, (system Unit false Nondecreasing).Reachable s ∧
      s.log.startOffset = 0 ∧ s.log.batches.map RecordBatch.partitionLeaderEpoch = [5, 5] ∧
      s.log.epochs.epochForOffset 0 = none) ∧
    (∃ s : StartedLog Unit, (system Unit false Nondecreasing).Reachable s ∧
      s.log.startOffset = 0 ∧ s.log.batches.map RecordBatch.partitionLeaderEpoch = [5, -1] ∧
      s.log.epochs.epochForOffset 1 = some 5) ∧
    ∃ s s' : StartedLog Unit, (system Unit false Nondecreasing).Reachable s ∧
      (system Unit false Nondecreasing).Reachable s' ∧ s.log.batches = s'.log.batches ∧
      s.log.logEndOffset = 2 ∧
      s.log.epochs.epochAndOffsetFor s'.lastEpoch s.log.logEndOffset = (5, 1) := by
  refine ⟨⟨ran Nondecreasing [appendEpoch 5, .assignEpoch 7, appendEpoch 5],
      ran_reachable _ _, by decide +kernel⟩,
    ⟨ran Nondecreasing [appendEpoch 5, appendEpoch (-1)], ran_reachable _ _,
      by decide +kernel⟩,
    ran Nondecreasing [appendEpoch 5, .assignEpoch 7, appendEpoch (-1)],
    ran Nondecreasing [appendEpoch 5, appendEpoch (-1)],
    ran_reachable _ _, ran_reachable _ _, by decide +kernel⟩

end StartedLog

end Krabka.Log

import Krabka.Lib.Sweep
import Krabka.Share.Persistence
import Mathlib.Data.Prod.Lex

/-!
# The share coordinator's state of one key

`share_coordinator/state.rs`: the state that the coordinator keeps for a
`(group, topic, partition)`, the snapshot and update values that are written to
`__share_group_state`, and how a value is folded into the state.

The batches of an update are merged with the stored ones by
`combine_state_batches`: at each offset the higher delivery count wins, then the
higher delivery state.  `combine_spec` reads the result position by position.
-/

namespace Krabka.ShareCoordinator

open Krabka.Share Run List

/-! ## Batches -/

/-- `BatchPriority`: the delivery count, then the delivery state. -/
abbrev BatchPriority := Int ×ₗ Int

def priority (deliveryCount deliveryState : Int) : BatchPriority :=
  toLex (deliveryCount, deliveryState)

/-- A batch as the sweep sees it. -/
def batchRun (b : StateBatch) : Run BatchPriority :=
  ⟨b.firstOffset, b.lastOffset, priority b.deliveryCount b.deliveryState⟩

def runBatch (r : Run BatchPriority) : StateBatch :=
  ⟨r.firstOffset, r.lastOffset, (ofLex r.value).2, (ofLex r.value).1⟩

variable (batches : List StateBatch)

def sweepMerge : List StateBatch :=
  (merge (batches.map batchRun)).map runBatch

/-- The part of a batch that lies at or above the start offset. -/
def clipBatch (startOffset : Int) (b : StateBatch) : StateBatch :=
  if startOffset = -1 ∨ b.firstOffset ≥ startOffset then b
  else { b with firstOffset := startOffset }

def pruneBatches (startOffset : Int) (batches : List StateBatch) : List StateBatch :=
  (batches.filter fun b => startOffset = -1 ∨ b.lastOffset ≥ startOffset).map
    (clipBatch startOffset)

def combineStateBatches (soFar newBatches : List StateBatch) (startOffset : Int) :
    List StateBatch :=
  let pruned := pruneBatches startOffset (soFar ++ newBatches)
  if pruned.length ≤ 1 then pruned else sweepMerge pruned

/-! ## Values and states -/

structure ShareSnapshotValue where
  snapshotEpoch : Int
  stateEpoch : Int
  leaderEpoch : Int
  startOffset : Int
  deliveryCompleteCount : Int
  createTimestamp : Int
  writeTimestamp : Int
  stateBatches : List StateBatch
  deriving DecidableEq

structure ShareUpdateValue where
  snapshotEpoch : Int
  leaderEpoch : Int
  startOffset : Int
  deliveryCompleteCount : Int
  stateBatches : List StateBatch
  deriving DecidableEq

structure SharePartitionState where
  stateEpoch : Int := 0
  leaderEpoch : Int := 0
  startOffset : Int := 0
  deliveryCompleteCount : Int := 0
  stateBatches : List StateBatch := []
  snapshotEpoch : Int := 0
  createTimestamp : Int := 0
  writeTimestamp : Int := 0
  /-- The log offset of the latest snapshot of the key. -/
  lastSnapshotOffset : Int := 0
  updatesSinceSnapshot : Nat := 0
  /-- The highest leader epoch that a record of the key carried. -/
  fenceLeaderEpoch : Int := 0
  /-- The highest state epoch that a snapshot of the key carried. -/
  fenceStateEpoch : Int := 0
  deriving DecidableEq

def u32Max : Nat := 2 ^ 32 - 1

namespace SharePartitionState

def applySnapshot (st : SharePartitionState) (v : ShareSnapshotValue) (offset : Int)
    (updatesPerSnapshot : Nat) : SharePartitionState :=
  { st with
    fenceLeaderEpoch := max st.fenceLeaderEpoch v.leaderEpoch
    fenceStateEpoch := max st.fenceStateEpoch v.stateEpoch
    snapshotEpoch := v.snapshotEpoch
    stateEpoch := v.stateEpoch
    leaderEpoch := v.leaderEpoch
    startOffset := v.startOffset
    deliveryCompleteCount := v.deliveryCompleteCount
    stateBatches := v.stateBatches
    createTimestamp := v.createTimestamp
    writeTimestamp := v.writeTimestamp
    lastSnapshotOffset := offset
    updatesSinceSnapshot :=
      if st.updatesSinceSnapshot ≥ updatesPerSnapshot then 0 else st.updatesSinceSnapshot }

def fromSnapshot (v : ShareSnapshotValue) (offset : Int) : SharePartitionState :=
  applySnapshot { fenceLeaderEpoch := v.leaderEpoch, fenceStateEpoch := v.stateEpoch } v offset
    u32Max

def fromUpdate (v : ShareUpdateValue) : SharePartitionState where
  leaderEpoch := v.leaderEpoch
  startOffset := v.startOffset
  deliveryCompleteCount := v.deliveryCompleteCount
  stateBatches := v.stateBatches
  snapshotEpoch := v.snapshotEpoch
  updatesSinceSnapshot := 1
  fenceLeaderEpoch := v.leaderEpoch

/-- `apply_update`.  A start offset or a leader epoch of `-1` keeps the stored
one. -/
def applyUpdate (st : SharePartitionState) (v : ShareUpdateValue) : SharePartitionState :=
  let startOffset := if v.startOffset ≠ -1 then v.startOffset else st.startOffset
  { st with
    fenceLeaderEpoch := max st.fenceLeaderEpoch v.leaderEpoch
    startOffset := startOffset
    leaderEpoch := if v.leaderEpoch ≠ -1 then v.leaderEpoch else st.leaderEpoch
    deliveryCompleteCount := v.deliveryCompleteCount
    stateBatches := combineStateBatches st.stateBatches v.stateBatches startOffset
    updatesSinceSnapshot := min (st.updatesSinceSnapshot + 1) u32Max }

def toSnapshot (st : SharePartitionState) (snapshotEpoch writeTimestamp : Int) :
    ShareSnapshotValue where
  snapshotEpoch := snapshotEpoch
  stateEpoch := st.stateEpoch
  leaderEpoch := st.leaderEpoch
  startOffset := st.startOffset
  deliveryCompleteCount := st.deliveryCompleteCount
  createTimestamp := st.createTimestamp
  writeTimestamp := writeTimestamp
  stateBatches := st.stateBatches

end SharePartitionState

/-! ## What the batches say -/

def priorityAt (o : Int) : Option BatchPriority :=
  lookup (batches.map batchRun) o

def InOrder : Prop := Ordered (batches.map batchRun)

theorem map_batchRun_runBatch (rs : List (Run BatchPriority)) :
    (rs.map runBatch).map batchRun = rs := by
  rw [map_map]
  exact map_id rs

variable (startOffset o : Int)

/-- A start offset of `-1` clips nothing. -/
def Unclipped : Prop := startOffset = -1 ∨ startOffset ≤ o

instance (startOffset o : Int) : Decidable (Unclipped startOffset o) :=
  inferInstanceAs (Decidable (_ ∨ _))

theorem covers_clipBatch (b : StateBatch) :
    ((startOffset = -1 ∨ b.lastOffset ≥ startOffset) ∧
      (batchRun (clipBatch startOffset b)).Covers o ↔
      Unclipped startOffset o ∧ (batchRun b).Covers o) ∧
      (batchRun (clipBatch startOffset b)).value = (batchRun b).value := by
  unfold clipBatch Unclipped
  split
  · refine ⟨?_, rfl⟩
    show _ ∧ b.firstOffset ≤ o ∧ o ≤ b.lastOffset ↔ _ ∧ b.firstOffset ≤ o ∧ o ≤ b.lastOffset
    omega
  · refine ⟨?_, rfl⟩
    show _ ∧ startOffset ≤ o ∧ o ≤ b.lastOffset ↔ _ ∧ b.firstOffset ≤ o ∧ o ≤ b.lastOffset
    omega

theorem covering_prune (value : BatchPriority) :
    covering ((pruneBatches startOffset batches).map batchRun) o value =
      if Unclipped startOffset o then covering (batches.map batchRun) o value else 0 := by
  induction batches with
  | nil => simp [pruneBatches, covering]
  | cons b batches ih =>
    obtain ⟨hcov, hvalue⟩ := covers_clipBatch startOffset o b
    rw [map_cons, covering_cons]
    unfold pruneBatches at ih ⊢
    rw [filter_cons]
    split
    · rename_i hkeep
      rw [map_cons, map_cons, covering_cons, ih, hvalue]
      grind
    · rename_i hkeep
      rw [ih]
      grind

theorem winner_prune :
    winner ((pruneBatches startOffset batches).map batchRun) o =
      if Unclipped startOffset o then winner (batches.map batchRun) o else none := by
  split
  · rename_i ho
    exact winner_congr fun value => by rw [covering_prune, if_pos ho]
  · rename_i ho
    exact winner_eq_none.mpr (covering_eq_zero.mp fun value => by rw [covering_prune, if_neg ho])

theorem combine_winner (soFar newBatches : List StateBatch) (startOffset : Int)
    (hne : ∀ b ∈ soFar ++ newBatches, b.firstOffset ≤ b.lastOffset) :
    InOrder (combineStateBatches soFar newBatches startOffset) ∧
      Merged ((combineStateBatches soFar newBatches startOffset).map batchRun) ∧
      ∀ o, priorityAt (combineStateBatches soFar newBatches startOffset) o =
        if Unclipped startOffset o then winner ((soFar ++ newBatches).map batchRun) o
          else none := by
  have hne' : ∀ r ∈ (pruneBatches startOffset (soFar ++ newBatches)).map batchRun,
      r.firstOffset ≤ r.lastOffset := by
    intro r hr
    obtain ⟨b', hb', rfl⟩ := mem_map.mp hr
    obtain ⟨b, hb, rfl⟩ := mem_map.mp hb'
    obtain ⟨hmem, hkeep⟩ := mem_filter.mp hb
    have hspan := hne b hmem
    simp only [decide_eq_true_eq] at hkeep
    show (clipBatch startOffset b).firstOffset ≤ (clipBatch startOffset b).lastOffset
    unfold clipBatch
    split
    · exact hspan
    · show startOffset ≤ b.lastOffset
      omega
  simp only [← winner_prune]
  unfold combineStateBatches InOrder priorityAt
  dsimp only
  split
  · rename_i hlen
    generalize hpruned : (pruneBatches startOffset (soFar ++ newBatches)).map batchRun = runs at *
    have hshort : runs.length ≤ 1 := by
      rw [← hpruned, length_map]
      exact hlen
    have hordered : Ordered runs ∧ Merged runs := by
      match runs with
      | [] => exact ⟨⟨.nil, hne'⟩, .nil⟩
      | [r] => exact ⟨⟨pairwise_singleton _ r, hne'⟩, .singleton r⟩
      | _ :: _ :: _ => simp at hshort
    exact ⟨hordered.1, hordered.2, fun o => (hordered.1.winner_eq o).symm⟩
  · obtain ⟨hordered, hlookup⟩ := merge_lookup hne'
    rw [sweepMerge, map_batchRun_runBatch]
    exact ⟨hordered, merge_merged _, hlookup⟩

/-- **The combined batches** are in order, and give each offset at or above the
start offset the greater of its two priorities. -/
theorem combine_spec {soFar newBatches : List StateBatch} {startOffset : Int}
    (hsoFar : InOrder soFar) (hnew : InOrder newBatches) (hstart : 0 ≤ startOffset) :
    InOrder (combineStateBatches soFar newBatches startOffset) ∧
      ∀ o, priorityAt (combineStateBatches soFar newBatches startOffset) o =
        if startOffset ≤ o then (priorityAt soFar o).merge max (priorityAt newBatches o)
        else none := by
  have hne : ∀ b ∈ soFar ++ newBatches, b.firstOffset ≤ b.lastOffset := by
    intro b hb
    rcases mem_append.mp hb with hb | hb
    · exact hsoFar.2 _ (mem_map_of_mem hb)
    · exact hnew.2 _ (mem_map_of_mem hb)
  obtain ⟨hordered, -, hat⟩ := combine_winner soFar newBatches startOffset hne
  refine ⟨hordered, fun o => ?_⟩
  have hclip : Unclipped startOffset o ↔ startOffset ≤ o := or_iff_right (by omega)
  rw [hat, map_append, winner_append, hsoFar.winner_eq, hnew.winner_eq]
  simp only [hclip]
  rfl

/-! ## Writes one at a time -/

/-- A start offset is not below another one, where `-1` is none. -/
def StartLe (s t : Int) : Prop := s = -1 ∨ (t ≠ -1 ∧ s ≤ t)

instance : DecidableRel StartLe := fun _ _ => inferInstanceAs (Decidable (_ ∨ _))

/-- The batches after writes with their start offsets. -/
def combineWrites (soFar : List StateBatch) (writes : List (List StateBatch × Int)) :
    List StateBatch :=
  writes.foldl (fun acc w => combineStateBatches acc w.1 w.2) soFar

theorem combineWrites_winner (soFar : List StateBatch) (writes : List (List StateBatch × Int))
    (w : List StateBatch × Int)
    (hne : ∀ b ∈ soFar ++ (writes ++ [w]).flatMap Prod.fst, b.firstOffset ≤ b.lastOffset)
    (hstarts : ((writes ++ [w]).map Prod.snd).Pairwise StartLe) :
    InOrder (combineWrites soFar (writes ++ [w])) ∧
      Merged ((combineWrites soFar (writes ++ [w])).map batchRun) ∧
      ∀ o, priorityAt (combineWrites soFar (writes ++ [w])) o =
        if Unclipped w.2 o then
          winner ((soFar ++ (writes ++ [w]).flatMap Prod.fst).map batchRun) o
        else none := by
  induction writes using reverseRecOn generalizing w with
  | nil =>
    rw [nil_append, flatMap_singleton] at hne ⊢
    exact combine_winner soFar w.1 w.2 hne
  | append_singleton writes v ih =>
    rw [flatMap_append, flatMap_singleton, ← append_assoc] at hne ⊢
    rw [map_append, pairwise_append] at hstarts
    obtain ⟨horder, -, hat⟩ := ih v (fun b hb => hne b (mem_append_left _ hb)) hstarts.1
    have hstart : StartLe v.2 w.2 := hstarts.2.2 v.2 (by simp) w.2 (by simp)
    have hcombine : combineWrites soFar (writes ++ [v] ++ [w]) =
        combineStateBatches (combineWrites soFar (writes ++ [v])) w.1 w.2 :=
      foldl_concat ..
    rw [hcombine]
    obtain ⟨horder', hmerged, hat'⟩ :=
      combine_winner (combineWrites soFar (writes ++ [v])) w.1 w.2 (by
      intro b hb
      rcases mem_append.mp hb with hb | hb
      · exact horder.2 _ (mem_map_of_mem hb)
      · exact hne b (mem_append_right _ hb))
    refine ⟨horder', hmerged, fun o => ?_⟩
    rw [hat', map_append, map_append, winner_append, winner_append, horder.winner_eq]
    by_cases ho : Unclipped w.2 o
    · have ho' : Unclipped v.2 o := by
        unfold Unclipped at ho ⊢
        unfold StartLe at hstart
        omega
      have hv := hat o
      rw [if_pos ho'] at hv
      rw [if_pos ho, if_pos ho, ← hv]
      rfl
    · rw [if_neg ho, if_neg ho]

theorem batchRun_injective : Function.Injective batchRun :=
  Function.LeftInverse.injective (g := runBatch) fun _ => rfl

/-- The combined batches are sorted, disjoint and merged, each offset that is not
clipped has the greatest priority of the batches that cover it, and writes one at a
time leave what all of them at once leave, in any order. -/
theorem combineStateBatches_greatest :
    (∀ soFar newBatches startOffset,
      (∀ b ∈ soFar ++ newBatches, b.firstOffset ≤ b.lastOffset) →
      InOrder (combineStateBatches soFar newBatches startOffset) ∧
        Merged ((combineStateBatches soFar newBatches startOffset).map batchRun) ∧
        ∀ o, priorityAt (combineStateBatches soFar newBatches startOffset) o =
          if Unclipped startOffset o then winner ((soFar ++ newBatches).map batchRun) o else none) ∧
    ∀ soFar writes w,
      (∀ b ∈ soFar ++ (writes ++ [w]).flatMap Prod.fst, b.firstOffset ≤ b.lastOffset) →
      ((writes ++ [w]).map Prod.snd).Pairwise StartLe →
      ∀ xs ys, (xs ++ ys).Perm (soFar ++ (writes ++ [w]).flatMap Prod.fst) →
        combineWrites soFar (writes ++ [w]) = combineStateBatches xs ys w.2 := by
  refine ⟨combine_winner, ?_⟩
  intro soFar writes w hne hstarts xs ys hperm
  obtain ⟨horder, hmerged, hat⟩ := combineWrites_winner soFar writes w hne hstarts
  obtain ⟨horder', hmerged', hat'⟩ :=
    combine_winner xs ys w.2 fun b hb => hne b (hperm.mem_iff.mp hb)
  refine map_injective_iff.mpr batchRun_injective (horder.ext horder' hmerged hmerged' fun o => ?_)
  have hread := hat' o
  rw [winner_congr fun value => (hperm.map batchRun).countP_eq _, ← hat o] at hread
  exact hread.symm

/-- Two writes of one batch each, against both at once. -/
theorem combineStateBatches_greatest_two_writes :
    combineWrites [] [([⟨0, 4, 0, 1⟩], 0), ([⟨2, 6, 2, 1⟩], 1)] =
      combineStateBatches [⟨2, 6, 2, 1⟩] [⟨0, 4, 0, 1⟩] 1 :=
  combineStateBatches_greatest.2 [] [([⟨0, 4, 0, 1⟩], 0)] ([⟨2, 6, 2, 1⟩], 1)
    (by decide) (by decide) [⟨2, 6, 2, 1⟩] [⟨0, 4, 0, 1⟩] (List.Perm.swap ..)

/-- A start offset of `-1` leaves what lies below it. -/
theorem combineStateBatches_keeps_below_start :
    ∃ o < -1, priorityAt (combineStateBatches [⟨-5, -3, 0, 1⟩] [] (-1)) o ≠ none :=
  ⟨-4, by decide, by decide⟩

end Krabka.ShareCoordinator

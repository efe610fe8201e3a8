import Krabka.Controller.Reassignment
import Krabka.Lib.Transition

/-!
# A reassignment reaches its target

The runs of one partition record under accepted `AlterPartitionReassignments`
rows, ISR changes and `reassign_one` steps, in any order.

`PartitionChange.Sound` is what every assignment keeps.  `PartitionChange.Heads`
says that the assignment is on its way to a target: what is not being removed is
the target, in its order.  A start whose kept lists agree with its target
(`Agrees`) establishes it, and every step but another accepted row keeps it.
-/

namespace Krabka.Controller

open PartitionRecord List

/-! ## Assignments -/

def PartitionRecord.assignment (pr : PartitionRecord) : PartitionChange where
  replicas := pr.replicas
  isr := pr.isr
  adding := pr.addingReplicas
  removing := pr.removingReplicas

/-- The replicas are distinct, the adding and the removing replicas are sets
within them, and so is the ISR, which is not empty. -/
structure PartitionChange.Sound (change : PartitionChange) : Prop where
  nodup : change.replicas.Nodup
  isr_subset : change.isr ⊆ change.replicas
  isr_ne : change.isr ≠ []
  adding_nodup : change.adding.Nodup
  adding_subset : change.adding ⊆ change.replicas
  removing_nodup : change.removing.Nodup
  removing_subset : change.removing ⊆ change.replicas

/-- The assignment is on its way to `target`. -/
structure PartitionChange.Heads (change : PartitionChange) (target : List NodeId) : Prop where
  disjoint : change.adding.Disjoint change.removing
  kept_eq : keep change.removing change.replicas = target

theorem keep_nil (nodes : List NodeId) : keep [] nodes = nodes := by
  simp [keep]

variable {change : PartitionChange}

theorem PartitionChange.Sound.keep_only (h : change.Sound)
    (dropped : List NodeId) (hne : keep dropped change.isr ≠ []) :
    PartitionChange.Sound ⟨keep dropped change.replicas, keep dropped change.isr, [], []⟩ where
  nodup := h.nodup.filter _
  isr_subset n hn := by
    obtain ⟨hisr, hkept⟩ := mem_keep.mp hn
    exact mem_keep.mpr ⟨h.isr_subset hisr, hkept⟩
  isr_ne := hne
  adding_nodup := .nil
  adding_subset := nil_subset _
  removing_nodup := .nil
  removing_subset := nil_subset _

theorem PartitionChange.Sound.completeIfReady (h : change.Sound) :
    change.completeIfReady.Sound := by
  unfold PartitionChange.completeIfReady
  split
  · rename_i done hdone
    obtain ⟨-, ⟨hisr, -⟩, -, -, rfl⟩ := maybeCompleteReassignment_eq_some.mp hdone
    exact h.keep_only change.removing hisr
  · exact h

variable {target : List NodeId}

theorem PartitionChange.Heads.completeIfReady
    (h : change.Heads target) : change.completeIfReady.Heads target := by
  unfold PartitionChange.completeIfReady
  split
  · rename_i done hdone
    obtain ⟨-, -, -, -, rfl⟩ := maybeCompleteReassignment_eq_some.mp hdone
    exact ⟨disjoint_nil_left _, (keep_nil _).trans h.kept_eq⟩
  · exact h

/-! ## A start -/

/-- The lists that a start keeps agree with its target: a start that adds no
replica keeps an adding list within the target, and a start that drops no
replica keeps no removing list. -/
def Agrees (pr : PartitionRecord) (target : List NodeId) : Prop :=
  (target ⊆ pr.replicas → pr.addingReplicas ⊆ target) ∧
    (pr.replicas ⊆ target → pr.removingReplicas = [])

instance (pr : PartitionRecord) (target : List NodeId) : Decidable (Agrees pr target) :=
  inferInstanceAs (Decidable (_ ∧ _))

theorem addingDiff_eq_nil {replicas : List NodeId} :
    addingDiff replicas target = [] ↔ target ⊆ replicas := by
  rw [eq_nil_iff_forall_not_mem]
  constructor
  · intro h n hn
    by_contra hnot
    exact h n (mem_addingDiff.mpr ⟨hn, hnot⟩)
  · intro h n hn
    obtain ⟨htarget, hnot⟩ := mem_addingDiff.mp hn
    exact hnot (h htarget)

theorem removingDiff_eq_nil {replicas : List NodeId} :
    removingDiff replicas target = [] ↔ replicas ⊆ target := by
  rw [eq_nil_iff_forall_not_mem]
  constructor
  · intro h n hn
    by_contra hnot
    exact h n (mem_removingDiff.mpr ⟨hn, hnot⟩)
  · intro h n hn
    obtain ⟨hreplica, hnot⟩ := mem_removingDiff.mp hn
    exact hnot (h hreplica)

theorem subset_startChange_replicas (pr : PartitionRecord) (target : List NodeId) :
    pr.replicas ⊆ (startChange pr target).replicas := by
  intro n hn
  by_cases htarget : n ∈ target
  · exact mem_append_left _ htarget
  · exact mem_append_right _ (mem_removingDiff.mpr ⟨hn, htarget⟩)

variable {pr : PartitionRecord}

theorem startChange_sound
    (h : pr.assignment.Sound) (hnodup : target.Nodup) : (startChange pr target).Sound where
  nodup := by
    refine List.Nodup.append hnodup (nodup_removingDiff _ _) ?_
    intro n htarget hremoving
    exact (mem_removingDiff.mp hremoving).2 htarget
  isr_subset := List.Subset.trans h.isr_subset (subset_startChange_replicas pr target)
  isr_ne := h.isr_ne
  adding_nodup := by
    change (if _ then _ else _ : List NodeId).Nodup
    split
    · exact h.adding_nodup
    · exact nodup_addingDiff _ _
  adding_subset := by
    change (if _ then _ else _ : List NodeId) ⊆ _
    split
    · exact List.Subset.trans h.adding_subset (subset_startChange_replicas pr target)
    · intro n hn
      exact mem_append_left _ (mem_addingDiff.mp hn).1
  removing_nodup := by
    change (if _ then _ else _ : List NodeId).Nodup
    split
    · exact h.removing_nodup
    · exact nodup_removingDiff _ _
  removing_subset := by
    change (if _ then _ else _ : List NodeId) ⊆ _
    split
    · exact List.Subset.trans h.removing_subset (subset_startChange_replicas pr target)
    · exact subset_append_right _ _

theorem startChange_adding_subset
    (h : Agrees pr target) : (startChange pr target).adding ⊆ target := by
  change (if _ then _ else _ : List NodeId) ⊆ _
  split
  · rename_i hnone
    exact h.1 (addingDiff_eq_nil.mp hnone)
  · intro n hn
    exact (mem_addingDiff.mp hn).1

theorem startChange_removing (h : Agrees pr target) :
    (startChange pr target).removing = removingDiff pr.replicas target := by
  change (if _ then _ else _ : List NodeId) = _
  split
  · rename_i hnone
    rw [h.2 (removingDiff_eq_nil.mp hnone), hnone]
  · rfl

theorem startChange_heads (h : Agrees pr target) : (startChange pr target).Heads target where
  disjoint := by
    intro n hadding hremoving
    rw [startChange_removing h] at hremoving
    exact (mem_removingDiff.mp hremoving).2 (startChange_adding_subset h hadding)
  kept_eq := by
    rw [startChange_removing h]
    change keep _ (target ++ removingDiff pr.replicas target) = target
    have htarget : keep (removingDiff pr.replicas target) target = target := by
      rw [keep, filter_eq_self]
      intro n hn
      simpa using fun hremoving => (mem_removingDiff.mp hremoving).2 hn
    have hremoved :
        keep (removingDiff pr.replicas target) (removingDiff pr.replicas target) = [] := by
      rw [keep, filter_eq_nil_iff]
      intro n hn
      simpa using hn
    rw [keep, filter_append]
    exact (congrArg₂ (· ++ ·) htarget hremoved).trans (append_nil _)

/-! ## The record that a row leaves -/

theorem PartitionChange.leader_mem {recorded leader : NodeId}
    (h : change.leader recorded = some leader) : leader ∈ change.isr := by
  unfold PartitionChange.leader at h
  split_ifs at h with hrecorded
  · exact Option.some.inj h ▸ hrecorded
  · simpa using find?_some h

structure PartitionRecord.Assigned (pr : PartitionRecord) : Prop where
  sound : pr.assignment.Sound
  leader_mem : pr.leader ∈ pr.isr
  directories_length : pr.directories.length = pr.replicas.length

/-- `next` is `pr` after a step, and its assignment is `change`. -/
structure Follows (pr : PartitionRecord) (change : PartitionChange) (next : PartitionRecord) :
    Prop where
  assignment_eq : next.assignment = change
  leader_mem : next.leader ∈ change.isr
  directories : KeepsDirectories pr next

theorem Follows.assigned {next : PartitionRecord}
    (h : Follows pr change next) (hsound : change.Sound) : next.Assigned where
  sound := h.assignment_eq ▸ hsound
  leader_mem := by
    have hisr : next.isr = change.isr := congrArg PartitionChange.isr h.assignment_eq
    exact hisr ▸ h.leader_mem
  directories_length := h.directories.length_eq

variable {result : Option PartitionRecord}

theorem build_follows (hpr : pr.Assigned) {mode : Bool × Bool × Bool}
    (h : build pr change mode = .ok result) : Follows pr change (result.getD pr) := by
  unfold build at h
  split at h
  · cases h
  · rename_i leader hleader
    by_cases hnothing : change.changesNothing pr leader = true
    · rw [if_pos hnothing] at h
      cases h
      simp only [PartitionChange.changesNothing, Bool.and_eq_true, decide_eq_true_eq] at hnothing
      obtain ⟨⟨⟨⟨hkept, hreplicas⟩, hisr⟩, hadding⟩, hremoving⟩ := hnothing
      refine ⟨?_, hkept ▸ PartitionChange.leader_mem hleader, ?_⟩
      · cases change
        simp_all [assignment]
      · exact keepsDirectories_of_eq hpr.directories_length rfl rfl
    · rw [if_neg hnothing] at h
      dsimp only at h
      split at h
      · cases h
      · split at h
        · cases h
        · cases h
          refine ⟨rfl, PartitionChange.leader_mem hleader, ?_⟩
          exact keepsDirectories_of_remap hpr.sound.nodup hpr.directories_length rfl

theorem revertChange_sound (hpr : pr.Assigned) {unclean : Bool}
    (h : revertChange pr unclean = .ok change) : change.Sound := by
  unfold revertChange at h
  split at h
  · rename_i hne
    cases h
    exact hpr.sound.keep_only pr.addingReplicas hne
  · split at h
    · cases h
    · rename_i first hfirst
      split at h
      · cases h
        refine ⟨hpr.sound.nodup.filter _, ?_, cons_ne_nil _ _, .nil, nil_subset _, .nil,
          nil_subset _⟩
        exact cons_subset.mpr ⟨mem_of_head? hfirst, nil_subset _⟩
      · cases h

theorem cancelPath_follows (hpr : pr.Assigned) {approved unclean : Bool}
    (h : cancelPath pr approved unclean = .ok result) :
    ∃ change : PartitionChange, change.Sound ∧ Follows pr change (result.getD pr) := by
  unfold cancelPath at h
  split at h
  · cases h
  · split at h
    · cases h
    · split at h
      · cases h
      · rename_i change hchange
        exact ⟨change, revertChange_sound hpr hchange, build_follows hpr h⟩

/-! ## The background step -/

def handedOver (pr : PartitionRecord) (leader : NodeId) : PartitionRecord :=
  { pr with leader, leaderEpoch := pr.leaderEpoch + 1, partitionEpoch := pr.partitionEpoch + 1 }

def completed (pr : PartitionRecord) : PartitionRecord :=
  { pr with
    replicas := keep pr.removingReplicas pr.replicas
    isr := keep pr.removingReplicas pr.isr
    addingReplicas := []
    removingReplicas := []
    directories :=
      remapDirectories pr.replicas pr.directories (keep pr.removingReplicas pr.replicas)
    partitionEpoch := pr.partitionEpoch + 1 }

/-- Whether the assignment of a record may complete. -/
def PartitionRecord.ready (pr : PartitionRecord) : Bool :=
  (maybeCompleteReassignment pr.replicas pr.isr pr.addingReplicas pr.removingReplicas).isSome

variable {alive : NodeId → Bool}

theorem reassignOne_cases {next : PartitionRecord} (h : reassignOne pr alive = some next) :
    pr.ready ∧
      ((pr.leader ∈ pr.removingReplicas ∧ ∃ leader ∈ keep pr.removingReplicas pr.replicas,
          leader ∈ pr.isr ∧ next = handedOver pr leader) ∨
        (pr.leader ∉ pr.removingReplicas ∧ next = completed pr)) := by
  unfold reassignOne at h
  dsimp only at h
  split at h
  · rename_i index haction
    obtain ⟨leader, hleader, h⟩ := Option.bind_eq_some_iff.mp h
    obtain ⟨leaderEpoch, hl, h⟩ := Option.bind_eq_some_iff.mp h
    obtain ⟨partitionEpoch, hp, h⟩ := Option.bind_eq_some_iff.mp h
    cases Option.some.inj h
    cases (nextI32_eq_some.mp hl).2
    cases (nextI32_eq_some.mp hp).2
    unfold reassignmentAction at haction
    split_ifs at haction with hready hremoved
    rw [Bool.not_eq_true', Bool.not_eq_false] at hready
    refine ⟨hready, .inl ⟨by simpa using hremoved, leader, List.mem_of_getElem? hleader, ?_, rfl⟩⟩
    split at haction
    · rename_i i hi
      cases haction
      obtain ⟨hlt, htrue, -⟩ := List.findIdx?_eq_some_iff_getElem.mp hi
      rw [List.getElem_map] at htrue
      obtain ⟨_, hget⟩ := List.getElem?_eq_some_iff.mp hleader
      rw [hget] at htrue
      simp only [decide_eq_true_eq, Bool.and_eq_true] at htrue
      exact htrue.1
    · cases haction
  · rename_i haction
    obtain ⟨done, hdone, h⟩ := Option.bind_eq_some_iff.mp h
    obtain ⟨partitionEpoch, hp, h⟩ := Option.bind_eq_some_iff.mp h
    cases Option.some.inj h
    cases (nextI32_eq_some.mp hp).2
    obtain ⟨-, -, -, -, rfl⟩ := maybeCompleteReassignment_eq_some.mp hdone
    refine ⟨?_, .inr ⟨?_, rfl⟩⟩
    · unfold ready
      rw [hdone]
      rfl
    · unfold reassignmentAction at haction
      split_ifs at haction with hready hremoved
      · simpa using hremoved
      · split at haction
        · cases haction
        · cases haction
  · cases h
  · cases h

theorem completed_follows (hpr : pr.Assigned) (hleader : pr.leader ∉ pr.removingReplicas) :
    Follows pr ⟨keep pr.removingReplicas pr.replicas, keep pr.removingReplicas pr.isr, [], []⟩
      (completed pr) where
  assignment_eq := rfl
  leader_mem := mem_keep.mpr ⟨hpr.leader_mem, hleader⟩
  directories := keepsDirectories_of_remap hpr.sound.nodup hpr.directories_length rfl

theorem ready_of_heads (hpr : pr.Assigned) (hheads : pr.assignment.Heads target)
    (hprogress : reassignmentInProgress pr = true) (hne : target ≠ [])
    (hisr : target ⊆ pr.isr) : pr.ready = true := by
  have hkept : keep pr.removingReplicas pr.replicas = target := hheads.kept_eq
  have htarget : ∀ n ∈ target, n ∈ keep pr.removingReplicas pr.isr := by
    intro n hn
    rw [← hkept] at hn
    exact mem_keep.mpr ⟨hisr (hkept ▸ hn), (mem_keep.mp hn).2⟩
  have hready : maybeCompleteReassignment pr.replicas pr.isr pr.addingReplicas
      pr.removingReplicas = some ⟨keep pr.removingReplicas pr.replicas,
        keep pr.removingReplicas pr.isr⟩ := by
    refine maybeCompleteReassignment_eq_some.mpr ⟨?_, ⟨?_, ?_⟩, ?_, ?_, rfl⟩
    · simpa [reassignmentInProgress, imp_iff_not_or] using hprogress
    · obtain ⟨n, hn⟩ := exists_mem_of_ne_nil _ hne
      exact ne_nil_of_mem (htarget n hn)
    · rw [hkept]
      exact hne
    · intro n hn
      apply htarget
      rw [← hkept]
      exact mem_keep.mpr ⟨hpr.sound.adding_subset hn, hheads.disjoint hn⟩
    · intro _ n hn
      exact htarget n (hkept ▸ hn)
  unfold ready
  rw [hready]
  rfl

theorem reassignOne_completes (hready : pr.ready = true)
    (hleader : pr.leader ∉ pr.removingReplicas) (hepoch : pr.partitionEpoch < i32Max)
    (alive : NodeId → Bool) : reassignOne pr alive = some (completed pr) := by
  obtain ⟨done, hdone⟩ := Option.isSome_iff_exists.mp hready
  obtain ⟨-, -, -, -, rfl⟩ := maybeCompleteReassignment_eq_some.mp hdone
  have hp : nextI32 pr.partitionEpoch = some (pr.partitionEpoch + 1) :=
    nextI32_eq_some.mpr ⟨hepoch, rfl⟩
  simp [reassignOne, reassignmentAction, hdone, hleader, hp, completed]

theorem reassignOne_hands_over (hready : pr.ready = true)
    (hleader : pr.leader ∈ pr.removingReplicas) {n : NodeId}
    (hn : n ∈ keep pr.removingReplicas pr.replicas) (hisr : n ∈ pr.isr) (halive : alive n = true)
    (hp : pr.partitionEpoch < i32Max) (hl : pr.leaderEpoch < i32Max) :
    ∃ leader ∈ keep pr.removingReplicas pr.replicas, leader ∈ pr.isr ∧
      reassignOne pr alive = some (handedOver pr leader) := by
  have hsome : ∃ next, reassignOne pr alive = some next := by
    unfold reassignOne
    dsimp only
    have hexists : ∃ i, findIdx? (· = true)
        ((keep pr.removingReplicas pr.replicas).map fun n => decide (n ∈ pr.isr) && alive n) =
          some i := by
      rw [← Option.isSome_iff_exists, findIdx?_isSome, any_eq_true]
      exact ⟨true, mem_map.mpr ⟨n, hn, by simp [hisr, halive]⟩, rfl⟩
    obtain ⟨i, hi⟩ := hexists
    have haction : reassignmentAction
        (maybeCompleteReassignment pr.replicas pr.isr pr.addingReplicas
          pr.removingReplicas).isSome
        (decide (pr.leader ∈ pr.removingReplicas))
        ((keep pr.removingReplicas pr.replicas).map fun n => decide (n ∈ pr.isr) && alive n) =
          .handoff i := by
      unfold ready at hready
      rw [reassignmentAction, hready, decide_eq_true hleader, hi]
      rfl
    rw [haction]
    obtain ⟨hlt, -⟩ := findIdx?_eq_some_iff_getElem.mp hi
    rw [length_map] at hlt
    have hnextP := nextI32_eq_some.mpr ⟨hp, rfl⟩
    have hnextL := nextI32_eq_some.mpr ⟨hl, rfl⟩
    exact ⟨_, by simp [getElem?_eq_getElem hlt, nextLeader, hnextP, hnextL]; rfl⟩
  obtain ⟨next, hnext⟩ := hsome
  obtain ⟨-, ⟨-, leader, hmem, hin, rfl⟩ | ⟨hnot, -⟩⟩ := reassignOne_cases hnext
  · exact ⟨leader, hmem, hin, hnext⟩
  · exact absurd hleader hnot

/-! ## Runs -/

/-- A record, and the record and target of the last accepted row when that row
was a start. -/
structure Tracked where
  record : PartitionRecord
  lastStart : Option (PartitionRecord × List NodeId)
  deriving DecidableEq

/-- What moves the record: an accepted row, an ISR change (which may move the
leader within the ISR), and `reassign_one`. -/
inductive ReassignmentOp where
  | alter (image : Image) (target : Option (List Int)) (allowRfChange cancelApproved : Bool)
  | isrChange (leader : NodeId) (isr : List NodeId) (leaderEpoch partitionEpoch : Int)
  | reassign (alive : NodeId → Bool)

/-- The start that a row asks for, when its target is accepted. -/
def acceptedStart (image : Image) (pr : PartitionRecord) (target : Option (List Int))
    (allowRfChange : Bool) : Option (PartitionRecord × List NodeId) :=
  match target with
  | none => none
  | some ids =>
    match acceptTarget image pr ids allowRfChange with
    | .ok nodes => some (pr, nodes)
    | .error _ => none

/-- One step.  A row is planned against an image that holds the record, and a
refused row is no step. -/
def Tracked.step (s : Tracked) : ReassignmentOp → Option Tracked
  | .alter image target allowRfChange cancelApproved =>
    if image.partition s.record.topic s.record.partition = some s.record then
      match processOnePartition image s.record.topic s.record.partition target allowRfChange
          cancelApproved with
      | .ok result => some
          { record := result.getD s.record
            lastStart := acceptedStart image s.record target allowRfChange }
      | .error _ => none
    else none
  | .isrChange leader isr leaderEpoch partitionEpoch =>
    if leader ∈ isr ∧ isr ⊆ s.record.replicas then
      some { s with record := { s.record with leader, isr, leaderEpoch, partitionEpoch } }
    else none
  | .reassign alive => (reassignOne s.record alive).map fun next => { s with record := next }

/-- The runs from a valid record with no reassignment in flight. -/
def reassignments : TransitionSystem Tracked ReassignmentOp where
  init s := s.record.Valid ∧ s.record.addingReplicas = [] ∧ s.record.removingReplicas = [] ∧
    s.record.directories.length = s.record.replicas.length ∧ s.lastStart = none
  step s op s' := s.step op = some s'

/-- The invariant: the record keeps its shape, and it heads for the last target
when the start agreed with it. -/
structure Tracked.Inv (s : Tracked) : Prop where
  assigned : s.record.Assigned
  heads : ∀ before target, s.lastStart = some (before, target) → Agrees before target →
    s.record.assignment.Heads target ∧ target ≠ []

/-- What a step does to the record and to the last start. -/
inductive Tracked.Moves (s : Tracked) : Tracked → Prop
  /-- A cancel. -/
  | cancelled {change : PartitionChange} {next : PartitionRecord} (hsound : change.Sound)
      (hfollows : Follows s.record change next) : s.Moves ⟨next, none⟩
  /-- A start. -/
  | started {target : List NodeId} {next : PartitionRecord} (hne : target ≠ [])
      (hnodup : target.Nodup)
      (hfollows : Follows s.record (startChange s.record target).completeIfReady next) :
      s.Moves ⟨next, some (s.record, target)⟩
  /-- An ISR change or a handoff. -/
  | moved {isr : List NodeId} {next : PartitionRecord} (hisr : isr ⊆ s.record.replicas)
      (hfollows : Follows s.record { s.record.assignment with isr } next) :
      s.Moves ⟨next, s.lastStart⟩
  /-- A completion. -/
  | completes (hready : s.record.ready = true)
      (hleader : s.record.leader ∉ s.record.removingReplicas) :
        s.Moves ⟨completed s.record, s.lastStart⟩

variable {s s' : Tracked}

theorem step_moves (hs : s.record.Assigned) {op : ReassignmentOp}
    (h : s.step op = some s') : s.Moves s' := by
  cases op with
  | alter image target allowRfChange cancelApproved =>
    simp only [Tracked.step] at h
    split at h
    · rename_i hholds
      split at h
      · rename_i result hresult
        cases h
        rw [processOnePartition, hholds] at hresult
        cases target with
        | none =>
          obtain ⟨change, hsound, hfollows⟩ := cancelPath_follows hs hresult
          exact .cancelled hsound hfollows
        | some ids =>
          unfold acceptedStart
          dsimp only at hresult ⊢
          cases haccept : acceptTarget image s.record ids allowRfChange with
          | error e =>
            rw [haccept] at hresult
            cases hresult
          | ok nodes =>
            rw [haccept] at hresult
            obtain ⟨hne, hnodup⟩ := acceptTarget_ok haccept
            exact .started hne hnodup (build_follows hs hresult)
      · cases h
    · cases h
  | isrChange leader isr leaderEpoch partitionEpoch =>
    simp only [Tracked.step] at h
    split at h
    · rename_i hok
      cases h
      exact .moved hok.2 ⟨rfl, hok.1, keepsDirectories_of_eq hs.directories_length rfl rfl⟩
    · cases h
  | reassign alive =>
    obtain ⟨next, hnext, rfl⟩ := Option.map_eq_some_iff.mp h
    obtain ⟨hready, ⟨-, leader, -, hisr, rfl⟩ | ⟨hleader, rfl⟩⟩ := reassignOne_cases hnext
    · exact .moved hs.sound.isr_subset
        ⟨rfl, hisr, keepsDirectories_of_eq hs.directories_length rfl rfl⟩
    · exact .completes hready hleader

theorem Tracked.Moves.keepsDirectories (hs : s.record.Assigned) (h : s.Moves s') :
    KeepsDirectories s.record s'.record := by
  cases h with
  | cancelled _ hfollows | started _ _ hfollows | moved _ hfollows => exact hfollows.directories
  | completes _ hleader => exact (completed_follows hs hleader).directories

theorem Tracked.Moves.assigned (hs : s.record.Assigned) (h : s.Moves s') : s'.record.Assigned := by
  cases h with
  | cancelled hsound hfollows => exact hfollows.assigned hsound
  | started _ hnodup hfollows =>
    exact hfollows.assigned (startChange_sound hs.sound hnodup).completeIfReady
  | moved hisr hfollows =>
    exact hfollows.assigned { hs.sound with
      isr_subset := hisr
      isr_ne := ne_nil_of_mem hfollows.leader_mem }
  | completes _ hleader =>
    refine (completed_follows hs hleader).assigned (hs.sound.keep_only _ ?_)
    exact ne_nil_of_mem (mem_keep.mpr ⟨hs.leader_mem, hleader⟩)

theorem Tracked.Inv.moves (hs : s.Inv) (h : s.Moves s') : s'.Inv := by
  refine ⟨h.assigned hs.assigned, ?_⟩
  intro before target hlast hagrees
  cases h with
  | cancelled => cases hlast
  | started hne _ hfollows =>
    cases hlast
    rw [hfollows.assignment_eq]
    exact ⟨(startChange_heads hagrees).completeIfReady, hne⟩
  | moved _ hfollows =>
    obtain ⟨hheads, hne⟩ := hs.heads before target hlast hagrees
    rw [hfollows.assignment_eq]
    exact ⟨⟨hheads.disjoint, hheads.kept_eq⟩, hne⟩
  | completes =>
    obtain ⟨hheads, hne⟩ := hs.heads before target hlast hagrees
    exact ⟨⟨disjoint_nil_left _, (keep_nil _).trans hheads.kept_eq⟩, hne⟩

theorem Tracked.inv_of_reachable (h : reassignments.Reachable s) : s.Inv := by
  refine h.invariant ?_ ?_
  · rintro s ⟨hvalid, hadding, hremoving, hlen, hstart⟩
    refine ⟨⟨?_, hvalid.leader_mem, hlen⟩, ?_⟩
    · refine ⟨hvalid.nodup, hvalid.isr_subset, ne_nil_of_mem hvalid.leader_mem,
        ?_, ?_, ?_, ?_⟩
      all_goals simp [assignment, hadding, hremoving]
    · intro before target hlast
      rw [hstart] at hlast
      cases hlast
  · intro s op s' hs hstep
    exact hs.moves (step_moves hs.assigned hstep)

/-- At most two `reassign_one` steps lead from `pr` to `next`. -/
def ReassignsTo (pr next : PartitionRecord) (alive alive' : NodeId → Bool) : Prop :=
  reassignOne pr alive = some next ∨
    ∃ mid, reassignOne pr alive = some mid ∧ reassignOne mid alive' = some next

/-- With the target in the ISR and alive, the leader is handed over if it is
being removed, and the reassignment completes. -/
theorem reassignsTo_completed
    (hpr : pr.Assigned) (hheads : pr.assignment.Heads target) (hne : target ≠ [])
    (hprogress : reassignmentInProgress pr = true) (hp : pr.partitionEpoch + 1 < i32Max)
    (hl : pr.leaderEpoch < i32Max) (alive' : NodeId → Bool)
    (htarget : ∀ n ∈ target, n ∈ pr.isr ∧ alive n = true) :
    ∃ next, ReassignsTo pr next alive alive' ∧ reassignmentInProgress next = false ∧
      next.replicas = target ∧ next.leader ∈ next.isr := by
  have hready : pr.ready = true :=
    ready_of_heads hpr hheads hprogress hne fun n hn => (htarget n hn).1
  by_cases hleader : pr.leader ∈ pr.removingReplicas
  · obtain ⟨n, hn⟩ := exists_mem_of_ne_nil _ hne
    have hkept : n ∈ keep pr.removingReplicas pr.replicas := by
      rw [show keep pr.removingReplicas pr.replicas = target from hheads.kept_eq]
      exact hn
    obtain ⟨leader, hmem, hisr, hstep⟩ := reassignOne_hands_over hready hleader hkept
      (htarget n hn).1 (htarget n hn).2 (by omega) hl
    -- The handoff changes neither the assignment nor what the completion waits for.
    have hready' : (handedOver pr leader).ready = true := hready
    have hmid := reassignOne_completes hready' (mem_keep.mp hmem).2 hp alive'
    refine ⟨_, .inr ⟨_, hstep, hmid⟩, rfl, hheads.kept_eq, ?_⟩
    exact mem_keep.mpr ⟨hisr, (mem_keep.mp hmem).2⟩
  · have hstep := reassignOne_completes hready hleader (by omega) alive
    exact ⟨_, .inl hstep, rfl, hheads.kept_eq, mem_keep.mpr ⟨hpr.leader_mem, hleader⟩⟩

/-- In every record of a run the adding and removing replicas are sets within
the replicas, the directories run parallel to the replicas, and a broker that
stays keeps its directory.  After a start whose kept lists agree with its
target, and until the next accepted row, the two lists are disjoint, a
completion leaves exactly the target, and with the target in the ISR and alive
at most two `reassign_one` steps complete it while the epochs have room. -/
theorem reassignment_reaches_target {s : Tracked} (h : reassignments.Reachable s) :
    s.record.Assigned ∧
      (∀ op s', s.step op = some s' → KeepsDirectories s.record s'.record) ∧
      ∀ before target, s.lastStart = some (before, target) → Agrees before target →
        s.record.addingReplicas.Disjoint s.record.removingReplicas ∧
        (reassignmentInProgress s.record = false → s.record.replicas = target) ∧
        (reassignmentInProgress s.record = true → s.record.partitionEpoch + 1 < i32Max →
          s.record.leaderEpoch < i32Max → ∀ alive alive' : NodeId → Bool,
            (∀ n ∈ target, n ∈ s.record.isr ∧ alive n = true) →
              ∃ next, ReassignsTo s.record next alive alive' ∧
                reassignmentInProgress next = false ∧ next.replicas = target ∧
                next.leader ∈ next.isr) := by
  have hs := Tracked.inv_of_reachable h
  refine ⟨hs.assigned, ?_, ?_⟩
  · intro op s' hstep
    exact (step_moves hs.assigned hstep).keepsDirectories hs.assigned
  · intro before target hlast hagrees
    obtain ⟨hheads, hne⟩ := hs.heads before target hlast hagrees
    refine ⟨hheads.disjoint, ?_, ?_⟩
    · intro hidle
      have hremoving : s.record.removingReplicas = [] := by
        simp only [reassignmentInProgress, ne_eq, Bool.or_eq_false_iff, decide_eq_false_iff_not,
          not_not] at hidle
        exact hidle.2
      have hkept : keep s.record.removingReplicas s.record.replicas = target := hheads.kept_eq
      rwa [hremoving, keep_nil] at hkept
    · intro hprogress hp hl alive alive' htarget
      exact reassignsTo_completed hs.assigned hheads hne hprogress hp hl alive' htarget

def threeReplicas : PartitionRecord where
  topic := "foo"
  partition := 0
  leader := 1
  replicas := [1, 2, 3]
  isr := [1, 2, 3]
  leaderEpoch := 5
  addingReplicas := []
  removingReplicas := []
  directories := [11, 12, 13]
  partitionEpoch := 11

theorem threeReplicas_start : reassignments.Reachable ⟨threeReplicas, none⟩ :=
  .init ⟨⟨by decide, by decide, by decide⟩, rfl, rfl, rfl, rfl⟩

def fiveBrokers (pr : PartitionRecord) : Image where
  topics := [pr.topic]
  partitions := [pr]
  brokers := [1, 2, 3, 4, 5].map fun n => ⟨n⟩
  settings _ := ⟨false⟩

/-- The record after the start that moves the leader away, `[1, 2, 3]` to
`[4, 2]`. -/
def headingAway : PartitionRecord :=
  { threeReplicas with
    replicas := [4, 2, 1, 3]
    addingReplicas := [4]
    removingReplicas := [1, 3]
    directories := [0, 12, 11, 13]
    partitionEpoch := 12 }

theorem reassignment_reaches_target_handoff :
    ∃ next, ReassignsTo { headingAway with isr := [1, 2, 3, 4], partitionEpoch := 13 } next
      (fun _ => true) (fun _ => true) ∧ reassignmentInProgress next = false ∧
        next.replicas = [4, 2] ∧ next.leader ∈ next.isr := by
  have hsteps : foldlM Tracked.step ⟨threeReplicas, none⟩
      [.alter (fiveBrokers threeReplicas) (some [4, 2]) true true,
        .isrChange 1 [1, 2, 3, 4] 5 13] =
      some ⟨{ headingAway with isr := [1, 2, 3, 4], partitionEpoch := 13 },
        some (threeReplicas, [4, 2])⟩ := by decide +kernel
  have hrun := threeReplicas_start.foldlM (fun _ _ _ h => h) hsteps
  exact ((reassignment_reaches_target hrun).2.2 _ _ rfl (by decide)).2.2 (by decide) (by decide)
    (by decide) _ _ (by decide)

def headingForth : PartitionRecord :=
  { threeReplicas with
    replicas := [1, 2, 4, 3]
    addingReplicas := [4]
    removingReplicas := [3]
    directories := [11, 12, 0, 13]
    partitionEpoch := 12 }

/-- The record after a start of the original `[1, 2, 3]` over it: broker 4 is
being added and removed at once. -/
def headingBack : PartitionRecord :=
  { threeReplicas with
    replicas := [1, 2, 3, 4]
    addingReplicas := [4]
    removingReplicas := [4]
    directories := [11, 12, 13, 0]
    partitionEpoch := 13 }

/-- A start of the original replicas over one in flight keeps the old adding
list: the record is accepted, its lists overlap, and no `reassign_one` step ever
completes it although its target is in the ISR and alive. -/
theorem restart_of_original_stalls :
    ∃ s before, reassignments.Reachable s ∧ s.lastStart = some (before, [1, 2, 3]) ∧
      (∀ n ∈ [1, 2, 3], n ∈ s.record.isr) ∧ reassignmentInProgress s.record = true ∧
      ¬ s.record.addingReplicas.Disjoint s.record.removingReplicas ∧
      ∀ alive : NodeId → Bool, reassignOne s.record alive = none := by
  have hsteps : foldlM Tracked.step ⟨threeReplicas, none⟩
      [.alter (fiveBrokers threeReplicas) (some [1, 2, 4]) true true,
        .alter (fiveBrokers headingForth) (some [1, 2, 3]) true true] =
      some ⟨headingBack, some (headingForth, [1, 2, 3])⟩ := by decide +kernel
  have hrun := threeReplicas_start.foldlM (fun _ _ _ h => h) hsteps
  have hboth : 4 ∈ headingBack.addingReplicas ∧ 4 ∈ headingBack.removingReplicas := by decide
  refine ⟨_, _, hrun, rfl, by decide, rfl, fun hdisjoint => hdisjoint hboth.1 hboth.2, ?_⟩
  intro alive
  have hwaits : headingBack.ready = false := by decide
  cases hstep : reassignOne headingBack alive with
  | none => rfl
  | some next => exact absurd (reassignOne_cases hstep).1 (by rw [hwaits]; exact Bool.false_ne_true)

end Krabka.Controller

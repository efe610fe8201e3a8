import Krabka.Controller.Image

/-!
# Partition reassignment

`process_one_partition` plans one row of an `AlterPartitionReassignments`
request (`alter_partition_reassignments/plan.rs`): a start towards a target, or
a cancel.  `reassign_one` moves a reassignment in flight forward
(`reassignment/policy.rs`): it hands the leadership over, completes, or waits.
Both complete through `maybe_complete_reassignment`.
-/

namespace Krabka.Controller

open SortedSet List

inductive RowCode where
  | unknownTopicOrPartition
  | invalidReplicationFactor
  | invalidReplicaAssignment
  | invalidRequest
  | policyViolation
  | eligibleLeadersNotAvailable
  | noReassignmentInProgress
  deriving DecidableEq

structure RowError where
  code : RowCode
  message : String
  deriving DecidableEq

/-! ## Completion and the background step -/

/-- `remap_directories`: a replica that stays keeps its directory, and a new one
has none yet.  Of two entries for one broker the later one counts, as in the
source's hash map. -/
def remapDirectories (oldReplicas : List NodeId) (oldDirectories : List Uuid)
    (newReplicas : List NodeId) : List Uuid :=
  newReplicas.map fun n =>
    ((oldReplicas.zip oldDirectories).reverse.lookup n).getD Uuid.nil

/-- The `keep` of `maybe_complete_reassignment`: what is not being removed. -/
def keep (removing nodes : List NodeId) : List NodeId := nodes.filter fun n => n ∉ removing

structure CompletedReassignment where
  replicas : List NodeId
  isr : List NodeId
  deriving DecidableEq

def maybeCompleteReassignment (replicas isr adding removing : List NodeId) :
    Option CompletedReassignment :=
  if adding = [] ∧ removing = [] then none
  else if keep removing isr = [] ∨ keep removing replicas = [] then none
  else if ¬ ∀ n ∈ adding, n ∈ keep removing isr then none
  else if adding.length < removing.length ∧
      ¬ ∀ n ∈ keep removing replicas, n ∈ keep removing isr then none
  else some ⟨keep removing replicas, keep removing isr⟩

inductive ReassignmentAction where
  | waitForReplication
  | waitForLeader
  | handoff (index : Nat)
  | complete
  deriving DecidableEq

/-- `reassignment_action`: the loop over the eligible handoffs takes the first
one. -/
def reassignmentAction (completionReady leaderRemoved : Bool) (eligibleHandoffs : List Bool) :
    ReassignmentAction :=
  if !completionReady then .waitForReplication
  else if !leaderRemoved then .complete
  else
    match eligibleHandoffs.findIdx? (· = true) with
    | some i => .handoff i
    | none => .waitForLeader

variable (pr : PartitionRecord)

def reassignOne (alive : NodeId → Bool) : Option PartitionRecord :=
  let target := keep pr.removingReplicas pr.replicas
  let eligibleHandoffs := target.map fun n => decide (n ∈ pr.isr) && alive n
  let completed :=
    maybeCompleteReassignment pr.replicas pr.isr pr.addingReplicas pr.removingReplicas
  match reassignmentAction completed.isSome (decide (pr.leader ∈ pr.removingReplicas))
      eligibleHandoffs with
  | .handoff index => do
    let newLeader ← target[index]?
    let leaderEpoch ← nextLeader pr.leaderEpoch
    let partitionEpoch ← nextI32 pr.partitionEpoch
    return { pr with leader := newLeader, leaderEpoch, partitionEpoch }
  | .complete => do
    let done ← completed
    let partitionEpoch ← nextI32 pr.partitionEpoch
    return { pr with
      replicas := done.replicas
      isr := done.isr
      addingReplicas := []
      removingReplicas := []
      directories := remapDirectories pr.replicas pr.directories done.replicas
      partitionEpoch }
  | .waitForReplication => none
  | .waitForLeader => none

/-! ## One row of a request -/

def reassignmentInProgress : Bool :=
  pr.addingReplicas ≠ [] || pr.removingReplicas ≠ []

def unknownPartition (image : Image) (topic : String) (index : Int) : RowError where
  code := .unknownTopicOrPartition
  message :=
    if topic ∈ image.topics then s!"Unable to find partition {topic}:{index}."
    else s!"Unable to find a topic named {topic}."

/-- The walk of `validate_target` over the sorted target. -/
def targetFault (image : Image) : Option Int → List Int → Option RowError
  | _, [] => none
  | previous, id :: rest =>
    if ¬ ((nodeOfWire id).bind image.broker).isSome then
      some ⟨.invalidReplicaAssignment,
        s!"The manual partition assignment includes broker {id}, but no such broker " ++
          "is registered."⟩
    else if previous = some id then
      some ⟨.invalidReplicaAssignment,
        s!"The manual partition assignment includes the broker {id} more than once."⟩
    else targetFault image (some id) rest

def validateTarget (target : List Int) (image : Image) : Except RowError (List NodeId) :=
  if target = [] then
    .error ⟨.invalidReplicaAssignment,
      "The manual partition assignment includes an empty replica list."⟩
  else
    match targetFault image none (target.insertionSort (· ≤ ·)) with
    | some fault => .error fault
    | none =>
      match target.mapM nodeOfWire with
      | some nodes => .ok nodes
      | none => .error ⟨.invalidReplicaAssignment, "negative broker id"⟩

/-- `validate_replication_factor_unchanged`: the number of replicas that the
partition is headed for, or the refusal. -/
def validateReplicationFactorUnchanged (targetLen : Nat) : Except RowError Unit :=
  let current :=
    if reassignmentInProgress pr then
      (keep pr.removingReplicas (ofList (pr.replicas ++ pr.addingReplicas)).elems).length
    else pr.replicas.length
  if current = targetLen then .ok ()
  else
    .error ⟨.invalidReplicationFactor,
      s!"The replication factor is changed from {current} to {targetLen}"⟩

/-- `PartitionChange`: the replica state that a row asks for. -/
structure PartitionChange where
  replicas : List NodeId
  isr : List NodeId
  adding : List NodeId
  removing : List NodeId
  deriving DecidableEq

variable (change : PartitionChange)

def PartitionChange.completeIfReady : PartitionChange :=
  match maybeCompleteReassignment change.replicas change.isr change.adding change.removing with
  | some done => { replicas := done.replicas, isr := done.isr, adding := [], removing := [] }
  | none => change

def reassignmentPlanAdmission (mode : Bool × Bool × Bool) (start readiness : Bool × Bool) : Bool :=
  readiness.1 && readiness.2 &&
    if mode.1 then mode.2.1 && mode.2.2 else start.1 && start.2

/-- The leader of `build`: the recorded one while it is in the ISR, or the first
replica that is. -/
def PartitionChange.leader (recorded : NodeId) : Option NodeId :=
  if recorded ∈ change.isr then some recorded
  else change.replicas.find? fun n => n ∈ change.isr

def PartitionChange.changesNothing (pr : PartitionRecord) (leader : NodeId) : Bool :=
  leader = pr.leader && change.replicas = pr.replicas && change.isr = pr.isr &&
    change.adding = pr.addingReplicas && change.removing = pr.removingReplicas

def build (mode : Bool × Bool × Bool) : Except RowError (Option PartitionRecord) :=
  match change.leader pr.leader with
  | none => .error ⟨.eligibleLeadersNotAvailable, "no eligible leader for the reassignment"⟩
  | some leader =>
    if change.changesNothing pr leader then .ok none
    else
      let bumpLeaderEpoch := leader ≠ pr.leader || !(pr.replicas.all fun n => n ∈ change.replicas)
      match nextPartitionChange pr.partitionEpoch pr.leaderEpoch bumpLeaderEpoch with
      | none => .error ⟨.invalidRequest, "partition metadata epoch is exhausted"⟩
      | some (partitionEpoch, leaderEpoch) =>
        if !reassignmentPlanAdmission mode (true, true) (true, true) then
          .error ⟨.invalidRequest, "reassignment admission failed"⟩
        else
          .ok (some { pr with
            leader
            replicas := change.replicas
            isr := change.isr
            leaderEpoch
            addingReplicas := change.adding
            removingReplicas := change.removing
            directories := remapDirectories pr.replicas pr.directories change.replicas
            partitionEpoch })

/-- The change that `cancel_path` builds: every adding replica leaves the replica
list and the ISR.  An ISR of adding replicas only reverts to the first replica
that stays, where the topic allows an unclean election. -/
def revertChange (uncleanEnabled : Bool) : Except RowError PartitionChange :=
  if keep pr.addingReplicas pr.isr ≠ [] then
    .ok ⟨keep pr.addingReplicas pr.replicas, keep pr.addingReplicas pr.isr, [], []⟩
  else
    match (keep pr.addingReplicas pr.replicas).head? with
    | none =>
      .error ⟨.invalidReplicaAssignment,
        "Invalid replica assignment: addingReplicas contains all replicas."⟩
    | some first =>
      if uncleanEnabled then .ok ⟨keep pr.addingReplicas pr.replicas, [first], [], []⟩
      else
        .error ⟨.invalidReplicaAssignment,
          s!"Unable to revert partition assignment for {pr.topic}:{pr.partition} because " ++
            "it would require an unclean leader election."⟩

def cancelPath (approved uncleanEnabled : Bool) : Except RowError (Option PartitionRecord) :=
  if !approved then
    .error ⟨.policyViolation, "a reassignment cancel needs an approved break-glass proposal"⟩
  else if !reassignmentInProgress pr then
    .error ⟨.noReassignmentInProgress, "No partition reassignment is in progress."⟩
  else
    match revertChange pr uncleanEnabled with
    | .error e => .error e
    | .ok change => build pr change (true, approved, true)

/-- The membership test of `start_path` for the adding list
(`reassignment_set_membership`), over every node that either list names. -/
def addingDiff (replicas target : List NodeId) : List NodeId :=
  (ofList ((replicas ++ target).filter fun n => n ∈ target ∧ n ∉ replicas)).elems

def removingDiff (replicas target : List NodeId) : List NodeId :=
  (ofList ((replicas ++ target).filter fun n => n ∈ replicas ∧ n ∉ target)).elems

/-- The change that `start_path` builds.  An empty difference keeps the list of
the record. -/
def startChange (target : List NodeId) : PartitionChange :=
  let adding := addingDiff pr.replicas target
  let removing := removingDiff pr.replicas target
  { replicas := target ++ removing
    isr := pr.isr
    adding := if adding = [] then pr.addingReplicas else adding
    removing := if removing = [] then pr.removingReplicas else removing }

def startPath (target : List NodeId) : Except RowError (Option PartitionRecord) :=
  build pr (startChange pr target).completeIfReady (false, false, false)

/-- The start half of `process_one_partition`: the target that is accepted. -/
def acceptTarget (image : Image) (pr : PartitionRecord) (target : List Int)
    (allowRfChange : Bool) : Except RowError (List NodeId) := do
  let nodes ← validateTarget target image
  if !allowRfChange then
    validateReplicationFactorUnchanged pr nodes.length
  return nodes

def processOnePartition (image : Image) (topic : String) (index : Int) (target : Option (List Int))
    (allowRfChange cancelApproved : Bool) : Except RowError (Option PartitionRecord) :=
  match image.partition topic index with
  | none => .error (unknownPartition image topic index)
  | some pr =>
    match target with
    | none => cancelPath pr cancelApproved (image.settings topic).uncleanEnabled
    | some target => do startPath pr (← acceptTarget image pr target allowRfChange)

/-! ## What each function does -/

variable {nodes : List NodeId} {n : NodeId}

theorem mem_keep {removing : List NodeId} : n ∈ keep removing nodes ↔ n ∈ nodes ∧ n ∉ removing := by
  simp [keep]

variable {replicas : List NodeId}

theorem mem_addingDiff {target : List NodeId} :
    n ∈ addingDiff replicas target ↔ n ∈ target ∧ n ∉ replicas := by
  rw [addingDiff, mem_elems, ofList, mem_foldl_insert]
  simp only [mem_filter, mem_append, notMem_empty, decide_eq_true_eq]
  tauto

theorem mem_removingDiff {target : List NodeId} :
    n ∈ removingDiff replicas target ↔ n ∈ replicas ∧ n ∉ target := by
  rw [removingDiff, mem_elems, ofList, mem_foldl_insert]
  simp only [mem_filter, mem_append, notMem_empty, decide_eq_true_eq]
  tauto

theorem nodup_addingDiff (replicas target : List NodeId) : (addingDiff replicas target).Nodup :=
  SortedMap.keys_nodup _

theorem nodup_removingDiff (replicas target : List NodeId) : (removingDiff replicas target).Nodup :=
  SortedMap.keys_nodup _

theorem maybeCompleteReassignment_eq_some {isr adding removing : List NodeId}
    {done : CompletedReassignment} :
    maybeCompleteReassignment replicas isr adding removing = some done ↔
      ¬ (adding = [] ∧ removing = []) ∧
      (keep removing isr ≠ [] ∧ keep removing replicas ≠ []) ∧
      (∀ n ∈ adding, n ∈ keep removing isr) ∧
      (adding.length < removing.length →
        ∀ n ∈ keep removing replicas, n ∈ keep removing isr) ∧
      done = ⟨keep removing replicas, keep removing isr⟩ := by
  unfold maybeCompleteReassignment
  split_ifs with hidle hempty hadding hshrinks
  · simp [hidle]
  · constructor
    · intro h
      cases h
    · rintro ⟨-, hne, -⟩
      exact absurd hempty (not_or.mpr hne)
  · constructor
    · intro h
      cases h
    · rintro ⟨-, -, -, hin, -⟩
      exact absurd (hin hshrinks.1) hshrinks.2
  · constructor
    · intro h
      refine ⟨hidle, not_or.mp hempty, hadding, ?_, (Option.some.inj h).symm⟩
      intro hlt
      by_contra hin
      exact hshrinks ⟨hlt, hin⟩
    · rintro ⟨-, -, -, -, rfl⟩
      rfl
  · constructor
    · intro h
      cases h
    · rintro ⟨-, -, hin, -⟩
      exact absurd hin hadding

/-! ### Directories -/

def PartitionRecord.directoryOf (n : NodeId) : Option Uuid :=
  (pr.replicas.zip pr.directories).lookup n

/-- The directories of `next` run parallel to its replicas, and a broker that
`pr` and `next` both list keeps its directory. -/
structure KeepsDirectories (pr next : PartitionRecord) : Prop where
  length_eq : next.directories.length = next.replicas.length
  kept : ∀ n ∈ pr.replicas, n ∈ next.replicas → next.directoryOf n = pr.directoryOf n

theorem lookup_reverse_of_nodup {l : List (NodeId × Uuid)} (h : (l.map Prod.fst).Nodup)
    (n : NodeId) : l.reverse.lookup n = l.lookup n := by
  induction l with
  | nil => rfl
  | cons e l ih =>
    obtain ⟨hnot, hl⟩ := nodup_cons.mp h
    rw [reverse_cons, lookup_append, ih hl, lookup_cons, lookup_cons]
    by_cases he : n = e.1
    · have hnone : l.lookup n = none := by
        rw [lookup_eq_none_iff]
        intro p hp
        rw [bne_iff_ne]
        intro hkey
        exact hnot (mem_map.mpr ⟨p, hp, hkey.symm.trans he⟩)
      simp [hnone]
    · have hbeq : (n == e.1) = false := beq_eq_false_iff_ne.mpr he
      simp [hbeq]

theorem lookup_zip_map (f : NodeId → Uuid) (l : List NodeId) (h : n ∈ l) :
    (l.zip (l.map f)).lookup n = some (f n) := by
  induction l with
  | nil => cases h
  | cons a l ih =>
    rw [map_cons, zip_cons_cons, lookup_cons]
    by_cases ha : n = a
    · simp [ha]
    · have hbeq : (n == a) = false := beq_eq_false_iff_ne.mpr ha
      simp only [hbeq]
      exact ih ((mem_cons.mp h).resolve_left ha)

variable {pr : PartitionRecord}

theorem keepsDirectories_of_remap {next : PartitionRecord} (hnodup : pr.replicas.Nodup)
    (hlen : pr.directories.length = pr.replicas.length)
    (hdirs : next.directories = remapDirectories pr.replicas pr.directories next.replicas) :
    KeepsDirectories pr next where
  length_eq := by rw [hdirs, remapDirectories, length_map]
  kept := by
    intro n hold hnew
    have hkeys : ((pr.replicas.zip pr.directories).map Prod.fst) = pr.replicas :=
      map_fst_zip hlen.ge
    have hfound : (pr.replicas.zip pr.directories).lookup n ≠ none := by
      rw [Ne, lookup_eq_none_iff]
      intro hall
      rw [← hkeys] at hold
      obtain ⟨p, hp, rfl⟩ := mem_map.mp hold
      simpa using hall p hp
    obtain ⟨d, hd⟩ := Option.ne_none_iff_exists'.mp hfound
    unfold PartitionRecord.directoryOf
    rw [hdirs, remapDirectories, lookup_zip_map _ _ hnew,
      lookup_reverse_of_nodup (by rw [hkeys]; exact hnodup), hd]
    rfl

theorem keepsDirectories_of_eq {next : PartitionRecord}
    (hlen : pr.directories.length = pr.replicas.length) (hreplicas : next.replicas = pr.replicas)
    (hdirs : next.directories = pr.directories) : KeepsDirectories pr next where
  length_eq := by rw [hreplicas, hdirs, hlen]
  kept n _ _ := by unfold PartitionRecord.directoryOf; rw [hreplicas, hdirs]

/-! ### Targets -/

variable {image : Image}

theorem targetFault_eq_none {previous : Option Int} {ids : List Int}
    (h : targetFault image previous ids = none) (hsorted : ids.Pairwise (· ≤ ·))
    (hprevious : ∀ p ∈ previous, ∀ id ∈ ids, p ≤ id) :
    ids.Pairwise (· < ·) ∧ ∀ p ∈ previous, ∀ id ∈ ids, p < id := by
  induction ids generalizing previous with
  | nil => exact ⟨.nil, nofun⟩
  | cons id rest ih =>
    rw [targetFault] at h
    split_ifs at h with hregistered hrepeat
    obtain ⟨hle, hrest⟩ := pairwise_cons.mp hsorted
    obtain ⟨hpair, hlt⟩ := ih h hrest fun p hp => by
      cases hp
      exact hle
    refine ⟨pairwise_cons.mpr ⟨hlt id rfl, hpair⟩, ?_⟩
    intro p hp
    have hne : p ≠ id := fun heq => hrepeat (heq ▸ hp)
    have hpid : p < id := lt_of_le_of_ne (hprevious p hp id mem_cons_self) hne
    intro id' hid'
    rcases mem_cons.mp hid' with rfl | hmem
    · exact hpid
    · exact hpid.trans (hlt id rfl id' hmem)

theorem mapM_nodeOfWire {ids : List Int}
    (h : ids.mapM nodeOfWire = some nodes) : ids = nodes.map Int.ofNat := by
  induction ids generalizing nodes with
  | nil =>
    cases Option.some.inj h
    rfl
  | cons id ids ih =>
    rw [mapM_cons] at h
    obtain ⟨node, hnode, h⟩ := Option.bind_eq_some_iff.mp h
    obtain ⟨rest, hrest, h⟩ := Option.bind_eq_some_iff.mp h
    cases Option.some.inj h
    rw [map_cons, ← ih hrest, nodeOfWire_eq_some.mp hnode]
    rfl

theorem validateTarget_ok {target : List Int}
    (h : validateTarget target image = .ok nodes) : nodes ≠ [] ∧ nodes.Nodup := by
  unfold validateTarget at h
  split_ifs at h with hempty
  split at h
  · cases h
  · rename_i hfault
    split at h
    · rename_i found hmap
      cases h
      have hids := mapM_nodeOfWire hmap
      refine ⟨?_, ?_⟩
      · rintro rfl
        exact hempty hids
      · have hlt := (targetFault_eq_none hfault (pairwise_insertionSort _ _)
          fun _ hp => absurd hp (Option.not_mem_none _)).1
        have hnodup : target.Nodup :=
          (perm_insertionSort (· ≤ ·) target).nodup_iff.mp (hlt.imp ne_of_lt)
        rw [hids] at hnodup
        exact List.Nodup.of_map _ hnodup
    · cases h

theorem acceptTarget_ok {target : List Int} {allow : Bool}
    (h : acceptTarget image pr target allow = .ok nodes) : nodes ≠ [] ∧ nodes.Nodup := by
  unfold acceptTarget at h
  cases hvalid : validateTarget target image with
  | error e =>
    rw [hvalid] at h
    cases h
  | ok found =>
    rw [hvalid] at h
    have hfound : nodes = found := by
      cases allow with
      | true => exact (Except.ok.inj h).symm
      | false =>
        cases hrf : validateReplicationFactorUnchanged pr found.length with
        | error e =>
          simp [Bind.bind, Except.bind, hrf] at h
        | ok u =>
          simp [Bind.bind, Except.bind, hrf, pure, Except.pure] at h
          exact h.symm
    exact hfound ▸ validateTarget_ok hvalid

end Krabka.Controller

import Krabka.ConsumerGroup.Records

/-!
# Replaying the records of a consumer group

`replay_next_gen.rs` with the rules of `replay_policy.rs`: how a coordinator
that loads the log applies one record to the seed of its group.  A record with a
value creates the group, a tombstone of a group that the replay does not hold
changes nothing, and a tombstone whose preconditions the earlier records did
not establish fails the load.

The result is `replay_pushRecords`: the records of one transition, in the order
in which they are written, replay to what `applyOwn` makes of the cached seed,
provided that they are `Replayable` from it.
-/

namespace Krabka.ConsumerGroup

open List GroupState SortedMap

/-! ## One record -/

def deletedAssignmentEpoch : Int := -1

/-- The member that a current assignment record creates. -/
def uninitializedMember : MemberMetadataValue where
  instanceId := none
  rackId := none
  clientId := ""
  clientHost := ""
  subscribedTopicNames := ∅
  subscribedTopicRegex := none
  serverAssignor := none

/-- `target_metadata`. -/
def targetMetadataError (v : TargetAssignmentMetadataValue) : Option String :=
  if v.assignmentEpoch < 0 ∧ v.assignmentEpoch ≠ deletedAssignmentEpoch then
    some "The assignment epoch must be non-negative or -1."
  else if v.assignmentTimestampMs < 0 then some "The assignment timestamp must be non-negative."
  else none

namespace GroupSeed

variable (seed : GroupSeed)

def installCurrentMember (id : String) (v : CurrentMemberAssignmentValue) : GroupSeed :=
  { seed with
    members := seed.members.orInsert id uninitializedMember
    currentPerMember := seed.currentPerMember.insert id v }

def removeReplayedMember (id : String) : GroupSeed :=
  { seed with
    members := seed.members.erase id
    currentPerMember := seed.currentPerMember.erase id }

/-- `member_tombstone`: whether the tombstone of a subscription removes the
member.  The member must have left and must have no target. -/
def memberTombstone (id : String) : Except String Bool :=
  if !seed.members.contains id then .ok false
  else if ((seed.currentPerMember.get? id).map CurrentMemberAssignmentValue.memberEpoch).getD 0 ≠
      leaveGroupMemberEpoch then
    .error (s!"Received a tombstone record to delete member {id} but did not receive " ++
      "ConsumerGroupCurrentMemberAssignmentValue tombstone.")
  else if seed.targetPerMember.contains id then
    .error (s!"Received a tombstone record to delete member {id} but did not receive " ++
      "ConsumerGroupTargetAssignmentMetadataValue tombstone.")
  else .ok true

/-- `target_metadata_tombstone`. -/
def targetMetadataTombstoneError (groupId : String) : Option String :=
  let targets := seed.targetPerMember.entries.length
  if targets = 0 then none
  else
    some (s!"Received a tombstone record to delete target assignment of {groupId} but the " ++
      s!"assignment still has {targets} members.")

/-- `group_tombstone`. -/
def groupTombstoneError (groupId : String) : Option String :=
  let members := seed.members.entries.length
  let targets := seed.targetPerMember.entries.length
  if members ≠ 0 then
    some (s!"Received a tombstone record to delete group {groupId} but the group still has " ++
      s!"{members} members.")
  else if targets ≠ 0 then
    some (s!"Received a tombstone record to delete group {groupId} but the target assignment " ++
      s!"still has {targets} members.")
  else if seed.targetEpoch ≠ deletedAssignmentEpoch then
    some (s!"Received a tombstone record to delete group {groupId} but did not receive " ++
      "ConsumerGroupTargetAssignmentMetadataValue tombstone.")
  else none

/-- The current assignment that a tombstone leaves. -/
def leftAssignment (id : String) : CurrentMemberAssignmentValue where
  memberEpoch := leaveGroupMemberEpoch
  previousMemberEpoch := leaveGroupMemberEpoch
  state := ((seed.currentPerMember.get? id).map CurrentMemberAssignmentValue.state).getD .stable
  assignedPartitions := SortedMap.empty
  partitionsPendingRevocation := SortedMap.empty

/-- `replay_next_gen_tombstone` of a group that the replay holds. -/
def replayTombstone (groupId : String) (seed : GroupSeed) :
    Record → Except String (Option GroupSeed)
  | .groupMetadata _ =>
    match seed.groupTombstoneError groupId with
    | some message => .error message
    | none => .ok none
  | .partitionMetadata _ => .ok (some { seed with hasSubscriptionMetadataRecord := false })
  | .memberMetadata id _ =>
    (seed.memberTombstone id).map fun remove =>
      some (if remove then seed.removeReplayedMember id else seed)
  | .targetMetadata _ =>
    match seed.targetMetadataTombstoneError groupId with
    | some message => .error message
    | none =>
      .ok (some { seed with targetEpoch := deletedAssignmentEpoch, assignmentTimestampMs := 0 })
  | .targetMember id _ => .ok (some { seed with targetPerMember := seed.targetPerMember.erase id })
  | .currentMember id _ =>
    .ok <| some <|
      if seed.members.contains id then
        { seed with currentPerMember := seed.currentPerMember.insert id (seed.leftAssignment id) }
      else seed
  | .regularExpression regex _ =>
    .ok (some { seed with resolvedRegexes := seed.resolvedRegexes.erase regex })

end GroupSeed

/-- One record applied to what the replay holds of its group. -/
def replayRecord (groupId : String) (seed : Option GroupSeed) (record : Record) :
    Except String (Option GroupSeed) :=
  let created := seed.getD GroupSeed.newGroup
  match record with
  | .groupMetadata (some v) =>
    .ok (some { created with groupEpoch := v.epoch, metadataHash := v.metadataHash })
  | .partitionMetadata (some _) => .ok (some { created with hasSubscriptionMetadataRecord := true })
  | .memberMetadata id (some v) =>
    .ok (some { created with members := created.members.insert id v })
  | .targetMetadata (some v) =>
    match targetMetadataError v with
    | some message => .error message
    | none =>
      .ok <| some
        { created with
          targetEpoch := v.assignmentEpoch
          assignmentTimestampMs := v.assignmentTimestampMs }
  | .targetMember id (some v) =>
    .ok (some { created with targetPerMember := created.targetPerMember.insert id v })
  | .currentMember id (some v) => .ok (some (created.installCurrentMember id v))
  | .regularExpression regex (some v) =>
    .ok (some { created with resolvedRegexes := created.resolvedRegexes.insert regex v })
  | tombstone =>
    match seed with
    | none => .ok none
    | some seed => seed.replayTombstone groupId tombstone

def replay (groupId : String) (seed : Option GroupSeed) (records : List Record) :
    Except String (Option GroupSeed) :=
  records.foldlM (replayRecord groupId) seed

variable {groupId : String} {seed : GroupSeed}

@[simp] theorem replay_nil (seed : Option GroupSeed) : replay groupId seed [] = .ok seed := rfl

theorem replay_cons_ok {seed next : Option GroupSeed} {record : Record} {records : List Record}
    (h : replayRecord groupId seed record = .ok next) :
    replay groupId seed (record :: records) = replay groupId next records := by
  unfold replay
  rw [foldlM_cons, h]
  rfl

theorem replay_append {seed next : Option GroupSeed} {first second : List Record}
    (h : replay groupId seed first = .ok next) :
    replay groupId seed (first ++ second) = replay groupId next second := by
  unfold replay at h ⊢
  rw [foldlM_append, h]
  rfl

/-! ## The families of a batch -/

theorem replay_memberMetadata {es : List (String × Option MemberMetadataValue)}
    (hes : ∀ e ∈ es, e.2.isSome) :
    replay groupId (some seed) (es.map fun e => .memberMetadata e.1 e.2) =
      .ok (some { seed with members := seed.members.patch es }) := by
  induction es generalizing seed with
  | nil => rfl
  | cons e es ih =>
    obtain ⟨id, value⟩ := e
    obtain ⟨v, rfl⟩ := Option.isSome_iff_exists.mp (hes (id, value) mem_cons_self)
    rw [map_cons, replay_cons_ok rfl]
    exact ih fun e he => hes e (mem_cons_of_mem _ he)

theorem replay_resolvedRegexes (es : List (String × Option ResolvedRegularExpression)) :
    replay groupId (some seed) (es.map fun e => .regularExpression e.1 e.2) =
      .ok (some { seed with resolvedRegexes := seed.resolvedRegexes.patch es }) := by
  induction es generalizing seed with
  | nil => rfl
  | cons e es ih =>
    obtain ⟨regex, value⟩ := e
    cases value with
    | none | some v => exact (replay_cons_ok rfl).trans ih

theorem replay_targetPerMember (es : List (String × Option Partitions)) :
    replay groupId (some seed) (es.map fun e => .targetMember e.1 e.2) =
      .ok (some { seed with targetPerMember := seed.targetPerMember.patch es }) := by
  induction es generalizing seed with
  | nil => rfl
  | cons e es ih =>
    obtain ⟨id, value⟩ := e
    cases value with
    | none | some v => exact (replay_cons_ok rfl).trans ih

theorem replay_currentPerMember {es : List (String × Option CurrentMemberAssignmentValue)}
    (hes : ∀ e ∈ es, e.2.isSome ∧ seed.members.contains e.1) :
    replay groupId (some seed) (es.map fun e => .currentMember e.1 e.2) =
      .ok (some { seed with currentPerMember := seed.currentPerMember.patch es }) := by
  induction es generalizing seed with
  | nil => rfl
  | cons e es ih =>
    obtain ⟨id, value⟩ := e
    obtain ⟨hsome, hheld⟩ := hes (id, value) mem_cons_self
    obtain ⟨v, rfl⟩ := Option.isSome_iff_exists.mp hsome
    have hinstall : seed.installCurrentMember id v =
        { seed with currentPerMember := seed.currentPerMember.insert id v } := by
      have hmembers : seed.members.orInsert id uninitializedMember = seed.members := if_pos hheld
      rw [GroupSeed.installCurrentMember, hmembers]
    have hstep : replayRecord groupId (some seed) (.currentMember id (some v)) =
        .ok (some (seed.installCurrentMember id v)) := rfl
    rw [map_cons, replay_cons_ok hstep, hinstall]
    exact ih fun e he => hes e (mem_cons_of_mem _ he)

def GroupSeed.withoutMember (seed : GroupSeed) (id : String) : GroupSeed :=
  { seed with
    members := seed.members.erase id
    currentPerMember := seed.currentPerMember.erase id
    targetPerMember := seed.targetPerMember.erase id }

/-- Only members have a current assignment. -/
def GroupSeed.OnlyMembers (seed : GroupSeed) : Prop :=
  ∀ id, seed.members.contains id = false → seed.currentPerMember.get? id = none

theorem GroupSeed.OnlyMembers.withoutMember (h : seed.OnlyMembers) (id : String) :
    (seed.withoutMember id).OnlyMembers := by
  intro x hx
  have hmember : ((seed.members.erase id).get? x).isSome = false := hx
  change (seed.currentPerMember.erase id).get? x = none
  rw [get?_erase] at hmember ⊢
  split_ifs at hmember ⊢ with hxid
  · rfl
  · exact h x hmember

variable {id : String}

theorem replay_removal (h : seed.OnlyMembers) (id : String) :
    replay groupId (some seed)
        [.currentMember id none, .targetMember id none, .memberMetadata id none] =
      .ok (some (seed.withoutMember id)) := by
  by_cases hheld : seed.members.contains id = true
  · -- The member is left without partitions and target, and then it goes.
    let left : GroupSeed :=
      { seed with
        currentPerMember := seed.currentPerMember.insert id (seed.leftAssignment id)
        targetPerMember := seed.targetPerMember.erase id }
    have hleft : left.memberTombstone id = .ok true := by
      have hno : (seed.targetPerMember.erase id).contains id = false := by simp [erase]
      unfold GroupSeed.memberTombstone
      dsimp only [left]
      rw [hheld, get?_insert, if_pos rfl, hno]
      rfl
    have hgone : left.removeReplayedMember id = seed.withoutMember id := by
      have herase : (seed.currentPerMember.insert id (seed.leftAssignment id)).erase id =
          seed.currentPerMember.erase id := by
        refine ext_get? fun x => ?_
        by_cases hx : x = id <;> simp [hx]
      unfold GroupSeed.removeReplayedMember GroupSeed.withoutMember
      dsimp only [left]
      rw [herase]
    have hcurrent : replayRecord groupId (some seed) (.currentMember id none) =
        .ok (some { seed with
          currentPerMember := seed.currentPerMember.insert id (seed.leftAssignment id) }) :=
      congrArg (fun s => Except.ok (some s)) (if_pos hheld)
    have htarget : replayRecord groupId (some { seed with
          currentPerMember := seed.currentPerMember.insert id (seed.leftAssignment id) })
        (.targetMember id none) = .ok (some left) := rfl
    rw [replay_cons_ok hcurrent, replay_cons_ok htarget]
    refine (replay_cons_ok ?_).trans (replay_nil _)
    change (left.memberTombstone id).map _ = _
    rw [hleft, ← hgone]
    rfl
  · -- A member that the replay does not hold has nothing to remove.
    rw [Bool.not_eq_true] at hheld
    have hmember : seed.members.get? id = none := Option.not_isSome_iff_eq_none.mp
      (by change ¬ seed.members.contains id = true; rw [hheld]; exact Bool.false_ne_true)
    have hsame : seed.withoutMember id =
        { seed with targetPerMember := seed.targetPerMember.erase id } := by
      unfold GroupSeed.withoutMember
      rw [erase_of_get? hmember, erase_of_get? (h id hheld)]
    have hcurrent : replayRecord groupId (some seed) (.currentMember id none) = .ok (some seed) :=
      congrArg (fun s => Except.ok (some s)) (if_neg (by rw [hheld]; exact Bool.false_ne_true))
    rw [replay_cons_ok hcurrent, hsame]
    refine (replay_cons_ok rfl).trans ((replay_cons_ok ?_).trans (replay_nil _))
    change (GroupSeed.memberTombstone _ id).map _ = _
    unfold GroupSeed.memberTombstone
    rw [hheld]
    rfl

theorem replay_removals (h : seed.OnlyMembers) (ids : List String) :
    replay groupId (some seed) (ids.flatMap fun id =>
        [.currentMember id none, .targetMember id none, .memberMetadata id none]) =
      .ok (some { seed with
        members := ids.foldl SortedMap.erase seed.members
        currentPerMember := ids.foldl SortedMap.erase seed.currentPerMember
        targetPerMember := ids.foldl SortedMap.erase seed.targetPerMember }) := by
  induction ids generalizing seed with
  | nil => rfl
  | cons id ids ih =>
    rw [flatMap_cons, replay_append (replay_removal h id)]
    exact ih (h.withoutMember id)

/-! ## A whole batch -/

/-- The records of a transition that may be replayed from the seed. -/
structure Replayable (p : PendingRecords) (seed : GroupSeed) : Prop where
  /-- A family names every id with one value. -/
  members : ∃ f : String → Option MemberMetadataValue, ∀ u ∈ p.memberMetadata, u.2 = f u.1
  target : ∃ f : String → Option Partitions, ∀ u ∈ p.targetPerMember, u.2 = f u.1
  current : ∃ f : String → Option CurrentMemberAssignmentValue,
    ∀ u ∈ p.currentPerMember, u.2 = f u.1
  /-- A member goes with all its records, and a current assignment goes only
  with its member. -/
  removed : ∀ id ∈ p.removed, (id, none) ∈ p.currentPerMember ∧ (id, none) ∈ p.targetPerMember
  current_removed : ∀ id, (id, none) ∈ p.currentPerMember → id ∈ p.removed
  current_held : ∀ u ∈ p.currentPerMember, u.2.isSome →
    (seed.members.patch p.memberMetadata).contains u.1
  onlyMembers : seed.OnlyMembers
  targetMetadata : ∀ v, p.targetMetadata = some v → targetMetadataError v = none

theorem tombstones_of_mem {υ : Type} {records : List (String × Option υ)}
    (h : (id, none) ∈ records) : PendingRecords.tombstones records id = true :=
  any_eq_true.mpr ⟨_, h, by simp⟩

variable {p : PendingRecords}

theorem Replayable.removalRecords (h : Replayable p seed) :
    p.removed.flatMap p.removalRecords = p.removed.flatMap fun id =>
      [.currentMember id none, .targetMember id none, .memberMetadata id none] := by
  refine flatMap_congr fun id hid => ?_
  obtain ⟨hcurrent, htarget⟩ := h.removed id hid
  rw [PendingRecords.removalRecords, if_pos (tombstones_of_mem hcurrent),
    if_pos (tombstones_of_mem htarget)]
  rfl

theorem mem_removed : id ∈ p.removed ↔ (id, none) ∈ p.memberMetadata := by
  unfold PendingRecords.removed
  simp [mem_map, mem_filter]

theorem surviving_memberMetadata (p : PendingRecords) :
    p.surviving p.memberMetadata = p.memberMetadata.filter fun e => e.2.isSome := by
  refine filter_congr fun e he => ?_
  obtain ⟨id, value⟩ := e
  cases value with
  | some v => simp
  | none => simp [mem_removed.mpr he]

theorem replay_groupMetadata (v : Option GroupMetadataValue) :
    replay groupId (some seed) (v.toList.map fun v => .groupMetadata (some v)) =
      .ok (some { seed with
        groupEpoch := (v.map GroupMetadataValue.epoch).getD seed.groupEpoch
        metadataHash := (v.map GroupMetadataValue.metadataHash).getD seed.metadataHash }) := by
  cases v <;> rfl

theorem replay_partitionMetadataTombstone (tombstone : Bool) :
    replay groupId (some seed) (if tombstone then [.partitionMetadata none] else []) =
      .ok (some { seed with
        hasSubscriptionMetadataRecord :=
          if tombstone then false else seed.hasSubscriptionMetadataRecord }) := by
  cases tombstone <;> rfl

theorem replay_targetMetadata {v : Option TargetAssignmentMetadataValue}
    (hv : ∀ w, v = some w → targetMetadataError w = none) :
    replay groupId (some seed) (v.toList.map fun v => .targetMetadata (some v)) =
      .ok (some { seed with
        targetEpoch :=
          (v.map TargetAssignmentMetadataValue.assignmentEpoch).getD seed.targetEpoch
        assignmentTimestampMs :=
          (v.map TargetAssignmentMetadataValue.assignmentTimestampMs).getD
            seed.assignmentTimestampMs }) := by
  cases v with
  | none => rfl
  | some v =>
    refine (replay_cons_ok ?_).trans (replay_nil _)
    change (match targetMetadataError v with | some message => _ | none => _) = _
    rw [hv v rfl]
    rfl

/-- The records of a transition replay to what they make of the cached seed. -/
theorem replay_pushRecords (h : Replayable p seed) :
    replay groupId (some seed) p.pushRecords = .ok (some (seed.applyOwn p)) := by
  obtain ⟨f, hmembers⟩ := h.members
  obtain ⟨ft, htarget⟩ := h.target
  obtain ⟨fc, hcurrent⟩ := h.current
  have hpatchMembers : (p.removed.foldl SortedMap.erase seed.members).patch
      (p.memberMetadata.filter fun e => e.2.isSome) = seed.members.patch p.memberMetadata := by
    rw [← surviving_memberMetadata]
    exact patch_foldl_erase _ hmembers fun id hid => mem_removed.mp hid
  have hpatchTarget : (p.removed.foldl SortedMap.erase seed.targetPerMember).patch
      (p.surviving p.targetPerMember) = seed.targetPerMember.patch p.targetPerMember :=
    patch_foldl_erase _ htarget fun id hid => (h.removed id hid).2
  have hpatchCurrent : (p.removed.foldl SortedMap.erase seed.currentPerMember).patch
      (p.surviving p.currentPerMember) = seed.currentPerMember.patch p.currentPerMember :=
    patch_foldl_erase _ hcurrent fun id hid => (h.removed id hid).1
  -- No tombstone of a current assignment is left, so each is of a member.
  have hheld : ∀ e ∈ p.surviving p.currentPerMember,
      e.2.isSome ∧ (seed.members.patch p.memberMetadata).contains e.1 := by
    intro e he
    obtain ⟨hmem, hkept⟩ := mem_filter.mp he
    obtain ⟨id, value⟩ := e
    cases value with
    | some v => exact ⟨rfl, h.current_held _ hmem rfl⟩
    | none =>
      have hremoved := h.current_removed id hmem
      simp [hremoved] at hkept
  unfold PendingRecords.pushRecords
  simp only [append_assoc]
  rw [h.removalRecords, replay_append (replay_removals h.onlyMembers p.removed),
    replay_append (replay_memberMetadata fun e he => (mem_filter.mp he).2)]
  rw [hpatchMembers, replay_append (replay_resolvedRegexes _)]
  dsimp only
  rw [replay_append (replay_groupMetadata _)]
  rw [replay_append (replay_partitionMetadataTombstone _)]
  rw [replay_append (replay_targetPerMember _)]
  rw [hpatchTarget, replay_append (replay_targetMetadata h.targetMetadata)]
  rw [replay_currentPerMember hheld]
  rw [hpatchCurrent]
  rfl

/-! ## The first batch -/

def Record.isValue : Record → Bool
  | .groupMetadata v => v.isSome
  | .partitionMetadata v => v.isSome
  | .memberMetadata _ v => v.isSome
  | .targetMetadata v => v.isSome
  | .targetMember _ v => v.isSome
  | .currentMember _ v => v.isSome
  | .regularExpression _ v => v.isSome

/-- The record does not tombstone the group or its target metadata. -/
def Record.keepsGroup : Record → Bool
  | .groupMetadata v => v.isSome
  | .targetMetadata v => v.isSome
  | _ => true

theorem replayRecord_none_of_isValue {r : Record} (h : r.isValue = true) :
    replayRecord groupId none r = replayRecord groupId (some GroupSeed.newGroup) r := by
  cases r with
  | groupMetadata v | partitionMetadata v | memberMetadata _ v | targetMetadata v
  | targetMember _ v | currentMember _ v | regularExpression _ v => cases v with
    | none => cases h
    | some v => rfl

theorem replayRecord_tombstone (groupId : String) {r : Record} (h : r.isValue = false)
    (hkeeps : r.keepsGroup = true) :
    replayRecord groupId none r = .ok none ∧
      replayRecord groupId (some GroupSeed.newGroup) r = .ok (some GroupSeed.newGroup) := by
  cases r with
  | groupMetadata | targetMetadata => exact absurd (h.symm.trans hkeeps) Bool.false_ne_true
  | partitionMetadata v | memberMetadata _ v | targetMember _ v | currentMember _ v
  | regularExpression _ v => cases v with
    | none => exact ⟨rfl, rfl⟩
    | some v => cases h

/-- A batch with a value replays from nothing as from a new group. -/
theorem replay_none {records : List Record} (hvalue : ∃ r ∈ records, r.isValue)
    (hkeeps : ∀ r ∈ records, r.keepsGroup) :
    replay groupId none records = replay groupId (some GroupSeed.newGroup) records := by
  induction records with
  | nil =>
    obtain ⟨r, hr, -⟩ := hvalue
    cases hr
  | cons r records ih =>
    by_cases hr : r.isValue = true
    · unfold replay
      rw [foldlM_cons, foldlM_cons, replayRecord_none_of_isValue hr]
    · obtain ⟨hnone, hnew⟩ := replayRecord_tombstone groupId
        (Bool.eq_false_iff.mpr hr) (hkeeps r mem_cons_self)
      rw [replay_cons_ok hnone, replay_cons_ok hnew]
      refine ih ?_ fun x hx => hkeeps x (mem_cons_of_mem r hx)
      obtain ⟨x, hx, hxvalue⟩ := hvalue
      rcases mem_cons.mp hx with rfl | hx
      · exact absurd hxvalue hr
      · exact ⟨x, hx, hxvalue⟩

end Krabka.ConsumerGroup

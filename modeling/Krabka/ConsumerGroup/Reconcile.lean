import Krabka.ConsumerGroup.State

/-!
# Reconciling a member with its target

`consumer_state/reconcile.rs`: how one heartbeat turns the installed target
into the current assignment of the member that sends it.  `rebuild` is the
choice among the two builders, `computeNextAssignment` and
`updateCurrentAssignment`, and `Member.install` puts what was built into the
member and stamps the assignment epochs.

`Rebuilt.Fits` is what every rebuilt assignment satisfies, whichever builder
made it: it takes only what the member had or what no other member holds, and
a partition that it grants is assigned, not pending.
-/

namespace Krabka.ConsumerGroup

open SortedSet

/-! ## The metadata image -/

/-- What the coordinator reads of the metadata image.  `groupHash` stands for
the hash over the topic hashes of a set of existing topics, which is 0 for no
topic. -/
structure MetadataImage where
  topicIdByName : SortedMap String Uuid
  partitionsPerTopic : SortedMap Uuid Int
  groupHash : SortedSet String → Int
  unique : ∀ name name' id, topicIdByName.get? name = some id →
    topicIdByName.get? name' = some id → name = name'
  groupHash_empty : groupHash ∅ = 0

namespace MetadataImage

def topicName (image : MetadataImage) (topicId : Uuid) : Option String :=
  (image.topicIdByName.entries.find? fun e => e.2 = topicId).map Prod.fst

/-- The hash of the topics among `topics` that the image holds. -/
def metadataHash (image : MetadataImage) (topics : SortedSet String) : Int :=
  image.groupHash (topics.filter image.topicIdByName.contains)

end MetadataImage

/-! ## The builders -/

/-- The member that the builders make from the current one. -/
structure Rebuilt where
  state : MemberAssignmentState
  epoch : Int
  assigned : Partitions
  pending : Partitions
  /-- The partitions of `assigned` that the member did not hold before. -/
  granted : Partitions

/-- A member's holdings split against its target. -/
structure HeldVsTarget where
  kept : Partitions
  toRevoke : Partitions
  wanted : Partitions

/-- The heartbeat reports any of the `pending` partitions, or reports nothing
at all. -/
def ownsAny (owned : Option Partitions) (pending : Partitions) : Bool :=
  match owned with
  | none => true
  | some owned => owned.elems.any fun tp => tp ∈ pending

namespace GroupState

variable (g : GroupState)

variable (m : Member)

variable (image : MetadataImage)

/-- `Subscription::contains`: the topic exists and the member subscribes to
its name. -/
def subscriptionContains (topicId : Uuid) : Bool :=
  (image.topicName topicId).any (g.memberSubscribesTo m)

/-- The partitions of the target whose topics the member subscribes to. -/
def targetHere (target : Partitions) : Partitions :=
  target.filter fun tp => g.subscriptionContains m image tp.topicId

def splitAgainstTarget (target : Partitions) : HeldVsTarget :=
  let here := g.targetHere m image target
  { kept := m.assignedPartitions.filter fun tp => tp ∈ here
    toRevoke := m.assignedPartitions.filter fun tp => tp ∉ here
    wanted := here.filter fun tp => tp ∉ m.assignedPartitions }

/-- The partitions of `wanted` that another member holds, assigned or pending
revocation. -/
def heldByOthers (memberId : String) (wanted : Partitions) : Partitions :=
  wanted.filter fun tp =>
    (g.members.values.filter fun other => other.memberId ≠ memberId).any fun other =>
      other.holds tp

/-- The wanted partitions that are free for `m`, and whether another member
still holds one of them. -/
def grantFree (wanted : Partitions) : Partitions × Bool :=
  let heldByOthers := g.heldByOthers m.memberId wanted
  -- A partition that the member itself is pending to revoke is free for it.
  let unreleased := fun tp : TopicIdPartition =>
    decide (tp ∈ heldByOthers) && !decide (tp ∈ m.partitionsPendingRevocation)
  (wanted.filter fun tp => !unreleased tp, wanted.elems.any unreleased)

def intoRebuilt (targetEpoch : Int) (owned : Option Partitions)
    (kept toRevoke granted : Partitions) (hasUnreleased : Bool) : Rebuilt :=
  if toRevoke ≠ ∅ ∧ ownsAny owned toRevoke then
    -- The member keeps its epoch and waits for the client to acknowledge.
    { state := .unrevokedPartitions
      epoch := m.memberEpoch
      assigned := kept
      pending := toRevoke
      granted := ∅ }
  else
    { state := if hasUnreleased then .unreleasedPartitions else .stable
      epoch := targetEpoch
      assigned := kept ∪ granted
      pending := ∅
      granted := granted }

def computeNextAssignment (owned : Option Partitions) : Rebuilt :=
  let split := g.splitAgainstTarget m image (g.targetOf m.memberId)
  let grant := g.grantFree m split.wanted
  intoRebuilt m g.target.epoch owned split.kept split.toRevoke grant.1 grant.2

/-- Removes the partitions of topics the member no longer subscribes to and
leaves the rest.  `none` when no topic was removed. -/
def updateCurrentAssignment (owned : Option Partitions) : Option Rebuilt :=
  let subscribed := fun tp : TopicIdPartition => g.subscriptionContains m image tp.topicId
  let removed := m.assignedPartitions.filter fun tp => !subscribed tp
  let assigned := m.assignedPartitions.filter subscribed
  let pending := m.partitionsPendingRevocation ∪ removed
  if removed = ∅ then none
  else if pending ≠ ∅ ∧ ownsAny owned pending then
    some
      { state := .unrevokedPartitions
        epoch := m.memberEpoch
        assigned := assigned
        pending := pending
        granted := ∅ }
  else
    -- The client had released the partitions already: the member shrinks.
    some
      { state := m.assignmentState
        epoch := m.memberEpoch
        assigned := assigned
        pending := m.partitionsPendingRevocation
        granted := ∅ }

/-- The assignment that a heartbeat builds for the member, if it builds one. -/
def rebuild (owned : Option Partitions) (hasSubscriptionChanged : Bool) : Option Rebuilt :=
  if !hasSubscriptionChanged ∧ m.assignmentState = .stable ∧ m.memberEpoch = g.target.epoch then
    none
  else
    match m.assignmentState with
    | .stable =>
      if m.memberEpoch ≠ g.target.epoch then some (g.computeNextAssignment m image owned)
      else g.updateCurrentAssignment m image owned
    | .unrevokedPartitions =>
      -- A member that still owns what it must revoke cannot move forward.
      if ownsAny owned m.partitionsPendingRevocation then
        if hasSubscriptionChanged then g.updateCurrentAssignment m image owned else none
      else some (g.computeNextAssignment m image owned)
    | .unreleasedPartitions => some (g.computeNextAssignment m image owned)

end GroupState

/-- The member after its assignment was rebuilt.  A granted partition loses the
epoch it may have had, so that it is stamped with this epoch. -/
def Member.install (m : Member) (rebuilt : Rebuilt) : Member :=
  { m with
    previousMemberEpoch := m.memberEpoch
    memberEpoch := rebuilt.epoch
    assignmentState := rebuilt.state
    assignedPartitions := rebuilt.assigned
    partitionsPendingRevocation := rebuilt.pending
    assignmentEpochs := m.assignmentEpochs.retain fun tp => tp ∉ rebuilt.granted
  }.stampAssignmentEpochs rebuilt.epoch

/-- The member's epoch, previous epoch, state, assignment or pending set
changes. -/
def Member.changedBy (m : Member) (rebuilt : Rebuilt) : Bool :=
  m.previousMemberEpoch ≠ m.memberEpoch ∨ m.memberEpoch ≠ rebuilt.epoch ∨
    m.assignmentState ≠ rebuilt.state ∨ m.assignedPartitions ≠ rebuilt.assigned ∨
    m.partitionsPendingRevocation ≠ rebuilt.pending

/-- What a rebuilt assignment takes. -/
structure Rebuilt.Fits (r : Rebuilt) (g : GroupState) (m : Member) : Prop where
  assigned_of : ∀ tp ∈ r.assigned, tp ∈ m.assignedPartitions ∨ tp ∈ r.granted
  pending_of : ∀ tp ∈ r.pending, tp ∈ m.held
  disjoint : ∀ tp ∈ r.assigned, tp ∉ r.pending
  granted_assigned : ∀ tp ∈ r.granted, tp ∈ r.assigned
  granted_free : ∀ tp ∈ r.granted, ∀ other ∈ g.members.values, other.memberId ≠ m.memberId →
    tp ∈ other.held → tp ∈ m.partitionsPendingRevocation
  idle : r.state = .stable → r.pending = ∅

namespace GroupState

/-- Reconciles the assignment of one member towards the target, inside its own
heartbeat. -/
def reconcileMember (g : GroupState) (memberId : String) (owned : Option Partitions)
    (hasSubscriptionChanged : Bool) (image : MetadataImage) : GroupState × Bool :=
  match g.members.get? memberId with
  | none => (g, false)
  | some m =>
    match g.rebuild m image owned hasSubscriptionChanged with
    | none => (g, false)
    | some rebuilt =>
      ({ g with members := g.members.insert memberId (m.install rebuilt) }, m.changedBy rebuilt)

/-! ## What a rebuilt assignment satisfies -/

variable {g : GroupState} {m : Member} {image : MetadataImage} {owned : Option Partitions}
  {tp : TopicIdPartition}

theorem mem_heldByOthers {memberId : String} {wanted : Partitions} :
    tp ∈ g.heldByOthers memberId wanted ↔
      tp ∈ wanted ∧ ∃ other ∈ g.members.values, other.memberId ≠ memberId ∧ tp ∈ other.held := by
  simp only [heldByOthers, mem_filter, List.any_eq_true, List.mem_filter,
    decide_eq_true_eq, and_assoc, Member.holds_iff]

theorem mem_grantFree {wanted : Partitions} :
    tp ∈ (g.grantFree m wanted).1 ↔
      tp ∈ wanted ∧
        ((∃ other ∈ g.members.values, other.memberId ≠ m.memberId ∧ tp ∈ other.held) →
          tp ∈ m.partitionsPendingRevocation) := by
  simp only [grantFree, mem_filter, mem_heldByOthers, Bool.not_eq_true',
    Bool.and_eq_false_imp, decide_eq_true_eq, Bool.not_eq_false', and_imp]
  constructor
  · intro h
    exact ⟨h.1, h.2 h.1⟩
  · intro h
    exact ⟨h.1, fun _ => h.2⟩

theorem computeNextAssignment_fits : (g.computeNextAssignment m image owned).Fits g m := by
  unfold computeNextAssignment intoRebuilt
  dsimp only
  split
  · constructor
    · intro tp htp
      exact .inl (mem_filter.mp htp).1
    · intro tp htp
      exact Member.mem_held.mpr (.inl (mem_filter.mp htp).1)
    · intro tp hkept hrevoked
      have hin := of_decide_eq_true (mem_filter.mp hkept).2
      exact of_decide_eq_true (mem_filter.mp hrevoked).2 hin
    · intro tp htp
      exact absurd htp (notMem_empty tp)
    · intro tp htp
      exact absurd htp (notMem_empty tp)
    · nofun
  · constructor
    · intro tp htp
      rcases mem_union.mp htp with hkept | hgranted
      · exact .inl (mem_filter.mp hkept).1
      · exact .inr hgranted
    · intro tp htp
      exact absurd htp (notMem_empty tp)
    · intro tp _
      exact notMem_empty tp
    · intro tp htp
      exact mem_union.mpr (.inr htp)
    · intro tp htp other hother hne hheld
      exact (mem_grantFree.mp htp).2 ⟨other, hother, hne, hheld⟩
    · exact fun _ => rfl

variable {r : Rebuilt}

theorem updateCurrentAssignment_fits
    (hdisjoint : ∀ tp ∈ m.assignedPartitions, tp ∉ m.partitionsPendingRevocation)
    (hidle : m.assignmentState = .stable → m.partitionsPendingRevocation = ∅)
    (h : g.updateCurrentAssignment m image owned = some r) : r.Fits g m := by
  unfold updateCurrentAssignment at h
  dsimp only at h
  split_ifs at h with hremoved howned
  · cases h
    constructor
    · intro tp htp
      exact .inl (mem_filter.mp htp).1
    · intro tp htp
      rcases mem_union.mp htp with hpending | hremoved
      · exact Member.mem_held.mpr (.inr hpending)
      · exact Member.mem_held.mpr (.inl (mem_filter.mp hremoved).1)
    · intro tp hassigned hpending
      have hkept := mem_filter.mp hassigned
      rcases mem_union.mp hpending with hpending | hremoved
      · exact hdisjoint tp hkept.1 hpending
      · have hgone := (mem_filter.mp hremoved).2
        rw [hkept.2] at hgone
        exact absurd hgone Bool.false_ne_true
    · intro tp htp
      exact absurd htp (notMem_empty tp)
    · intro tp htp
      exact absurd htp (notMem_empty tp)
    · nofun
  · cases h
    constructor
    · intro tp htp
      exact .inl (mem_filter.mp htp).1
    · intro tp htp
      exact Member.mem_held.mpr (.inr htp)
    · intro tp htp
      exact hdisjoint tp (mem_filter.mp htp).1
    · intro tp htp
      exact absurd htp (notMem_empty tp)
    · intro tp htp
      exact absurd htp (notMem_empty tp)
    · exact hidle

theorem rebuild_cases {changed : Bool} (h : g.rebuild m image owned changed = some r) :
    r = g.computeNextAssignment m image owned ∨
      changed = true ∧ g.updateCurrentAssignment m image owned = some r := by
  unfold rebuild at h
  by_cases hreconciled : !changed ∧ m.assignmentState = .stable ∧ m.memberEpoch = g.target.epoch
  · rw [if_pos hreconciled] at h
    cases h
  rw [if_neg hreconciled] at h
  cases hstate : m.assignmentState with
  | stable =>
    rw [hstate] at h hreconciled
    dsimp only at h
    split_ifs at h with hepoch
    · exact .inl (Option.some.inj h).symm
    · refine .inr ⟨?_, h⟩
      by_contra hchanged
      exact hreconciled ⟨by simpa using hchanged, rfl, not_not.mp hepoch⟩
  | unrevokedPartitions =>
    rw [hstate] at h
    dsimp only at h
    split_ifs at h with howns hchanged
    · exact .inr ⟨hchanged, h⟩
    · exact .inl (Option.some.inj h).symm
  | unreleasedPartitions =>
    rw [hstate] at h
    exact .inl (Option.some.inj h).symm

theorem rebuild_fits {changed : Bool}
    (hdisjoint : ∀ tp ∈ m.assignedPartitions, tp ∉ m.partitionsPendingRevocation)
    (hidle : m.assignmentState = .stable → m.partitionsPendingRevocation = ∅)
    (h : g.rebuild m image owned changed = some r) : r.Fits g m := by
  rcases rebuild_cases h with rfl | ⟨-, hupdate⟩
  · exact computeNextAssignment_fits
  · exact updateCurrentAssignment_fits hdisjoint hidle hupdate

end GroupState

/-! ## The installed member -/

namespace Member

variable {m : Member} {r : Rebuilt}

@[simp] theorem install_memberEpoch : (m.install r).memberEpoch = r.epoch := rfl

theorem install_assignmentEpochs {tp : TopicIdPartition} (htp : tp ∈ (m.install r).held) :
    (m.install r).assignmentEpochs.get? tp =
      some (if tp ∈ r.granted then r.epoch else (m.assignmentEpochs.get? tp).getD r.epoch) := by
  have hheld : tp ∈ r.assigned ∪ r.pending := htp
  have hget : (m.install r).assignmentEpochs.get? tp =
      if tp ∈ r.assigned ∪ r.pending then
        some (((m.assignmentEpochs.retain fun tp => tp ∉ r.granted).get? tp).getD r.epoch)
      else none :=
    get?_toMap _ _ tp
  rw [hget, if_pos hheld, SortedMap.get?_retain]
  by_cases hgranted : tp ∈ r.granted <;> simp [hgranted]

end Member

end Krabka.ConsumerGroup

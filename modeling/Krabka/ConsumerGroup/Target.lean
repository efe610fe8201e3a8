import Krabka.ConsumerGroup.Records

/-!
# The group epoch and the target assignment

`reconciler.rs` and the target half of `actor/member_state.rs`: the metadata
hash of the subscribed topics, the bump of the group epoch that a changed
subscription asks for, and the target that a group whose epoch is ahead of its
target computes.

An assignor is any function of the group's subscriptions and the partition
counts; nothing is assumed of what it returns.
-/

namespace Krabka.ConsumerGroup

/-! ## Assignors -/

inductive SubscriptionType where
  | homogeneous
  | heterogeneous
  deriving DecidableEq

/-- One member as an assignor sees it. -/
structure MemberSubscription where
  memberId : String
  rackId : Option String
  subscribedTopicIds : SortedSet Uuid
  /-- The member's current target. -/
  assignedPartitions : Partitions
  deriving DecidableEq

structure GroupSpec where
  members : List MemberSubscription
  subscriptionType : SubscriptionType
  deriving DecidableEq

/-- The target of each member from the subscriptions and the partition count
of each topic. -/
abbrev Assignor := GroupSpec → SortedMap Uuid Int → SortedMap String Partitions

/-- One member's subscription, in the terms that the subscription type
counts. -/
structure SubscriptionShape where
  topicNames : SortedSet String
  topicRegex : Option String
  regexTopicNames : SortedSet String

/-- Whether every member subscribes to the same topics in the same way. -/
def subscriptionType (members : List SubscriptionShape) : SubscriptionType :=
  let names := members.flatMap fun m => m.topicNames.elems
  let regexes := members.filterMap SubscriptionShape.topicRegex
  let distinct := (SortedSet.ofList regexes).elems
  -- The topic names that each distinct regular expression resolves to.
  let regexTopics := fun regex : String =>
    SortedSet.ofList <| (members.filter fun m => m.topicRegex = some regex).flatMap fun m =>
      m.regexTopicNames.elems
  let byRegex := fun name : String => distinct.countP fun regex => name ∈ regexTopics regex
  let homogeneous :=
    match distinct with
    | [] => names.all fun name => names.count name = members.length
    | [regex] =>
      decide (regexes.count regex = members.length) && names.isEmpty &&
        (regexTopics regex).elems.all fun name => byRegex name = 1
    | _ => false
  if homogeneous then .homogeneous else .heterogeneous

/-- What the heartbeat reads of the configuration. -/
structure Config where
  assignors : List (String × Assignor)
  maxSize : Nat
  assignmentIntervalMs : Int
  heartbeatIntervalMs : Int

def Config.findAssignor (config : Config) (name : String) : Option Assignor :=
  (config.assignors.find? fun a => a.1 = name).map Prod.snd

def Config.assignorEnabled (config : Config) (name : String) : Bool :=
  (config.findAssignor name).isSome

namespace GroupState

/-! ## The metadata hash -/

variable (g : GroupState)

def subscribedTopics : SortedSet String :=
  g.members.values.foldl (fun topics m => topics ∪ m.subscribedTopicNames ∪ g.regexTopics m) ∅

variable (image : MetadataImage)

/-- `reconciler::metadata_hash`. -/
def currentMetadataHash : Int :=
  image.metadataHash g.subscribedTopics

def recordMetadataHash (hash : Int) : GroupState :=
  { g with metadataHash := hash, metadataRefreshRequested := false }

/-- Records the hash and leaves a requested refresh. -/
def setMetadataHash (hash : Int) : GroupState := { g with metadataHash := hash }

/-- Bumps the group epoch when `bump` is set or the hash moved, and records the
hash.  A group whose epoch cannot move is unchanged. -/
def updateSubscriptionMetadata (bump : Bool) : GroupState :=
  let hash := g.currentMetadataHash image
  if bump ∨ hash ≠ g.metadataHash then
    match g.bumpEpoch with
    | some bumped => bumped.recordMetadataHash hash
    | none => g
  else g.recordMetadataHash hash

/-- The epoch bump of a fence. -/
def bumpWithMetadataHash : GroupState :=
  let hash := g.currentMetadataHash image
  match g.bumpEpoch with
  | some bumped => bumped.setMetadataHash hash
  | none => g

/-- `update_subscription`: runs the metadata update when the heartbeat changed
the subscription or the metadata expired, and says whether the transition
tombstones the deprecated record. -/
def updateSubscription (bump : Bool) : GroupState × Bool :=
  if !bump ∧ !g.metadataRefreshRequested then (g, false)
  else (g.updateSubscriptionMetadata image bump, g.hasSubscriptionMetadataRecord)

/-! ## The target -/

/-- Installs a target at the current group epoch and lists the members whose
target changed.  Every member gets a target, an empty one when the assignor
gave it nothing. -/
def installTarget (perMember : SortedMap String Partitions) : GroupState × List String :=
  let ids := g.members.keys
  let assignment := fun id => (perMember.get? id).getD ∅
  let changed := ids.filter fun id => g.target.perMember.get? id ≠ some (assignment id)
  let target := ids.foldl (fun t id => t.insert id (assignment id)) SortedMap.empty
  ({ g with target := { epoch := g.groupEpoch, perMember := target } }, changed)

def subscribedTopicIds (m : Member) (image : MetadataImage) : SortedSet Uuid :=
  SortedSet.ofList
    ((m.subscribedTopicNames ∪ g.regexTopics m).elems.filterMap image.topicIdByName.get?)

def spec : GroupSpec where
  members := g.members.values.map fun m =>
    { memberId := m.memberId
      rackId := m.rackId
      subscribedTopicIds := g.subscribedTopicIds m image
      assignedPartitions := g.targetOf m.memberId }
  subscriptionType :=
    ConsumerGroup.subscriptionType <| g.members.values.map fun m =>
      { topicNames := m.subscribedTopicNames
        topicRegex := m.subscribedTopicRegex
        regexTopicNames := (g.regexTopics m).filter image.topicIdByName.contains }

def computeTarget (assignor : Assignor) : GroupState × List String :=
  g.installTarget (assignor (g.spec image) image.partitionsPerTopic)

/-- The server assignor that the most members name, the smallest name of a
tie. -/
def preferredServerAssignor : Option String :=
  let names := g.members.values.filterMap Member.serverAssignor
  (SortedSet.ofList names).elems.foldl
    (fun best name =>
      match best with
      | none => some name
      | some other => if names.count other < names.count name then some name else some other) none

def pickAssignor (config : Config) : Option Assignor :=
  (g.preferredServerAssignor.bind config.findAssignor).orElse fun _ =>
    config.assignors.head?.map Prod.snd

/-- Java's wrap-around of a `long`. -/
def wrapI64 (n : Int) : Int := n.bmod (2 ^ 64)

/-- `can_compute_next_target_assignment`, negated. -/
def assignmentDelayed (intervalMs nowMs : Int) : Bool :=
  !(g.assignmentTimestampMs = 0 ∨ intervalMs = 0 ∨
    nowMs ≥ wrapI64 (g.assignmentTimestampMs + intervalMs))

/-- `maybe_update_target`: a group whose epoch is ahead of its target computes
a new one, unless its assignment interval holds it back.  `finishedMs` is the
time at which the calculation finished. -/
def maybeUpdateTarget (config : Config) (image : MetadataImage) (nowMs : Int)
    (finishedMs : Nat) : GroupState × Option (List String) :=
  if !g.targetIsStale ∨ g.assignmentDelayed config.assignmentIntervalMs nowMs then (g, none)
  else
    match g.pickAssignor config with
    | none => (g, none)
    | some assignor =>
      let computed := g.computeTarget image assignor
      ({ computed.1 with assignmentTimestampMs := finishedMs }, some computed.2)

/-! ## What these steps leave alone -/

variable (g : GroupState) (image : MetadataImage)

theorem updateSubscriptionMetadata_cases (bump : Bool) :
    g.updateSubscriptionMetadata image bump =
        { g with groupEpoch := g.groupEpoch + 1, metadataHash := g.currentMetadataHash image,
                 metadataRefreshRequested := false } ∨
      bump = false ∧ g.currentMetadataHash image = g.metadataHash ∧
        g.updateSubscriptionMetadata image bump = { g with metadataRefreshRequested := false } ∨
      ¬ g.groupEpoch < i32Max ∧ g.updateSubscriptionMetadata image bump = g := by
  unfold updateSubscriptionMetadata
  by_cases hbump : bump ∨ g.currentMetadataHash image ≠ g.metadataHash
  · rw [if_pos hbump]
    by_cases hlt : g.groupEpoch < i32Max
    · left
      rw [bumpEpoch, if_pos hlt]
      rfl
    · right; right
      refine ⟨hlt, ?_⟩
      rw [bumpEpoch, if_neg hlt]
  · rw [if_neg hbump]
    rw [not_or, not_not] at hbump
    right; left
    refine ⟨by simpa using hbump.1, hbump.2, ?_⟩
    rw [recordMetadataHash, hbump.2]

@[simp] theorem updateSubscriptionMetadata_members (bump : Bool) :
    (g.updateSubscriptionMetadata image bump).members = g.members := by
  rcases g.updateSubscriptionMetadata_cases image bump with h | ⟨-, -, h⟩ | ⟨-, h⟩ <;> rw [h]

@[simp] theorem updateSubscription_members (bump : Bool) :
    (g.updateSubscription image bump).1.members = g.members := by
  unfold updateSubscription
  split_ifs <;> simp

@[simp] theorem installTarget_members (perMember : SortedMap String Partitions) :
    (g.installTarget perMember).1.members = g.members := rfl

@[simp] theorem maybeUpdateTarget_members (config : Config) (nowMs : Int) (finishedMs : Nat) :
    (g.maybeUpdateTarget config image nowMs finishedMs).1.members = g.members := by
  unfold maybeUpdateTarget
  split_ifs
  · rfl
  · split <;> rfl

@[simp] theorem bumpWithMetadataHash_members :
    (g.bumpWithMetadataHash image).members = g.members := by
  unfold bumpWithMetadataHash bumpEpoch
  split_ifs <;> rfl

end GroupState

end Krabka.ConsumerGroup

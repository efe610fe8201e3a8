import Krabka.Lib.SortedSet
import Mathlib.Data.Prod.Lex
import Mathlib.Data.String.Basic

/-!
# The state of a consumer group

`Member` and `GroupState` are the records of `consumer_state/member.rs` and
`consumer_state/group.rs`: the members with what each holds, the target
assignment, the resolved regular expressions and the epochs.  This module has
the membership transitions that compute no assignment, the fence of an offset
commit, and the regular expressions that the members subscribe to
(`consumer_state/regex.rs`).

A set of partitions, which the source keeps as partition lists by topic id, is
a sorted set of `TopicIdPartition`.  The source sorts the lists before it keeps
or writes them and drops a topic with no partitions, so nothing depends on more
than the set.  The clocks are not modelled: a session or rebalance timeout may
fence any member at any time.  The members are native members of the consumer
protocol.
-/

namespace Krabka.ConsumerGroup

abbrev Uuid := Nat

abbrev i32Max : Int := 2 ^ 31 - 1

structure TopicIdPartition where
  topicId : Uuid
  partition : Int
  deriving DecidableEq

instance : LinearOrder TopicIdPartition :=
  LinearOrder.lift' (fun tp => toLex (tp.topicId, tp.partition)) fun a b h => by
    have hpair : (a.topicId, a.partition) = (b.topicId, b.partition) := toLex.injective h
    cases a
    cases b
    simpa using hpair

abbrev Partitions := SortedSet TopicIdPartition

inductive ErrorCode where
  | none
  | unknownMemberId
  | groupMaxSizeReached
  | fencedInstanceId
  | unreleasedInstanceId
  | fencedMemberEpoch
  | staleMemberEpoch
  | unsupportedAssignor
  | unsupportedVersion
  | invalidRegularExpression
  deriving DecidableEq

/-! ## Members -/

inductive MemberAssignmentState where
  | stable
  | unrevokedPartitions
  | unreleasedPartitions
  deriving DecidableEq

/-- `MemberState`: one member of the group. -/
@[ext]
structure Member where
  memberId : String
  instanceId : Option String
  rackId : Option String
  clientId : String
  clientHost : String
  subscribedTopicNames : SortedSet String
  subscribedTopicRegex : Option String
  serverAssignor : Option String
  memberEpoch : Int
  previousMemberEpoch : Int
  assignmentState : MemberAssignmentState
  assignedPartitions : Partitions
  partitionsPendingRevocation : Partitions
  assignmentEpochs : SortedMap TopicIdPartition Int
  deriving DecidableEq

namespace Member

/-- A native member before subscriptions, assignments or epochs. -/
def empty (memberId : String) : Member where
  memberId := memberId
  instanceId := none
  rackId := none
  clientId := ""
  clientHost := ""
  subscribedTopicNames := ∅
  subscribedTopicRegex := none
  serverAssignor := none
  memberEpoch := 0
  previousMemberEpoch := 0
  assignmentState := .stable
  assignedPartitions := ∅
  partitionsPendingRevocation := ∅
  assignmentEpochs := SortedMap.empty

def held (m : Member) : Partitions := m.assignedPartitions ∪ m.partitionsPendingRevocation

def holds (m : Member) (tp : TopicIdPartition) : Bool :=
  tp ∈ m.assignedPartitions ∨ tp ∈ m.partitionsPendingRevocation

def assignmentEpoch (m : Member) (tp : TopicIdPartition) : Option Int :=
  if m.holds tp then m.assignmentEpochs.get? tp else none

/-- Brings the assignment epochs in line with what the member holds: a
partition that it no longer holds loses its epoch, and one that it holds with
no epoch yet gets `epoch`. -/
def stampAssignmentEpochs (m : Member) (epoch : Int) : Member :=
  { m with assignmentEpochs := m.held.toMap fun tp => (m.assignmentEpochs.get? tp).getD epoch }

def resetAssignmentEpochs (m : Member) (epoch : Int) : Member :=
  { m with assignmentEpochs := SortedMap.empty }.stampAssignmentEpochs epoch

variable {m : Member} {tp : TopicIdPartition}

@[simp] theorem mem_held :
    tp ∈ m.held ↔ tp ∈ m.assignedPartitions ∨ tp ∈ m.partitionsPendingRevocation :=
  SortedSet.mem_union

theorem holds_iff : m.holds tp = true ↔ tp ∈ m.held := by
  simp [holds]

end Member

/-! ## The group -/

structure ResolvedRegularExpression where
  topics : SortedSet String
  version : Int
  timestampMs : Int
  deriving DecidableEq

/-- The target of every member, and the group epoch that it was computed at. -/
structure TargetAssignment where
  epoch : Int
  perMember : SortedMap String Partitions
  deriving DecidableEq

structure GroupState where
  groupId : String
  groupEpoch : Int
  members : SortedMap String Member
  instanceToMember : SortedMap String String
  target : TargetAssignment
  resolvedRegexes : SortedMap String ResolvedRegularExpression
  metadataHash : Int
  metadataRefreshRequested : Bool
  assignmentTimestampMs : Int
  hasSubscriptionMetadataRecord : Bool
  deriving DecidableEq

def initialGroupEpoch : Int := 1

/-- Who commits offsets, and with which request. -/
inductive CommitFence where
  | offset (apiVersion : Int)
  | transactional
  deriving DecidableEq

def firstConsumerProtocolCommitVersion : Int := 9

def unknownGenerationId : Int := -1

namespace GroupState

/-- A group that no record holds yet. -/
def new (groupId : String) : GroupState where
  groupId := groupId
  groupEpoch := initialGroupEpoch
  members := SortedMap.empty
  instanceToMember := SortedMap.empty
  target := { epoch := initialGroupEpoch, perMember := SortedMap.empty }
  resolvedRegexes := SortedMap.empty
  metadataHash := 0
  metadataRefreshRequested := true
  assignmentTimestampMs := 0
  hasSubscriptionMetadataRecord := false

variable (g : GroupState)

def targetIsStale : Bool := g.groupEpoch > g.target.epoch

/-- Moves the group epoch by one, or `none` when it cannot move. -/
def bumpEpoch : Option GroupState :=
  if g.groupEpoch < i32Max then some { g with groupEpoch := g.groupEpoch + 1 } else none

variable (memberId : String)

/-- The fence of an offset commit.  An older epoch than the member's commits a
partition only if the member holds it and the epoch is at least the
partition's assignment epoch. -/
def validateOffsetCommit (groupInstanceId : Option String)
    (memberEpoch : Int) (fence : CommitFence) (partitions : List TopicIdPartition) :
    Except ErrorCode Unit :=
  if memberEpoch < 0 ∧ g.members.entries = [] then .ok ()
  else if fence = .transactional ∧ memberEpoch = unknownGenerationId ∧ memberId = "" ∧
      groupInstanceId = none then .ok ()
  else
    match g.members.get? memberId with
    | none => .error .unknownMemberId
    | some member =>
      let tooOld : Bool :=
        match fence with
        | .offset apiVersion => apiVersion < firstConsumerProtocolCommitVersion
        | .transactional => false
      if tooOld then .error .unsupportedVersion
      else
        let accepted : Bool :=
          if memberEpoch = member.memberEpoch then true
          else if memberEpoch > member.memberEpoch then false
          else partitions.all fun tp =>
            (member.assignmentEpoch tp).any fun assignedAt => memberEpoch ≥ assignedAt
        if accepted then .ok () else .error .staleMemberEpoch

/-- Binds an instance id, if there is one, to a member id. -/
def bindInstance (instanceId : Option String) (memberId : String) : GroupState :=
  match instanceId with
  | some instance_ => { g with instanceToMember := g.instanceToMember.insert instance_ memberId }
  | none => g

variable (m : Member)

def addOrUpdateMember : GroupState :=
  { g.bindInstance m.instanceId m.memberId with members := g.members.insert m.memberId m }

def removeMember : GroupState :=
  match g.members.get? memberId with
  | none => g
  | some m =>
    { g with
      members := g.members.erase memberId
      instanceToMember :=
        match m.instanceId with
        | some instance_ =>
          if g.instanceToMember.get? instance_ = some memberId then
            g.instanceToMember.erase instance_
          else g.instanceToMember
        | none => g.instanceToMember }

def moveTarget (previous memberId : String) : GroupState :=
  match g.target.perMember.get? previous with
  | some target =>
    { g with target.perMember := (g.target.perMember.erase previous).insert memberId target }
  | none => g

/-- Moves the static member `previous` to the id `memberId` at epoch 0, over
any member that already has that id. -/
def replaceStaticMember (previous memberId : String) : GroupState :=
  match g.members.get? previous with
  | none => g
  | some member =>
    let g := { g with members := g.members.erase previous }
    let g := if memberId ≠ previous then g.removeMember memberId else g
    let member := { member with memberId := memberId, memberEpoch := 0, previousMemberEpoch := 0 }
    let g := g.bindInstance member.instanceId memberId
    let g := g.moveTarget previous memberId
    { g with members := g.members.insert memberId member }

def leaveGroupMemberEpoch : Int := -1

def leaveGroupStaticMemberEpoch : Int := -2

/-- What a static member that leaves for a while keeps. -/
def released : Member :=
  { m with
    memberEpoch := leaveGroupStaticMemberEpoch
    partitionsPendingRevocation := ∅ }.resetAssignmentEpochs 0

/-- Sets a static member that leaves for a while to epoch -2.  It keeps its
assignment and drops the partitions it had still to revoke. -/
def releaseStaticMember : GroupState :=
  { g with members := g.members.modify memberId released }

def currentMemberForInstance (instanceId : String) : Option String :=
  g.instanceToMember.get? instanceId

def targetOf : Partitions :=
  (g.target.perMember.get? memberId).getD ∅

/-! ## Regular expressions -/

def subscribedRegexes : SortedMap String Nat :=
  (g.members.values.filterMap Member.subscribedTopicRegex).foldl
    (fun counts regex => counts.insert regex ((counts.get? regex).getD 0 + 1)) SortedMap.empty

def numSubscribedMembers (regex : String) : Nat :=
  g.members.values.countP fun m => m.subscribedTopicRegex = some regex

def resolvedRegex (regex : String) : Option ResolvedRegularExpression :=
  g.resolvedRegexes.get? regex

def numResolvedRegexes : Nat := g.resolvedRegexes.entries.length

def setResolvedRegex (regex : String) (resolved : ResolvedRegularExpression) : GroupState :=
  { g with resolvedRegexes := g.resolvedRegexes.insert regex resolved }

def removeResolvedRegex (regex : String) : GroupState :=
  { g with resolvedRegexes := g.resolvedRegexes.erase regex }

abbrev i64Min : Int := -(2 ^ 63)

abbrev i64Max : Int := 2 ^ 63 - 1

/-- The time of the latest resolution, or `i64::MIN`. -/
def lastRegexResolutionMs : Int :=
  ((g.resolvedRegexes.values.map ResolvedRegularExpression.timestampMs).max?).getD i64Min

/-- The oldest metadata version a resolution was made from, or 0. -/
def lastRegexResolutionVersion : Int :=
  ((g.resolvedRegexes.values.map ResolvedRegularExpression.version).min?).getD 0

def regexTopics : SortedSet String :=
  match m.subscribedTopicRegex.bind g.resolvedRegex with
  | some resolved => resolved.topics
  | none => ∅

/-- The member subscribes to the topic, by name or through what its regular
expression resolved to. -/
def memberSubscribesTo (name : String) : Bool :=
  name ∈ m.subscribedTopicNames ∨ name ∈ g.regexTopics m

def unsubscribedResolvedRegexes : List String :=
  g.resolvedRegexes.keys.filter fun regex => !g.subscribedRegexes.contains regex

/-! ## What the transitions do to the members -/

@[simp] theorem bindInstance_members (instanceId : Option String) (id : String) :
    (g.bindInstance instanceId id).members = g.members := by
  cases instanceId <;> rfl

@[simp] theorem moveTarget_members (previous id : String) :
    (g.moveTarget previous id).members = g.members := by
  unfold moveTarget
  split <;> rfl

theorem get?_removeMember (id x : String) :
    (g.removeMember id).members.get? x = if x = id then none else g.members.get? x := by
  unfold removeMember
  cases hm : g.members.get? id with
  | none =>
    by_cases hx : x = id
    · subst hx
      simp [hm]
    · simp [hx]
  | some m => simp

def takenOver (member : Member) (memberId : String) : Member :=
  { member with memberId := memberId, memberEpoch := 0, previousMemberEpoch := 0 }

theorem get?_replaceStaticMember {g : GroupState} {previous id : String} {member : Member}
    (h : g.members.get? previous = some member) (x : String) :
    (g.replaceStaticMember previous id).members.get? x =
      if x = id then some (takenOver member id)
      else if x = previous then none else g.members.get? x := by
  unfold replaceStaticMember
  rw [h]
  rw [SortedMap.get?_insert, moveTarget_members, bindInstance_members]
  by_cases hx : x = id
  · rw [if_pos hx, if_pos hx]
    rfl
  rw [if_neg hx, if_neg hx]
  by_cases hne : id = previous
  · simp [hne]
  · rw [if_pos hne, get?_removeMember, if_neg hx]
    simp

theorem get?_releaseStaticMember (id x : String) :
    (g.releaseStaticMember id).members.get? x =
      if x = id then (g.members.get? x).map released else g.members.get? x :=
  g.members.get?_modify id released x

end GroupState

end Krabka.ConsumerGroup

import Krabka.ConsumerGroup.Reconcile

/-!
# The records of a consumer group

A transition of the group is written as `PendingRecords`: the difference that
`Recorder` takes between the group before and after it
(`actor/persistence.rs`), in the families of `actor/pending_records.rs`.  The
records update the seed that the coordinator caches, and `applySeed`
(`actor/seed.rs`) turns a seed back into a group.

The codec of the records is not modelled.  The records of a migration from or
to the classic protocol and the tombstones of a whole group are left out: no
transition of a consumer group of native members writes them.
-/

namespace Krabka.ConsumerGroup

/-! ## Values -/

/-- `ConsumerGroupMemberMetadata`: the subscription of a member. -/
structure MemberMetadataValue where
  instanceId : Option String
  rackId : Option String
  clientId : String
  clientHost : String
  subscribedTopicNames : SortedSet String
  subscribedTopicRegex : Option String
  serverAssignor : Option String
  deriving DecidableEq

/-- `ConsumerGroupCurrentMemberAssignment`: what a member holds, every
partition with its assignment epoch. -/
structure CurrentMemberAssignmentValue where
  memberEpoch : Int
  previousMemberEpoch : Int
  state : MemberAssignmentState
  assignedPartitions : SortedMap TopicIdPartition Int
  partitionsPendingRevocation : SortedMap TopicIdPartition Int
  deriving DecidableEq

/-- `ConsumerGroupMetadata`: the group epoch and the metadata hash. -/
structure GroupMetadataValue where
  epoch : Int
  metadataHash : Int
  deriving DecidableEq

/-- `ConsumerGroupTargetAssignmentMetadata`. -/
structure TargetAssignmentMetadataValue where
  assignmentEpoch : Int
  assignmentTimestampMs : Int
  deriving DecidableEq

/-- An absent pattern is written as the empty string. -/
def memberMetadataValue (m : Member) : MemberMetadataValue where
  instanceId := m.instanceId
  rackId := m.rackId
  clientId := m.clientId
  clientHost := m.clientHost
  subscribedTopicNames := m.subscribedTopicNames
  subscribedTopicRegex := some (m.subscribedTopicRegex.getD "")
  serverAssignor := m.serverAssignor

def currentTopicPartitions (m : Member) (partitions : Partitions) :
    SortedMap TopicIdPartition Int :=
  partitions.toMap fun tp => (m.assignmentEpoch tp).getD (max m.memberEpoch 0)

def currentAssignmentValue (m : Member) : CurrentMemberAssignmentValue where
  memberEpoch := m.memberEpoch
  previousMemberEpoch := m.previousMemberEpoch
  state := m.assignmentState
  assignedPartitions := currentTopicPartitions m m.assignedPartitions
  partitionsPendingRevocation := currentTopicPartitions m m.partitionsPendingRevocation

/-- The values that a transition may change of one member. -/
def memberValues (g : GroupState) (memberId : String) :
    Option (MemberMetadataValue × CurrentMemberAssignmentValue) :=
  (g.members.get? memberId).map fun m => (memberMetadataValue m, currentAssignmentValue m)

/-! ## Pending records -/

/-- The records of one transition: `some` writes a record, `none` its
tombstone. -/
structure PendingRecords where
  groupMetadata : Option GroupMetadataValue := none
  resolvedRegexes : List (String × Option ResolvedRegularExpression) := []
  memberMetadata : List (String × Option MemberMetadataValue) := []
  targetMetadata : Option TargetAssignmentMetadataValue := none
  targetPerMember : List (String × Option Partitions) := []
  currentPerMember : List (String × Option CurrentMemberAssignmentValue) := []
  /-- The batch tombstones the deprecated partition metadata record. -/
  partitionMetadataTombstone : Bool := false
  deriving DecidableEq

def PendingRecords.isEmpty (p : PendingRecords) : Bool :=
  p.groupMetadata.isNone && p.resolvedRegexes.isEmpty && p.memberMetadata.isEmpty &&
    p.targetMetadata.isNone && p.targetPerMember.isEmpty && p.currentPerMember.isEmpty &&
    !p.partitionMetadataTombstone

/-- One record of the log: `some` is a value, `none` a tombstone. -/
inductive Record where
  | groupMetadata (value : Option GroupMetadataValue)
  /-- The deprecated partition metadata, of which only the presence is read. -/
  | partitionMetadata (value : Option Unit)
  | memberMetadata (memberId : String) (value : Option MemberMetadataValue)
  | targetMetadata (value : Option TargetAssignmentMetadataValue)
  | targetMember (memberId : String) (value : Option Partitions)
  | currentMember (memberId : String) (value : Option CurrentMemberAssignmentValue)
  | regularExpression (regex : String) (value : Option ResolvedRegularExpression)
  deriving DecidableEq

namespace PendingRecords

def removed (p : PendingRecords) : List String :=
  (p.memberMetadata.filter fun e => e.2.isNone).map Prod.fst

def tombstones {υ : Type} (records : List (String × Option υ)) (id : String) : Bool :=
  records.any fun e => decide (e.1 = id) && e.2.isNone

/-- The tombstones of one removed member: current assignment, target and
subscription. -/
def removalRecords (p : PendingRecords) (id : String) : List Record :=
  (if tombstones p.currentPerMember id then [.currentMember id none] else []) ++
    (if tombstones p.targetPerMember id then [.targetMember id none] else []) ++
    [.memberMetadata id none]

/-- The records of a family without the tombstones of the removed members. -/
def surviving {υ : Type} (p : PendingRecords) (records : List (String × Option υ)) :
    List (String × Option υ) :=
  records.filter fun e => !(decide (e.1 ∈ p.removed) && e.2.isNone)

/-- `push_records`: the order of the records in the batch. -/
def pushRecords (p : PendingRecords) : List Record :=
  p.removed.flatMap p.removalRecords ++
    (p.memberMetadata.filter fun e => e.2.isSome).map (fun e => .memberMetadata e.1 e.2) ++
    p.resolvedRegexes.map (fun e => .regularExpression e.1 e.2) ++
    p.groupMetadata.toList.map (fun v => .groupMetadata (some v)) ++
    (if p.partitionMetadataTombstone then [.partitionMetadata none] else []) ++
    (p.surviving p.targetPerMember).map (fun e => .targetMember e.1 e.2) ++
    p.targetMetadata.toList.map (fun v => .targetMetadata (some v)) ++
    (p.surviving p.currentPerMember).map (fun e => .currentMember e.1 e.2)

/-- `to_batch`: the records and those chained after them. -/
def toBatch (pending : List PendingRecords) : List Record := pending.flatMap pushRecords

end PendingRecords

/-- The group epoch and the member values before a transition. -/
structure Recorder where
  groupEpoch : Int
  members : List (String × Option (MemberMetadataValue × CurrentMemberAssignmentValue))

namespace Recorder

def start (g : GroupState) (memberIds : List String) : Recorder where
  groupEpoch := g.groupEpoch
  members := memberIds.map fun id => (id, memberValues g id)

/-- The record of one value that was `before` and is `after`: a tombstone when
it went, nothing when it did not change. -/
def changeOf {υ : Type} [DecidableEq υ] (id : String) (before after : Option υ) :
    List (String × Option υ) :=
  match before, after with
  | some _, none => [(id, none)]
  | before, some v => if before = some v then [] else [(id, some v)]
  | none, none => []

/-- The target tombstone of a member that went. -/
def removalOf (id : String)
    (before after : Option (MemberMetadataValue × CurrentMemberAssignmentValue)) :
    List (String × Option Partitions) :=
  match before, after with
  | some _, none => [(id, none)]
  | _, _ => []

/-- The records of the transition to `g`.  `target` lists the members whose
target changed when the transition computed one. -/
def finish (r : Recorder) (g : GroupState) (target : Option (List String))
    (partitionMetadataTombstone : Bool) : PendingRecords where
  groupMetadata :=
    if g.groupEpoch ≠ r.groupEpoch then
      some { epoch := g.groupEpoch, metadataHash := g.metadataHash }
    else none
  memberMetadata :=
    r.members.flatMap fun e => changeOf e.1 (e.2.map Prod.fst) ((memberValues g e.1).map Prod.fst)
  currentPerMember :=
    r.members.flatMap fun e => changeOf e.1 (e.2.map Prod.snd) ((memberValues g e.1).map Prod.snd)
  targetMetadata :=
    target.map fun _ =>
      { assignmentEpoch := g.target.epoch, assignmentTimestampMs := g.assignmentTimestampMs }
  targetPerMember :=
    r.members.flatMap (fun e => removalOf e.1 e.2 (memberValues g e.1)) ++
      (target.getD []).map fun id => (id, some (g.targetOf id))
  partitionMetadataTombstone := partitionMetadataTombstone

end Recorder

/-! ## Seeds -/

/-- What the records of a group add up to. -/
structure GroupSeed where
  groupEpoch : Int
  metadataHash : Int
  targetEpoch : Int
  assignmentTimestampMs : Int
  members : SortedMap String MemberMetadataValue
  targetPerMember : SortedMap String Partitions
  currentPerMember : SortedMap String CurrentMemberAssignmentValue
  resolvedRegexes : SortedMap String ResolvedRegularExpression
  hasSubscriptionMetadataRecord : Bool
  deriving DecidableEq

namespace GroupSeed

/-- `GroupSeed::default`: what the seed cache starts a group from. -/
def default : GroupSeed where
  groupEpoch := 0
  metadataHash := 0
  targetEpoch := 0
  assignmentTimestampMs := 0
  members := SortedMap.empty
  targetPerMember := SortedMap.empty
  currentPerMember := SortedMap.empty
  resolvedRegexes := SortedMap.empty
  hasSubscriptionMetadataRecord := false

/-- `GroupSeed::new_group`: what the replay of the log starts a group from. -/
def newGroup : GroupSeed :=
  { default with groupEpoch := initialGroupEpoch, targetEpoch := initialGroupEpoch }

/-- `apply_own_to_cache`. -/
def applyOwn (seed : GroupSeed) (p : PendingRecords) : GroupSeed where
  groupEpoch := (p.groupMetadata.map GroupMetadataValue.epoch).getD seed.groupEpoch
  metadataHash := (p.groupMetadata.map GroupMetadataValue.metadataHash).getD seed.metadataHash
  targetEpoch :=
    (p.targetMetadata.map TargetAssignmentMetadataValue.assignmentEpoch).getD seed.targetEpoch
  assignmentTimestampMs :=
    (p.targetMetadata.map TargetAssignmentMetadataValue.assignmentTimestampMs).getD
      seed.assignmentTimestampMs
  members := seed.members.patch p.memberMetadata
  targetPerMember := seed.targetPerMember.patch p.targetPerMember
  currentPerMember := seed.currentPerMember.patch p.currentPerMember
  resolvedRegexes := seed.resolvedRegexes.patch p.resolvedRegexes
  hasSubscriptionMetadataRecord :=
    if p.partitionMetadataTombstone then false else seed.hasSubscriptionMetadataRecord

/-- `apply_to_cache`: the records and those chained after them. -/
def applyAll (seed : GroupSeed) (pending : List PendingRecords) : GroupSeed :=
  pending.foldl applyOwn seed

end GroupSeed

/-! ## Loading a seed -/

/-- The member of a metadata record.  The empty pattern is no pattern. -/
def seededMember (memberId : String) (v : MemberMetadataValue) : Member :=
  { Member.empty memberId with
    instanceId := v.instanceId
    rackId := v.rackId
    clientId := v.clientId
    clientHost := v.clientHost
    subscribedTopicNames := v.subscribedTopicNames
    subscribedTopicRegex := v.subscribedTopicRegex.filter fun regex => regex ≠ ""
    serverAssignor := v.serverAssignor }

/-- The member of the metadata record with what its current assignment record
says it holds. -/
def Member.hydrate (m : Member) (current : CurrentMemberAssignmentValue) : Member :=
  { m with
    memberEpoch := current.memberEpoch
    previousMemberEpoch := current.previousMemberEpoch
    assignmentState := current.state
    assignmentEpochs :=
      (current.assignedPartitions.entries ++ current.partitionsPendingRevocation.entries).foldl
        (fun epochs e => epochs.insert e.1 e.2) m.assignmentEpochs
    assignedPartitions := current.assignedPartitions.keySet
    partitionsPendingRevocation := current.partitionsPendingRevocation.keySet }

namespace GroupState

def applySeed (g : GroupState) (seed : GroupSeed) : GroupState :=
  let g :=
    { g with
      groupEpoch := seed.groupEpoch
      metadataHash := seed.metadataHash
      target.epoch := seed.targetEpoch
      assignmentTimestampMs := seed.assignmentTimestampMs
      hasSubscriptionMetadataRecord := seed.hasSubscriptionMetadataRecord }
  let g := seed.resolvedRegexes.entries.foldl (fun g e => g.setResolvedRegex e.1 e.2) g
  let g := seed.members.entries.foldl (fun g e => g.addOrUpdateMember (seededMember e.1 e.2)) g
  let members :=
    seed.currentPerMember.entries.foldl (fun members e => members.modify e.1 (Member.hydrate · e.2))
      g.members
  let perMember :=
    seed.targetPerMember.entries.foldl (fun targets e => targets.insert e.1 e.2) g.target.perMember
  { g with
    members := members
    target.perMember := perMember
    metadataRefreshRequested := true }

/-- The group that a respawned coordinator actor serves. -/
def respawn (groupId : String) (cached : Option GroupSeed) : GroupState :=
  match cached with
  | some seed => (GroupState.new groupId).applySeed seed
  | none => GroupState.new groupId

end GroupState

end Krabka.ConsumerGroup

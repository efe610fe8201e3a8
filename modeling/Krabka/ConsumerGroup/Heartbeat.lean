import Krabka.ConsumerGroup.Target

/-!
# The heartbeat

`step_heartbeat` of `actor/heartbeat.rs` with the member lookup of
`heartbeat/identity.rs`, the member update of `actor/member_state.rs` and the
regular expression update of `actor/regex_resolution.rs`; the fence of members
and the application of a regular expression resolution, which change the group
outside a heartbeat.

`Heartbeat` has what a heartbeat reads beside the group: the configuration and
the image, the clocks, the resolver, and the member id that the broker mints
for a request without one.  All of it is arbitrary.
-/

namespace Krabka.ConsumerGroup

/-! ## Requests and answers -/

/-- `ConsumerGroupHeartbeatRequest`. -/
structure HeartbeatRequest where
  memberId : String
  memberEpoch : Int
  instanceId : Option String := none
  rackId : Option String := none
  rebalanceTimeoutMs : Int := -1
  subscribedTopicNames : Option (List String) := none
  subscribedTopicRegex : Option String := none
  serverAssignor : Option String := none
  topicPartitions : Option (List (Uuid × List Int)) := none
  deriving DecidableEq

/-- `ConsumerGroupHeartbeatResponse`. -/
structure HeartbeatResponse where
  errorCode : ErrorCode := .none
  errorMessage : Option String := none
  memberId : Option String := none
  memberEpoch : Int := 0
  heartbeatIntervalMs : Int := 0
  assignment : Option Partitions := none
  deriving DecidableEq

structure HeartbeatError where
  code : ErrorCode
  message : String
  deriving DecidableEq

/-- What a resolution of regular expressions found. -/
abbrev Resolutions := SortedMap String ResolvedRegularExpression

/-- What a heartbeat brings to resolve regular expressions.  `check` gives the
reason why a pattern does not compile. -/
structure RegexResolution where
  resolve : SortedSet String → Resolutions
  check : String → Option String
  refreshVersion : Int
  nowMs : Int
  refreshIntervalMs : Int
  minRefreshIntervalMs : Int

/-- What a heartbeat reads beside the group and the request. -/
structure Heartbeat where
  config : Config
  image : MetadataImage
  clientId : String
  clientHost : String
  regexes : RegexResolution
  /-- The wall clock, before and after the target calculation. -/
  nowMs : Int
  finishedMs : Nat
  /-- The member id that the broker mints. -/
  mintedId : String
  mintedId_ne : mintedId ≠ ""

/-- What the heartbeat answers, the records it writes, and what its regular
expression resolution found. -/
structure HeartbeatStep where
  group : GroupState
  response : HeartbeatResponse
  pending : List PendingRecords := [{}]
  resolutions : Option Resolutions := none

def firstJoinMemberId (hb : Heartbeat) (requestMemberId : String) : String :=
  if requestMemberId = "" then hb.mintedId else requestMemberId

def reportedOwned (req : HeartbeatRequest) : Option Partitions :=
  req.topicPartitions.map fun topics =>
    SortedSet.ofList <| topics.flatMap fun t => t.2.map fun p => { topicId := t.1, partition := p }

/-! ## Who the heartbeat speaks for -/

/-- The member that a regular heartbeat belongs to. -/
inductive Resolved where
  | new
  | existing
  | replaces (previous : String)
  deriving DecidableEq

def fencedEpoch (direction : String) (received known : Int) : HeartbeatError where
  code := .fencedMemberEpoch
  message :=
    s!"The consumer group member has a {direction} member epoch ({received}) than the " ++
      s!"one known by the group coordinator ({known}). The member must abandon all its " ++
      "partitions and rejoin."

def unknownMember (memberId groupId : String) : HeartbeatError where
  code := .unknownMemberId
  message := s!"Member {memberId} is not a member of group {groupId}."

def unknownInstance (instanceId : String) : HeartbeatError where
  code := .unknownMemberId
  message := s!"Instance id {instanceId} is unknown."

def fencedInstance (memberId instanceId owner : String) : HeartbeatError where
  code := .fencedInstanceId
  message :=
    s!"Static member {memberId} with instance id {instanceId} was fenced by member {owner}."

def unreleasedInstance (memberId instanceId owner : String) : HeartbeatError where
  code := .unreleasedInstanceId
  message :=
    s!"Static member {memberId} with instance id {instanceId} cannot join the group " ++
      s!"because the instance id is owned by {owner} member."

/-- Every partition that the request reports is in the member's assignment.  An
absent list is not, and a topic that the assignment does not have is not. -/
def ownsSubset (owned : Option (List (Uuid × List Int))) (m : Member) : Bool :=
  match owned with
  | none => false
  | some owned =>
    owned.all fun t =>
      (m.assignedPartitions.elems.any fun tp => tp.topicId = t.1) &&
        t.2.all fun p => { topicId := t.1, partition := p } ∈ m.assignedPartitions

def validateEpoch (m : Member) (received : Int) (owned : Option (List (Uuid × List Int))) :
    Except HeartbeatError Unit :=
  if received = 0 ∨ received = m.memberEpoch then .ok ()
  else if received > m.memberEpoch then .error (fencedEpoch "greater" received m.memberEpoch)
  else if received = m.previousMemberEpoch ∧ ownsSubset owned m then .ok ()
  else .error (fencedEpoch "smaller" received m.memberEpoch)

namespace GroupState

def staticMember (g : GroupState) (instanceId : String) : Option Member :=
  (g.currentMemberForInstance instanceId).bind g.members.get?

def resolveMember (g : GroupState) (req : HeartbeatRequest) (memberId : String) :
    Except HeartbeatError Resolved :=
  match req.instanceId with
  | none =>
    match g.members.get? memberId with
    | some m => (validateEpoch m req.memberEpoch req.topicPartitions).map fun _ => .existing
    | none => if req.memberEpoch = 0 then .ok .new else .error (unknownMember memberId g.groupId)
  | some instanceId =>
    if req.memberEpoch = 0 then
      match g.staticMember instanceId with
      | none => if g.members.contains memberId then .ok .existing else .ok .new
      | some existing =>
        if existing.memberEpoch ≠ leaveGroupStaticMemberEpoch then
          .error (unreleasedInstance memberId instanceId existing.memberId)
        else .ok (.replaces existing.memberId)
    else
      match g.staticMember instanceId with
      | none => .error (unknownInstance instanceId)
      | some existing =>
        if existing.memberId ≠ memberId then
          .error (fencedInstance memberId instanceId existing.memberId)
        else (validateEpoch existing req.memberEpoch req.topicPartitions).map fun _ => .existing

def resolveLeavingMember (g : GroupState) (req : HeartbeatRequest) : Except HeartbeatError Member :=
  match req.instanceId with
  | none =>
    match g.members.get? req.memberId with
    | some m => .ok m
    | none => .error (unknownMember req.memberId g.groupId)
  | some instanceId =>
    match g.staticMember instanceId with
    | none => .error (unknownInstance instanceId)
    | some existing =>
      if existing.memberId ≠ req.memberId then
        .error (fencedInstance req.memberId instanceId existing.memberId)
      else .ok existing

end GroupState

/-! ## Regular expressions -/

/-- What a heartbeat did to the group's regular expression subscriptions. -/
inductive RegexUpdate where
  | noChange
  /-- The member changed its pattern to one that is not resolved yet. -/
  | updated
  /-- The member changed its pattern to one that the group has resolved, or
  dropped its pattern. -/
  | updatedAndResolved
  deriving DecidableEq

def RegexUpdate.regexUpdated (u : RegexUpdate) : Bool := u ≠ .noChange

/-- The empty pattern is how a client drops its pattern. -/
def nonEmptyRegex (pattern : String) : Option String := if pattern = "" then none else some pattern

/-- Addition and subtraction of `i64` that stop at the bounds. -/
def saturateI64 (n : Int) : Int := max GroupState.i64Min (min GroupState.i64Max n)

def decrement (counts : SortedMap String Nat) (regex : String) : SortedMap String Nat :=
  match counts.get? regex with
  | some count => if count - 1 = 0 then counts.erase regex else counts.insert regex (count - 1)
  | none => counts

namespace GroupState

variable (g : GroupState)

/-- The last resolution is too recent to resolve again. -/
def regexThrottled (regexes : RegexResolution) : Bool :=
  regexes.nowMs ≤ saturateI64 (g.lastRegexResolutionMs + regexes.minRefreshIntervalMs)

/-- Drops the resolution of the pattern that its last subscriber drops. -/
def dropOldRegex (oldRegex : Option String) :
    GroupState × List (String × Option ResolvedRegularExpression) :=
  match oldRegex with
  | some old =>
    if g.numSubscribedMembers old = 1 ∧ (g.resolvedRegex old).isSome then
      (g.removeResolvedRegex old, [(old, none)])
    else (g, [])
  | none => (g, [])

variable (oldRegex newRegex : Option String)

/-- What the heartbeat did to the pattern of the member, read in the group whose
old pattern was dropped. -/
def regexUpdateOf : RegexUpdate :=
  if oldRegex = newRegex then .noChange
  else
    match newRegex with
    | some new =>
      if g.numSubscribedMembers new ≠ 0 ∧ (g.resolvedRegex new).isSome then .updatedAndResolved
      else .updated
    | none => if oldRegex.isSome then .updatedAndResolved else .updated

/-- The patterns of the group with the change of the member. -/
def regexesAfter : SortedMap String Nat :=
  let subscribed := g.subscribedRegexes
  let subscribed := match oldRegex with
    | some old => decrement subscribed old
    | none => subscribed
  match newRegex with
  | some new => subscribed.insert new ((subscribed.get? new).getD 0 + 1)
  | none => subscribed

def maybeUpdateRegularExpressions (regexes : RegexResolution) :
    GroupState × RegexUpdate × Option Resolutions ×
      List (String × Option ResolvedRegularExpression) :=
  -- A member with no pattern before and after still refreshes stale resolutions.
  if oldRegex = none ∧ newRegex = none ∧
      (g.regexThrottled regexes ∨ g.members.values.all fun m => m.subscribedTopicRegex = none) then
    (g, .noChange, none, [])
  else
    let dropped := if oldRegex ≠ newRegex then g.dropOldRegex oldRegex else (g, [])
    let update := dropped.1.regexUpdateOf oldRegex newRegex
    if dropped.1.regexThrottled regexes then (dropped.1, update, none, dropped.2)
    else
      let subscribed := dropped.1.regexesAfter oldRegex newRegex
      let isNew :=
        oldRegex ≠ newRegex ∧ newRegex.any fun new => dropped.1.numSubscribedMembers new = 0
      let requireRefresh :=
        decide isNew || subscribed.entries.length ≠ dropped.1.numResolvedRegexes ||
          dropped.1.lastRegexResolutionVersion < regexes.refreshVersion ||
          saturateI64 (regexes.nowMs - dropped.1.lastRegexResolutionMs) > regexes.refreshIntervalMs
      if requireRefresh ∧ subscribed.entries ≠ [] then
        (dropped.1, update, some (regexes.resolve subscribed.keySet), dropped.2)
      else (dropped.1, update, none, dropped.2)

/-- Stores the resolution of one pattern that a member still uses. -/
def applyResolution (acc : GroupState × Bool × List (String × Option ResolvedRegularExpression))
    (e : String × ResolvedRegularExpression) :
    GroupState × Bool × List (String × Option ResolvedRegularExpression) :=
  if acc.1.numSubscribedMembers e.1 = 0 then acc
  else
    let moved : Bool :=
      match acc.1.resolvedRegex e.1 with
      | none => e.2.topics ≠ ∅
      | some old => old.topics ≠ e.2.topics
    (acc.1.setResolvedRegex e.1 e.2, acc.2.1 || moved, acc.2.2 ++ [(e.1, some e.2)])

/-- `apply_regex_result`: applies what a resolution found, with the records of
its own batch. -/
def applyRegexResult (resolved : Resolutions) (image : MetadataImage) :
    GroupState × PendingRecords :=
  let acc := resolved.entries.foldl applyResolution (g, false, [])
  let hash := acc.1.currentMetadataHash image
  if acc.2.1 ∨ hash ≠ acc.1.metadataHash then
    match acc.1.bumpEpoch with
    | some bumped =>
      (bumped.recordMetadataHash hash,
        { resolvedRegexes := acc.2.2
          groupMetadata := some { epoch := bumped.groupEpoch, metadataHash := hash } })
    | none => (acc.1, { resolvedRegexes := acc.2.2 })
  else (acc.1, { resolvedRegexes := acc.2.2 })

def deleteUnsubscribedRegexes : GroupState × List (String × Option ResolvedRegularExpression) :=
  let regexes := g.unsubscribedResolvedRegexes
  (regexes.foldl removeResolvedRegex g, regexes.map fun regex => (regex, none))

/-! ## Leaving -/

def fenceMembers (image : MetadataImage) (memberIds : List String) : GroupState × PendingRecords :=
  if memberIds = [] then (g, {})
  else
    let recorder := Recorder.start g memberIds
    let removed := memberIds.foldl removeMember g
    let pruned := removed.deleteUnsubscribedRegexes
    let bumped := pruned.1.bumpWithMetadataHash image
    (bumped, { recorder.finish bumped none false with resolvedRegexes := pruned.2 })

/-! ## The member update -/

/-- A member update that the rest of the heartbeat follows. -/
structure MemberChange where
  memberId : String
  oldRegex : Option String
  newRegex : Option String
  namesChanged : Bool
  owned : Option Partitions

/-- What a heartbeat's member update did to the group. -/
structure MemberUpdate where
  group : GroupState
  regexRecords : List (String × Option ResolvedRegularExpression)
  resolutions : Option Resolutions
  partitionMetadataTombstone : Bool
  target : Option (List String)

end GroupState

def Member.withRegex (m : Member) (regex : Option String) : Member :=
  { m with subscribedTopicRegex := regex }

namespace GroupState

def afterMemberUpdate (g : GroupState) (hb : Heartbeat) (change : MemberChange) : MemberUpdate :=
  let regex := g.maybeUpdateRegularExpressions change.oldRegex change.newRegex hb.regexes
  let withRegex :=
    { regex.1 with
      members := regex.1.members.modify change.memberId (Member.withRegex · change.newRegex) }
  let subscriptionChanged := change.namesChanged || regex.2.1.regexUpdated
  let bump := change.namesChanged || regex.2.1 = .updatedAndResolved
  let updated := withRegex.updateSubscription hb.image bump
  let targeted := updated.1.maybeUpdateTarget hb.config hb.image hb.nowMs hb.finishedMs
  let reconciled :=
    targeted.1.reconcileMember change.memberId change.owned subscriptionChanged hb.image
  { group := reconciled.1
    regexRecords := regex.2.2.2
    resolutions := regex.2.2.1
    partitionMetadataTombstone := updated.2
    target := targeted.2 }

end GroupState

def Member.updateFields (m : Member) (hb : Heartbeat) (req : HeartbeatRequest) : Member :=
  { m with
    clientId := hb.clientId
    clientHost := hb.clientHost
    rackId := req.rackId.orElse fun _ => m.rackId
    serverAssignor := req.serverAssignor.orElse fun _ => m.serverAssignor
    subscribedTopicNames :=
      (req.subscribedTopicNames.map SortedSet.ofList).getD m.subscribedTopicNames }

def invalidRegexMessage (pattern detail : String) : String :=
  s!"SubscribedTopicRegex `{pattern}` is not a valid regular expression: {detail}."

/-- The message for a pattern that does not compile. -/
def checkSubscribedTopicRegex (hb : Heartbeat) (pattern : String) : Option String :=
  (hb.regexes.check pattern).map (invalidRegexMessage pattern)

namespace GroupState

/-- `update_member_state` for the member `memberId`, or the message of a pattern
that does not compile. -/
def updateMemberState (g : GroupState) (hb : Heartbeat) (req : HeartbeatRequest)
    (memberId : String) : Except String MemberUpdate :=
  let oldRegex := (g.members.get? memberId).bind Member.subscribedTopicRegex
  let newRegex := match req.subscribedTopicRegex with
    | some pattern => nonEmptyRegex pattern
    | none => oldRegex
  let invalid := if newRegex ≠ oldRegex then newRegex.bind (checkSubscribedTopicRegex hb) else none
  match invalid with
  | some message => .error message
  | none =>
    let namesChanged := (g.members.get? memberId).any fun m =>
      (m.updateFields hb req).subscribedTopicNames ≠ m.subscribedTopicNames
    let updated := { g with members := g.members.modify memberId fun m => m.updateFields hb req }
    .ok (updated.afterMemberUpdate hb
      { memberId := memberId
        oldRegex := oldRegex
        newRegex := newRegex
        namesChanged := namesChanged
        owned := reportedOwned req })

end GroupState

def buildMember (hb : Heartbeat) (req : HeartbeatRequest) (memberId : String) : Member :=
  { Member.empty memberId with
    instanceId := req.instanceId
    rackId := req.rackId
    clientId := hb.clientId
    clientHost := hb.clientHost
    subscribedTopicNames := (req.subscribedTopicNames.map SortedSet.ofList).getD ∅
    subscribedTopicRegex := req.subscribedTopicRegex.bind nonEmptyRegex
    serverAssignor := req.serverAssignor }

/-- `try_build_member`: a first join with a bad pattern fails. -/
def tryBuildMember (hb : Heartbeat) (req : HeartbeatRequest) (memberId : String) :
    Except String Member :=
  match (req.subscribedTopicRegex.bind nonEmptyRegex).bind (checkSubscribedTopicRegex hb) with
  | some message => .error message
  | none => .ok (buildMember hb req memberId)

/-! ## The step -/

/-- A member sends every field when it joins, rejoins or recovers. -/
def isFullRequest (req : HeartbeatRequest) : Bool :=
  req.rebalanceTimeoutMs ≠ -1 ∧
    (req.subscribedTopicNames.isSome ∨ req.subscribedTopicRegex.isSome) ∧ req.topicPartitions.isSome

namespace GroupState

variable (g : GroupState)

def rejected (error : HeartbeatError) : HeartbeatStep where
  group := g
  response := { errorCode := error.code, errorMessage := some error.message }

def invalidRegex (message : String) : HeartbeatStep :=
  g.rejected { code := .invalidRegularExpression, message := message }

def buildAssignmentResp (memberId : String) (config : Config)
    (includeAssignment : Bool) : HeartbeatResponse :=
  match g.members.get? memberId with
  | none => { errorCode := .unknownMemberId }
  | some m =>
    { memberId := some memberId
      memberEpoch := m.memberEpoch
      heartbeatIntervalMs := config.heartbeatIntervalMs
      assignment := if includeAssignment then some m.assignedPartitions else none }

/-- The records of `replaceMember`: the tombstones of the released member, then
the subscription, target and assignment of the new one. -/
def replacementRecords (g replaced : GroupState) (previous memberId : String) : PendingRecords :=
  let pending := (Recorder.start g [previous, memberId]).finish replaced none false
  { pending with
    targetPerMember := pending.targetPerMember ++ [(memberId, some (replaced.targetOf memberId))] }

/-- `member_update_records`.  A replaced member gets a target record whenever
the update computed a target. -/
def memberUpdateRecords (recorder : Recorder) (update : MemberUpdate) (memberId : String)
    (replacement : Option PendingRecords) : List PendingRecords :=
  let target := update.target.map fun changed =>
    if replacement.isSome ∧ memberId ∉ changed then (SortedSet.ofList (memberId :: changed)).elems
    else changed
  let pending :=
    { recorder.finish update.group target update.partitionMetadataTombstone with
      resolvedRegexes := update.regexRecords }
  replacement.toList ++ [pending]

def leaveStep (image : MetadataImage) (req : HeartbeatRequest) : HeartbeatStep :=
  match g.resolveLeavingMember req with
  | .error error => g.rejected error
  | .ok member =>
    let response := { memberId := some req.memberId, memberEpoch := req.memberEpoch }
    if req.instanceId.isSome ∧ req.memberEpoch = leaveGroupStaticMemberEpoch then
      let released := g.releaseStaticMember member.memberId
      { group := released
        response := response
        pending :=
          [{ currentPerMember :=
              ((released.members.get? member.memberId).map fun m =>
                (member.memberId, some (currentAssignmentValue m))).toList }] }
    else
      let fenced := g.fenceMembers image [member.memberId]
      { group := fenced.1, response := response, pending := [fenced.2] }

def joinStep (hb : Heartbeat) (req : HeartbeatRequest) (memberId : String) : HeartbeatStep :=
  match tryBuildMember hb req memberId with
  | .error message => g.invalidRegex message
  | .ok m =>
    let recorder := Recorder.start g [memberId]
    let joined := g.addOrUpdateMember (m.withRegex none)
    let update := joined.afterMemberUpdate hb
      { memberId := memberId
        oldRegex := none
        newRegex := m.subscribedTopicRegex
        namesChanged := m.subscribedTopicNames ≠ ∅
        owned := reportedOwned req }
    { group := update.group
      response := update.group.buildAssignmentResp memberId hb.config true
      pending := memberUpdateRecords recorder update memberId none
      resolutions := update.resolutions }

/-- The heartbeat of a member that the group holds. -/
def steadyStep (hb : Heartbeat) (req : HeartbeatRequest) (memberId : String)
    (assignedBefore : Option Partitions) (replacement : Option PendingRecords) : HeartbeatStep :=
  let recorder := Recorder.start g [memberId]
  match g.updateMemberState hb req memberId with
  | .error message => g.invalidRegex message
  | .ok update =>
    let assignmentChanged :=
      assignedBefore ≠ (update.group.members.get? memberId).map Member.assignedPartitions
    let includeAssignment := req.memberEpoch = 0 ∨ isFullRequest req ∨ assignmentChanged
    { group := update.group
      response := update.group.buildAssignmentResp memberId hb.config includeAssignment
      pending := memberUpdateRecords recorder update memberId replacement
      resolutions := update.resolutions }

/-- The heartbeat of a member that takes the place of a released one. -/
def replaceStep (hb : Heartbeat) (req : HeartbeatRequest)
    (previous memberId : String) : HeartbeatStep :=
  match req.subscribedTopicRegex.bind (checkSubscribedTopicRegex hb) with
  | some message => g.invalidRegex message
  | none =>
    let replaced := g.replaceStaticMember previous memberId
    replaced.steadyStep hb req memberId ((g.members.get? memberId).map Member.assignedPartitions)
      (some (g.replacementRecords replaced previous memberId))

def groupFull (maxSize : Nat) : HeartbeatError where
  code := .groupMaxSizeReached
  message := s!"The consumer group has reached its maximum capacity of {maxSize} members."

def stepHeartbeat (hb : Heartbeat) (req : HeartbeatRequest) : HeartbeatStep :=
  if req.memberEpoch = leaveGroupMemberEpoch ∨ req.memberEpoch = leaveGroupStaticMemberEpoch then
    g.leaveStep hb.image req
  else if req.serverAssignor.any fun name => !hb.config.assignorEnabled name then
    { group := g, response := { errorCode := .unsupportedAssignor } }
  else if g.members.entries.length ≥ hb.config.maxSize ∧
      (req.memberId = "" ∨ !g.members.contains req.memberId) then
    g.rejected (groupFull hb.config.maxSize)
  else
    let memberId := firstJoinMemberId hb req.memberId
    match g.resolveMember req memberId with
    | .error error => g.rejected error
    | .ok .new => g.joinStep hb req memberId
    | .ok .existing =>
      g.steadyStep hb req memberId ((g.members.get? memberId).map Member.assignedPartitions) none
    | .ok (.replaces previous) => g.replaceStep hb req previous memberId

end GroupState

end Krabka.ConsumerGroup

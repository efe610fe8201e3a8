import Krabka.ConsumerGroup.Roster

/-!
# What the transitions do

`HeartbeatTransition` lists what an accepted heartbeat does to the group and
which records it writes.  `stepHeartbeat_outcome` says that every heartbeat is
one of these or is refused and leaves the group as it found it, so that a
property of the heartbeat is proved once for each transition.  The roster stays
sound along all of them, along a fence and along the application of a
resolution.
-/

namespace Krabka.ConsumerGroup

open SortedMap

namespace GroupState

variable {g : GroupState} {hb : Heartbeat}

/-! ## The outcomes of a heartbeat -/

def withJoined (g : GroupState) (hb : Heartbeat) (req : HeartbeatRequest) (id : String) :
    GroupState :=
  g.addOrUpdateMember ((buildMember hb req id).withRegex none)

def joinChange (hb : Heartbeat) (req : HeartbeatRequest) (id : String) : MemberChange where
  memberId := id
  oldRegex := none
  newRegex := (buildMember hb req id).subscribedTopicRegex
  namesChanged := (buildMember hb req id).subscribedTopicNames ≠ ∅
  owned := reportedOwned req

def joinUpdate (g : GroupState) (hb : Heartbeat) (req : HeartbeatRequest) (id : String) :
    MemberUpdate :=
  (g.withJoined hb req id).afterMemberUpdate hb (joinChange hb req id)

theorem get?_withJoined_self (g : GroupState) (hb : Heartbeat) (req : HeartbeatRequest)
    (id : String) :
    (g.withJoined hb req id).members.get? (joinChange hb req id).memberId =
      some ((buildMember hb req id).withRegex none) :=
  (g.members.get?_insert id _ id).trans (if_pos rfl)

theorem joinChange_newRegex_ne (hb : Heartbeat) (req : HeartbeatRequest) (id : String) :
    (joinChange hb req id).newRegex ≠ some "" := by
  intro hempty
  obtain ⟨pattern, -, hpattern⟩ := Option.bind_eq_some_iff.mp hempty
  unfold nonEmptyRegex at hpattern
  split_ifs at hpattern with hne
  exact hne (Option.some.inj hpattern)

theorem joinUpdate_members (g : GroupState) (hb : Heartbeat) (req : HeartbeatRequest)
    (id : String) : ∃ m', (g.joinUpdate hb req id).group.members = g.members.insert id m' := by
  rcases (g.withJoined hb req id).afterMemberUpdate_members hb
      (g.get?_withJoined_self hb req id) with
    hsame | ⟨r, -, hinstalled⟩
  · exact ⟨_, hsame.trans (insert_insert ..)⟩
  · exact ⟨_, hinstalled.trans (insert_insert ..)⟩

/-- What an accepted heartbeat does: the group after it and its records. -/
inductive HeartbeatTransition (g : GroupState) (hb : Heartbeat) (req : HeartbeatRequest) :
    GroupState → List PendingRecords → Prop
  | release {m} (hm : g.members.get? req.memberId = some m) (hepoch : req.memberEpoch ≠ 0) :
    HeartbeatTransition g hb req (g.releaseStaticMember req.memberId)
      [{ currentPerMember := [(req.memberId, some (currentAssignmentValue (released m)))] }]
  | leave {m} (hm : g.members.get? req.memberId = some m) (hepoch : req.memberEpoch ≠ 0) :
    HeartbeatTransition g hb req (g.fenceMembers hb.image [req.memberId]).1
      [(g.fenceMembers hb.image [req.memberId]).2]
  | join {id} (hid : id = firstJoinMemberId hb req.memberId) (hnone : g.members.get? id = none)
      (hresolved : g.resolveMember req id = .ok .new) :
    HeartbeatTransition g hb req (g.joinUpdate hb req id).group
      (memberUpdateRecords (Recorder.start g [id]) (g.joinUpdate hb req id) id none)
  | steady {id m update} (hid : id = firstJoinMemberId hb req.memberId)
      (hm : g.members.get? id = some m) (hupdate : g.updateMemberState hb req id = .ok update)
      (hresolved : g.resolveMember req id = .ok .existing) :
    HeartbeatTransition g hb req update.group
      (memberUpdateRecords (Recorder.start g [id]) update id none)
  | replace {previous id m update} (hid : id = firstJoinMemberId hb req.memberId)
      (hresolved : g.resolveMember req id = .ok (.replaces previous))
      (hm : g.members.get? previous = some m)
      (hreleased : m.memberEpoch = leaveGroupStaticMemberEpoch)
      (hupdate : (g.replaceStaticMember previous id).updateMemberState hb req id = .ok update) :
    HeartbeatTransition g hb req update.group
      (memberUpdateRecords (Recorder.start (g.replaceStaticMember previous id) [id]) update id
        (some (g.replacementRecords (g.replaceStaticMember previous id) previous id)))

/-- An accepted heartbeat did one of these, and a refused one nothing. -/
def HeartbeatOutcome (g : GroupState) (hb : Heartbeat) (req : HeartbeatRequest)
    (step : HeartbeatStep) : Prop :=
  step.group = g ∧ step.response.errorCode ≠ .none ∨
    HeartbeatTransition g hb req step.group step.pending ∧ step.response.errorCode = .none

theorem firstJoinMemberId_ne (hb : Heartbeat) (id : String) : firstJoinMemberId hb id ≠ "" := by
  unfold firstJoinMemberId
  split_ifs with h
  · exact hb.mintedId_ne
  · exact h

variable {req : HeartbeatRequest}

theorem rejected_outcome {error : HeartbeatError}
    (h : error.code ≠ .none) : HeartbeatOutcome g hb req (g.rejected error) :=
  .inl ⟨rfl, h⟩

variable {id : String} {m : Member}

theorem buildAssignmentResp_errorCode {config : Config}
    {includeAssignment : Bool} (hm : g.members.get? id = some m) :
    (g.buildAssignmentResp id config includeAssignment).errorCode = .none := by
  rw [buildAssignmentResp, hm]

theorem staticMember_eq_some (hg : SoundRoster g.members) {instanceId : String}
    (h : g.staticMember instanceId = some m) : g.members.get? m.memberId = some m := by
  obtain ⟨id, -, hget⟩ := Option.bind_eq_some_iff.mp h
  rw [(hg.wellFormed id m hget).id_eq]
  exact hget

theorem resolveLeavingMember_cases (hg : SoundRoster g.members) (req : HeartbeatRequest) :
    (∃ error, g.resolveLeavingMember req = .error error ∧ error.code ≠ .none) ∨
      ∃ m, g.resolveLeavingMember req = .ok m ∧ g.members.get? req.memberId = some m ∧
        m.memberId = req.memberId := by
  unfold resolveLeavingMember
  cases req.instanceId with
  | none =>
    cases hm : g.members.get? req.memberId with
    | none => exact .inl ⟨_, rfl, ErrorCode.noConfusion⟩
    | some m => exact .inr ⟨m, rfl, rfl, (hg.wellFormed _ m hm).id_eq⟩
  | some instanceId =>
    dsimp only
    cases hm : g.staticMember instanceId with
    | none => exact .inl ⟨_, rfl, ErrorCode.noConfusion⟩
    | some m =>
      dsimp only
      by_cases hid : m.memberId = req.memberId
      · rw [if_neg (not_not.mpr hid)]
        exact .inr ⟨m, rfl, hid ▸ staticMember_eq_some hg hm, hid⟩
      · rw [if_pos hid]
        exact .inl ⟨_, rfl, ErrorCode.noConfusion⟩

theorem leaveStep_outcome (hg : SoundRoster g.members) (hb : Heartbeat) (req : HeartbeatRequest)
    (hepoch : req.memberEpoch ≠ 0) : HeartbeatOutcome g hb req (g.leaveStep hb.image req) := by
  rcases resolveLeavingMember_cases hg req with ⟨error, herror, hcode⟩ | ⟨m, hok, hm, hid⟩
  · rw [leaveStep, herror]
    exact rejected_outcome hcode
  · rw [leaveStep, hok]
    dsimp only
    rw [hid]
    split_ifs with hstatic
    · refine .inr ⟨?_, rfl⟩
      have hreleased : (g.releaseStaticMember req.memberId).members.get? req.memberId =
          some (released m) := by
        rw [get?_releaseStaticMember, if_pos rfl, hm, Option.map_some]
      rw [hreleased]
      exact .release hm hepoch
    · exact .inr ⟨.leave hm hepoch, rfl⟩

theorem joinStep_outcome (hb : Heartbeat) (req : HeartbeatRequest)
    (hnone : g.members.get? (firstJoinMemberId hb req.memberId) = none)
    (hresolved : g.resolveMember req (firstJoinMemberId hb req.memberId) = .ok .new) :
    HeartbeatOutcome g hb req (g.joinStep hb req (firstJoinMemberId hb req.memberId)) := by
  unfold joinStep tryBuildMember
  cases (req.subscribedTopicRegex.bind nonEmptyRegex).bind (checkSubscribedTopicRegex hb) with
  | some message => exact rejected_outcome ErrorCode.noConfusion
  | none =>
    refine .inr ⟨.join rfl hnone hresolved, ?_⟩
    obtain ⟨m', hmembers⟩ := g.joinUpdate_members hb req (firstJoinMemberId hb req.memberId)
    have hget : (g.joinUpdate hb req (firstJoinMemberId hb req.memberId)).group.members.get?
        (firstJoinMemberId hb req.memberId) = some m' := by
      rw [hmembers, get?_insert, if_pos rfl]
    exact buildAssignmentResp_errorCode hget

theorem updateMemberState_error {message : String}
    (h : g.updateMemberState hb req id = .error message) :
    (req.subscribedTopicRegex.bind (checkSubscribedTopicRegex hb)).isSome := by
  unfold updateMemberState at h
  cases hreq : req.subscribedTopicRegex with
  | none =>
    rw [hreq] at h
    simp at h
  | some pattern =>
    rw [hreq] at h
    dsimp only [nonEmptyRegex] at h
    split at h
    · rename_i hinvalid
      split_ifs at hinvalid with hempty
      · cases hinvalid
      · rw [Option.bind_some] at hinvalid ⊢
        rw [hinvalid]
        rfl
    · cases h

theorem steadyStep_outcome
    {assignedBefore : Option Partitions} {replacement : Option PendingRecords}
    (hm : g.members.get? id = some m) :
    (∃ message, g.updateMemberState hb req id = .error message ∧
        g.steadyStep hb req id assignedBefore replacement = g.invalidRegex message) ∨
      ∃ update, g.updateMemberState hb req id = .ok update ∧
        (g.steadyStep hb req id assignedBefore replacement).group = update.group ∧
        (g.steadyStep hb req id assignedBefore replacement).pending =
          memberUpdateRecords (Recorder.start g [id]) update id replacement ∧
        (g.steadyStep hb req id assignedBefore replacement).response.errorCode = .none := by
  unfold steadyStep
  cases hupdate : g.updateMemberState hb req id with
  | error message => exact .inl ⟨message, rfl, rfl⟩
  | ok update =>
    refine .inr ⟨update, rfl, rfl, rfl, ?_⟩
    obtain ⟨m', hmembers⟩ := updateMemberState_members hm hupdate
    have hget : update.group.members.get? id = some m' := by
      rw [hmembers, get?_insert, if_pos rfl]
    exact buildAssignmentResp_errorCode hget

theorem validateEpoch_cases (m : Member) (received : Int)
    (owned : Option (List (Uuid × List Int))) :
    (∃ error, validateEpoch m received owned = .error error ∧ error.code ≠ .none) ∨
      validateEpoch m received owned = .ok () := by
  unfold validateEpoch
  split_ifs
  · exact .inr rfl
  · exact .inl ⟨_, rfl, ErrorCode.noConfusion⟩
  · exact .inr rfl
  · exact .inl ⟨_, rfl, ErrorCode.noConfusion⟩

theorem resolveMember_cases (hg : SoundRoster g.members) (req : HeartbeatRequest) (id : String) :
    (∃ error, g.resolveMember req id = .error error ∧ error.code ≠ .none) ∨
      g.resolveMember req id = .ok .new ∧ g.members.get? id = none ∨
      (∃ m, g.resolveMember req id = .ok .existing ∧ g.members.get? id = some m) ∨
      ∃ previous m, g.resolveMember req id = .ok (.replaces previous) ∧
        g.members.get? previous = some m ∧ m.memberEpoch = leaveGroupStaticMemberEpoch := by
  unfold resolveMember
  cases req.instanceId with
  | none =>
    dsimp only
    cases hm : g.members.get? id with
    | none =>
      split_ifs
      · exact .inr (.inl ⟨rfl, rfl⟩)
      · exact .inl ⟨_, rfl, ErrorCode.noConfusion⟩
    | some m =>
      dsimp only
      rcases validateEpoch_cases m req.memberEpoch req.topicPartitions with
        ⟨error, herror, hcode⟩ | hok
      · rw [herror]
        exact .inl ⟨error, rfl, hcode⟩
      · rw [hok]
        exact .inr (.inr (.inl ⟨m, rfl, rfl⟩))
  | some instanceId =>
    dsimp only
    cases hstatic : g.staticMember instanceId with
    | none =>
      split_ifs with hjoining hcontains
      · obtain ⟨m, hm⟩ := Option.isSome_iff_exists.mp hcontains
        exact .inr (.inr (.inl ⟨m, rfl, hm⟩))
      · exact .inr (.inl ⟨rfl, Option.not_isSome_iff_eq_none.mp hcontains⟩)
      · exact .inl ⟨_, rfl, ErrorCode.noConfusion⟩
    | some m =>
      have hm := staticMember_eq_some hg hstatic
      dsimp only
      split_ifs with hjoining hepoch hid
      · exact .inl ⟨_, rfl, ErrorCode.noConfusion⟩
      · exact .inr (.inr (.inr ⟨m.memberId, m, rfl, hm, not_not.mp hepoch⟩))
      · exact .inl ⟨_, rfl, ErrorCode.noConfusion⟩
      · rcases validateEpoch_cases m req.memberEpoch req.topicPartitions with
          ⟨error, herror, hcode⟩ | hok
        · rw [herror]
          exact .inl ⟨error, rfl, hcode⟩
        · rw [hok]
          exact .inr (.inr (.inl ⟨m, rfl, not_not.mp hid ▸ hm⟩))

variable {previous : String}

theorem replaceStep_outcome (hresolved : g.resolveMember req (firstJoinMemberId hb req.memberId) =
      .ok (.replaces previous))
    (hm : g.members.get? previous = some m)
    (hreleased : m.memberEpoch = leaveGroupStaticMemberEpoch) :
    HeartbeatOutcome g hb req
      (g.replaceStep hb req previous (firstJoinMemberId hb req.memberId)) := by
  unfold replaceStep
  cases hcheck : req.subscribedTopicRegex.bind (checkSubscribedTopicRegex hb) with
  | some message => exact rejected_outcome ErrorCode.noConfusion
  | none =>
    have hget : (g.replaceStaticMember previous (firstJoinMemberId hb req.memberId)).members.get?
        (firstJoinMemberId hb req.memberId) =
        some (takenOver m (firstJoinMemberId hb req.memberId)) := by
      rw [get?_replaceStaticMember hm, if_pos rfl]
    rcases steadyStep_outcome hget with ⟨message, herror, -⟩ |
      ⟨update, hupdate, hgroup, hpending, hcode⟩
    · -- The pattern was checked before the member was replaced.
      have hinvalid := updateMemberState_error herror
      rw [hcheck] at hinvalid
      cases hinvalid
    · refine .inr ⟨?_, hcode⟩
      rw [hgroup, hpending]
      exact .replace rfl hresolved hm hreleased hupdate

/-- Every heartbeat is refused and changes nothing, or is one of the
transitions. -/
theorem stepHeartbeat_outcome (hg : SoundRoster g.members) (hb : Heartbeat)
    (req : HeartbeatRequest) : HeartbeatOutcome g hb req (g.stepHeartbeat hb req) := by
  unfold stepHeartbeat
  split_ifs with hleave hassignor hfull
  · refine leaveStep_outcome hg hb req ?_
    rcases hleave with hleave | hleave <;> rw [hleave] <;> decide
  · exact .inl ⟨rfl, ErrorCode.noConfusion⟩
  · exact rejected_outcome ErrorCode.noConfusion
  · dsimp only
    rcases resolveMember_cases hg req (firstJoinMemberId hb req.memberId) with
      ⟨error, herror, hcode⟩ | ⟨hnew, hnone⟩ | ⟨m, hexisting, hm⟩ |
        ⟨previous, m, hreplaces, hm, hreleased⟩
    · rw [herror]
      exact rejected_outcome hcode
    · rw [hnew]
      exact joinStep_outcome hb req hnone hnew
    · rw [hexisting]
      rcases steadyStep_outcome hm with
        ⟨message, -, hinvalid⟩ | ⟨update, hupdate, hgroup, hpending, hcode⟩
      · rw [hinvalid]
        exact rejected_outcome ErrorCode.noConfusion
      · refine .inr ⟨?_, hcode⟩
        rw [hgroup, hpending]
        exact .steady rfl hm hupdate hexisting
    · rw [hreplaces]
      exact replaceStep_outcome hreplaces hm hreleased

/-! ## The roster stays sound -/

theorem removeMember_members (g : GroupState) (id : String) :
    (g.removeMember id).members = g.members.erase id := by
  refine ext_get? fun x => ?_
  rw [get?_removeMember, get?_erase]

theorem foldl_removeMember_members (ids : List String) (g : GroupState) :
    (ids.foldl removeMember g).members = ids.foldl SortedMap.erase g.members :=
  (List.foldl_hom GroupState.members fun g id => (removeMember_members g id).symm).symm

@[simp] theorem foldl_removeResolvedRegex_members (regexes : List String) (g : GroupState) :
    (regexes.foldl removeResolvedRegex g).members = g.members := by
  induction regexes generalizing g with
  | nil => rfl
  | cons regex regexes ih =>
    rw [List.foldl_cons, ih]
    rfl

theorem fenceMembers_members (g : GroupState) (image : MetadataImage) (ids : List String) :
    (g.fenceMembers image ids).1.members = ids.foldl SortedMap.erase g.members := by
  unfold fenceMembers
  split_ifs with hids
  · rw [hids]
    rfl
  · simp [deleteUnsubscribedRegexes, foldl_removeMember_members]

theorem replaceStaticMember_members (hm : g.members.get? previous = some m) :
    (g.replaceStaticMember previous id).members =
      (g.members.erase previous).insert id (takenOver m id) := by
  refine ext_get? fun x => ?_
  rw [get?_replaceStaticMember hm, get?_insert, get?_erase]

theorem foldl_applyResolution_members (es : List (String × ResolvedRegularExpression))
    (acc : GroupState × Bool × List (String × Option ResolvedRegularExpression)) :
    (es.foldl applyResolution acc).1.members = acc.1.members := by
  induction es generalizing acc with
  | nil => rfl
  | cons e es ih =>
    rw [List.foldl_cons, ih]
    unfold applyResolution
    split_ifs <;> rfl

@[simp] theorem applyRegexResult_members (g : GroupState) (resolved : Resolutions)
    (image : MetadataImage) : (g.applyRegexResult resolved image).1.members = g.members := by
  have hfold := foldl_applyResolution_members resolved.entries (g, false, [])
  unfold applyRegexResult
  dsimp only
  split_ifs with hmoved
  · unfold bumpEpoch
    split_ifs
    · exact hfold
    · exact hfold
  · exact hfold

theorem soundRoster_fenceMembers (h : SoundRoster g.members) (image : MetadataImage)
    (ids : List String) : SoundRoster (g.fenceMembers image ids).1.members := by
  rw [fenceMembers_members]
  generalize g.members = members at h
  induction ids generalizing members with
  | nil => exact h
  | cons id ids ih => exact ih _ (h.erase id)

theorem soundRoster_withJoined (h : SoundRoster g.members) (hb : Heartbeat)
    (req : HeartbeatRequest) (hid : id ≠ "") : SoundRoster (g.withJoined hb req id).members := by
  have hfresh : ((buildMember hb req id).withRegex none).WellFormed id :=
    Member.wellFormed_of_fresh rfl hid (Option.some_ne_none _).symm rfl rfl rfl
  refine h.insert hfresh fun _ _ _ _ tp htp => ?_
  have hheld : tp ∈ (∅ : Partitions) ∨ tp ∈ (∅ : Partitions) := Member.mem_held.mp htp
  simp at hheld

theorem soundRoster_joinUpdate (h : SoundRoster g.members)
    (hid : id ≠ "") : SoundRoster (g.joinUpdate hb req id).group.members :=
  soundRoster_afterMemberUpdate (soundRoster_withJoined h hb req hid)
    (g.get?_withJoined_self hb req id) (joinChange_newRegex_ne hb req id)

theorem soundRoster_replaceStaticMember (h : SoundRoster g.members)
    (hm : g.members.get? previous = some m) (hid : id ≠ "") :
    SoundRoster (g.replaceStaticMember previous id).members := by
  rw [replaceStaticMember_members hm]
  exact h.replace hm ((h.wellFormed previous m hm).takenOver hid) fun tp htp => htp

theorem soundRoster_heartbeat (h : SoundRoster g.members)
    {g' : GroupState} {pending : List PendingRecords}
    (ht : HeartbeatTransition g hb req g' pending) : SoundRoster g'.members := by
  cases ht with
  | @release m hm =>
    have hmembers : (g.releaseStaticMember req.memberId).members =
        g.members.insert req.memberId (released m) := modify_of_get? hm released
    rw [hmembers]
    refine h.insert_of_subset hm (h.wellFormed _ m hm).released fun tp htp => ?_
    exact Member.mem_held.mpr (.inl ((Member.held_released m tp).mp htp))
  | leave hm => exact soundRoster_fenceMembers h hb.image _
  | join hid => exact soundRoster_joinUpdate h (hid ▸ firstJoinMemberId_ne hb _)
  | steady hid hm hupdate => exact soundRoster_updateMemberState h hm hupdate
  | @replace previous id m update hid hresolved hm hreleased hupdate =>
    have hne : id ≠ "" := hid ▸ firstJoinMemberId_ne hb _
    refine soundRoster_updateMemberState (soundRoster_replaceStaticMember h hm hne)
      (m := takenOver m id) ?_ hupdate
    rw [get?_replaceStaticMember hm, if_pos rfl]

end GroupState

end Krabka.ConsumerGroup

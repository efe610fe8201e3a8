import Krabka.ConsumerGroup.Coordinator
import Krabka.Lib.Since

/-!
# Who holds a partition

Two results about the partitions that members hold, over every run of a
coordinator.  `ownership_exclusive` says that no partition is with two members
and that a member gets one only in its own heartbeat.
`commit_held_since` says that an offset commit at an old epoch is accepted only
for a partition that the member, or the static member whose place it took, has
held alone since it had that epoch.

Both rest on one description of a step, `Coordinator.step_entry`: a member is
in the group after an operation because its entry was kept, because it released
itself, or because its own heartbeat rebuilt it.
-/

namespace Krabka.ConsumerGroup

open GroupState SortedMap

/-! ## What a rebuilt member inherits -/

/-- Every partition of `m'` is stamped with its epoch now, or `m` held it with
the same stamp. -/
def Member.Inherits (m' m : Member) : Prop :=
  ∀ tp ∈ m'.held, m'.assignmentEpochs.get? tp = some m'.memberEpoch ∨
    tp ∈ m.held ∧ m'.assignmentEpochs.get? tp = m.assignmentEpochs.get? tp

theorem Member.inherits_install {g : GroupState} {m : Member} {id : String} {r : Rebuilt}
    (hwf : m.WellFormed id) (hfits : r.Fits g m) : (m.install r).Inherits m := by
  intro tp htp
  rw [install_assignmentEpochs htp, install_memberEpoch]
  by_cases hgranted : tp ∈ r.granted
  · left
    rw [if_pos hgranted]
  right
  have hheld : tp ∈ m.held := by
    rcases mem_held.mp htp with hassigned | hpending
    · exact mem_held.mpr (.inl ((hfits.assigned_of tp hassigned).resolve_right hgranted))
    · exact hfits.pending_of tp hpending
  refine ⟨hheld, ?_⟩
  obtain ⟨epoch, hepoch⟩ := Option.isSome_iff_exists.mp ((hwf.stamped tp).mpr hheld)
  rw [if_neg hgranted, hepoch, Option.getD_some]

namespace GroupState

variable {g : GroupState} {hb : Heartbeat} {req : HeartbeatRequest}

theorem afterMemberUpdate_inherits (hb : Heartbeat) (hg : SoundRoster g.members)
    {change : MemberChange} {m : Member} (hm : g.members.get? change.memberId = some m)
    (hregex : change.newRegex ≠ some "") :
    ∃ m', (g.afterMemberUpdate hb change).group.members = g.members.insert change.memberId m' ∧
      m'.Inherits m := by
  have hwf : (m.withRegex change.newRegex).WellFormed change.memberId :=
    (hg.wellFormed _ m hm).congr rfl hregex rfl rfl rfl rfl
  rcases g.afterMemberUpdate_members hb hm with hsame | ⟨r, hr, hinstalled⟩
  · exact ⟨_, hsame, fun tp htp => .inr ⟨htp, rfl⟩⟩
  · exact ⟨_, hinstalled, Member.inherits_install hwf (rebuild_fits hwf.disjoint hwf.idle hr)⟩

theorem joinUpdate_inherits (hg : SoundRoster g.members) (hb : Heartbeat)
    (req : HeartbeatRequest) {id : String} (hid : id ≠ "") :
    ∃ m', (g.joinUpdate hb req id).group.members = g.members.insert id m' ∧
      m'.Inherits (Member.empty id) := by
  obtain ⟨m', hmembers, hinherits⟩ := afterMemberUpdate_inherits hb
    (soundRoster_withJoined hg hb req hid) (g.get?_withJoined_self hb req id)
    (joinChange_newRegex_ne hb req id)
  exact ⟨m', hmembers.trans (insert_insert ..), hinherits⟩

theorem updateMemberState_inherits (hg : SoundRoster g.members) {id : String} {m : Member}
    {update : MemberUpdate} (hm : g.members.get? id = some m)
    (h : g.updateMemberState hb req id = .ok update) :
    ∃ m', update.group.members = g.members.insert id m' ∧ m'.Inherits m := by
  have hwf := hg.wellFormed id m hm
  obtain ⟨m', hmembers, hinherits⟩ := afterMemberUpdate_inherits hb
    (soundRoster_withFields hg hb req hm) (g.get?_withFields_self hb req id m)
    (newRegexOf_ne hwf.regex_ne)
  rw [updateMemberState_ok hm h]
  exact ⟨m', hmembers.trans (insert_insert ..), hinherits⟩

end GroupState

/-! ## One step, member by member -/

namespace GroupState

variable {g : GroupState} {hb : Heartbeat} {req : HeartbeatRequest}

/-- An accepted heartbeat gives the member `id` the place of the static member
`previous`. -/
def TakesPlace (g : GroupState) (hb : Heartbeat) (req : HeartbeatRequest)
    (previous id : String) : Prop :=
  id = firstJoinMemberId hb req.memberId ∧
    g.resolveMember req id = .ok (.replaces previous) ∧
    (g.stepHeartbeat hb req).response.errorCode = .none

theorem resolveMember_replaces {previous id : String}
    (h : g.resolveMember req id = .ok (.replaces previous)) : req.memberEpoch = 0 := by
  unfold resolveMember at h
  cases hinstance : req.instanceId with
  | none =>
    rw [hinstance] at h
    dsimp only at h
    cases hm : g.members.get? id with
    | none =>
      rw [hm] at h
      split_ifs at h with hepoch
      exact hepoch
    | some m =>
      rw [hm] at h
      dsimp only at h
      cases hvalid : validateEpoch m req.memberEpoch req.topicPartitions with
      | error | ok =>
        rw [hvalid] at h
        cases h
  | some instanceId =>
    rw [hinstance] at h
    dsimp only at h
    by_contra hepoch
    rw [if_neg hepoch] at h
    cases hm : g.staticMember instanceId with
    | none =>
      rw [hm] at h
      cases h
    | some m =>
      rw [hm] at h
      dsimp only at h
      split_ifs at h
      cases hvalid : validateEpoch m req.memberEpoch req.topicPartitions with
      | error | ok =>
        rw [hvalid] at h
        cases h

end GroupState

namespace Coordinator

variable {c : Coordinator} {op : Op} {id : String} {m' : Member}

/-- The member `id` after the operation continues the member `previous`: it
took its place, or it is the same member. -/
def Succeeds (c : Coordinator) (op : Op) (previous id : String) : Prop :=
  match op with
  | .heartbeat hb req =>
    c.group.TakesPlace hb req previous id ∨
      previous = id ∧ ∀ x, ¬ c.group.TakesPlace hb req x id
  | _ => previous = id

/-- Why the member `m'` is in the group under the id `id` after an operation. -/
inductive EntryFrom (c : Coordinator) (op : Op) (id : String) (m' : Member) : Prop
  /-- The operation left its entry alone. -/
  | kept (h : c.group.members.get? id = some m') (hlink : c.Succeeds op id id)
  /-- It left for a while. -/
  | released {m} (h : c.group.members.get? id = some m) (hm' : m' = GroupState.released m)
  /-- Its own heartbeat rebuilt its entry. -/
  | rebuilt {hb req} (hop : op = .heartbeat hb req)
      (hid : id = firstJoinMemberId hb req.memberId)
      (hinherits : ∀ tp ∈ m'.held, m'.assignmentEpochs.get? tp = some m'.memberEpoch ∨
        ∃ previous m, c.Succeeds op previous id ∧ c.group.members.get? previous = some m ∧
          tp ∈ m.held ∧ m'.assignmentEpochs.get? tp = m.assignmentEpochs.get? tp)

theorem heartbeat_entry (hg : SoundRoster c.group.members) {hb : Heartbeat}
    {req : HeartbeatRequest} {g' : GroupState} {pending : List PendingRecords}
    (ht : GroupState.HeartbeatTransition c.group hb req g' pending)
    (hcode : (c.group.stepHeartbeat hb req).response.errorCode = .none)
    (hm' : g'.members.get? id = some m') : c.EntryFrom (.heartbeat hb req) id m' := by
  have hleaves : req.memberEpoch ≠ 0 → c.Succeeds (.heartbeat hb req) id id := fun hepoch =>
    .inr ⟨rfl, fun _ hplace => hepoch (resolveMember_replaces hplace.2.1)⟩
  have hothers : id ≠ firstJoinMemberId hb req.memberId → c.Succeeds (.heartbeat hb req) id id :=
    fun hne => .inr ⟨rfl, fun _ hplace => hne hplace.1⟩
  cases ht with
  | @release m hm hepoch =>
    rw [get?_releaseStaticMember] at hm'
    split_ifs at hm' with hid
    · rw [hid, hm] at hm'
      exact .released (hid ▸ hm) (Option.some.inj hm').symm
    · exact .kept hm' (hleaves hepoch)
  | @leave m hm hepoch =>
    rw [fenceMembers_members, get?_foldl_erase] at hm'
    split_ifs at hm'
    exact .kept hm' (hleaves hepoch)
  | @join x hx hnone hresolved =>
    obtain ⟨m, hmembers, hinherits⟩ := joinUpdate_inherits hg hb req
      (hx ▸ firstJoinMemberId_ne hb req.memberId)
    rw [hmembers, get?_insert] at hm'
    split_ifs at hm' with hid
    · cases hm'
      refine .rebuilt rfl (hid.trans hx) fun tp htp => .inl ?_
      rcases hinherits tp htp with hstamp | ⟨hnothing, -⟩
      · exact hstamp
      · have hempty : tp ∈ (∅ : Partitions) ∨ tp ∈ (∅ : Partitions) := Member.mem_held.mp hnothing
        simp at hempty
    · exact .kept hm' (hothers (hx ▸ hid))
  | @steady x m update hx hm hupdate hresolved =>
    obtain ⟨m₁, hmembers, hinherits⟩ := updateMemberState_inherits hg hm hupdate
    rw [hmembers, get?_insert] at hm'
    split_ifs at hm' with hid
    · cases hm'
      subst hid
      have hsame : c.Succeeds (.heartbeat hb req) id id := by
        refine .inr ⟨rfl, fun y hplace => ?_⟩
        have hother := hplace.2.1
        rw [hresolved] at hother
        cases hother
      refine .rebuilt rfl hx fun tp htp => (hinherits tp htp).imp_right fun hinherited => ?_
      exact ⟨id, m, hsame, hm, hinherited⟩
    · exact .kept hm' (hothers (hx ▸ hid))
  | @replace previous x m update hx hresolved hm hreleased hupdate =>
    have hne : x ≠ "" := hx ▸ firstJoinMemberId_ne hb req.memberId
    have hreplaced := soundRoster_replaceStaticMember hg hm hne
    have hget : (c.group.replaceStaticMember previous x).members.get? x =
        some (GroupState.takenOver m x) := by
      rw [get?_replaceStaticMember hm, if_pos rfl]
    obtain ⟨m₁, hmembers, hinherits⟩ := updateMemberState_inherits hreplaced hget hupdate
    rw [hmembers, get?_insert] at hm'
    split_ifs at hm' with hid
    · cases hm'
      subst hid
      refine .rebuilt rfl hx fun tp htp => (hinherits tp htp).imp_right fun hinherited => ?_
      exact ⟨previous, m, .inl ⟨hx, hresolved, hcode⟩, hm, hinherited⟩
    · rw [get?_replaceStaticMember hm, if_neg hid] at hm'
      split_ifs at hm'
      exact .kept hm' (hothers (hx ▸ hid))

/-- Every member after an operation is kept, released or rebuilt in its own
heartbeat. -/
theorem step_entry (h : c.Inv) (hm' : (c.step op).group.members.get? id = some m') :
    c.EntryFrom op id m' := by
  cases op with
  | heartbeat hb req =>
    unfold step at hm'
    dsimp only at hm'
    rcases stepHeartbeat_outcome h.roster hb req with ⟨hsame, hcode⟩ | ⟨ht, hcode⟩
    · rw [if_pos hcode, hsame] at hm'
      exact .kept hm' (.inr ⟨rfl, fun _ hplace => hcode hplace.2.2⟩)
    · rw [if_neg (not_not.mpr hcode), flush_members] at hm'
      exact heartbeat_entry h.roster ht hcode hm'
  | fenceMembers image ids =>
    change (c.flush _ _).group.members.get? id = _ at hm'
    rw [flush_members, fenceMembers_members, get?_foldl_erase] at hm'
    split_ifs at hm'
    exact .kept hm' rfl
  | applyRegexResult resolved image =>
    change (c.flush _ _).group.members.get? id = _ at hm'
    rw [flush_members, applyRegexResult_members] at hm'
    exact .kept hm' rfl
  | installTarget perMember =>
    change (c.flush _ _).group.members.get? id = _ at hm'
    rw [flush_members, installTarget_members] at hm'
    exact .kept hm' rfl
  | respawn =>
    change (GroupState.respawn c.group.groupId c.cached).members.get? id = _ at hm'
    rw [respawn_members h] at hm'
    exact .kept hm' rfl

/-! ## Ownership is exclusive -/

/-- A broker with one topic of two partitions, and an assignor that gives all
partitions of a topic to the first member that subscribes to it. -/
def twoPartitions : MetadataImage where
  topicIdByName := SortedMap.empty.insert "t" 7
  partitionsPerTopic := SortedMap.empty.insert 7 2
  groupHash topics := topics.elems.length
  unique := by
    intro name name' id hname hname'
    rw [get?_insert] at hname hname'
    split_ifs at hname with h
    split_ifs at hname' with h'
    · rw [h, h']
    · cases hname'
    · cases hname
  groupHash_empty := rfl

def firstSubscriber : Assignor := fun spec partitions =>
  let all := partitions.entries.flatMap fun e =>
    (List.range e.2.toNat).map fun p => { topicId := e.1, partition := p : TopicIdPartition }
  let owner := fun tp : TopicIdPartition =>
    (spec.members.find? fun m => tp.topicId ∈ m.subscribedTopicIds).map MemberSubscription.memberId
  spec.members.foldl
    (fun targets m =>
      targets.insert m.memberId
        (SortedSet.ofList (all.filter fun tp => owner tp = some m.memberId)))
    SortedMap.empty

def smallBroker : Heartbeat where
  config :=
    { assignors := [("first", firstSubscriber)]
      maxSize := 10
      assignmentIntervalMs := 0
      heartbeatIntervalMs := 5000 }
  image := twoPartitions
  clientId := "client"
  clientHost := "host"
  regexes :=
    { resolve := fun _ => SortedMap.empty
      check := fun _ => none
      refreshVersion := 0
      nowMs := 0
      refreshIntervalMs := 60000
      minRefreshIntervalMs := 10000 }
  nowMs := 0
  finishedMs := 0
  mintedId := "minted"
  mintedId_ne := by decide

/-- A heartbeat of a member that subscribes to the topic by name. -/
def beat (memberId : String) (epoch : Int) : Op :=
  .heartbeat smallBroker
    { memberId := memberId
      memberEpoch := epoch
      subscribedTopicNames := some ["t"]
      topicPartitions := some [] }

/-- In every run of a coordinator no partition is with two members, no member
has one both assigned and pending revocation, and a partition enters what is
assigned to a member only in a heartbeat of that member. -/
theorem ownership_exclusive {groupId : String} (h : (coordinators groupId).Reachable c) :
    (∀ id₁ id₂ m₁ m₂ tp, c.group.members.get? id₁ = some m₁ → c.group.members.get? id₂ = some m₂ →
        tp ∈ m₁.held → tp ∈ m₂.held → id₁ = id₂) ∧
      (∀ id m tp, c.group.members.get? id = some m → tp ∈ m.assignedPartitions →
        tp ∉ m.partitionsPendingRevocation) ∧
      ∀ op id m' tp, (c.step op).group.members.get? id = some m' → tp ∈ m'.assignedPartitions →
        (∃ m, c.group.members.get? id = some m ∧ tp ∈ m.assignedPartitions) ∨
          ∃ hb req, op = .heartbeat hb req ∧ id = firstJoinMemberId hb req.memberId := by
  have hinv := inv_of_reachable h
  refine ⟨?_, ?_, ?_⟩
  · intro id₁ id₂ m₁ m₂ tp hm₁ hm₂ h₁ h₂
    exact hinv.roster.exclusive.eq ⟨m₁, hm₁, h₁⟩ ⟨m₂, hm₂, h₂⟩
  · intro id m tp hm
    exact (hinv.roster.wellFormed id m hm).disjoint tp
  · intro op id m' tp hm' htp
    rcases step_entry hinv hm' with ⟨hkept, -⟩ | ⟨hm, rfl⟩ | ⟨hop, hid, -⟩
    · exact .inl ⟨m', hkept, htp⟩
    · exact .inl ⟨_, hm, htp⟩
    · exact .inr ⟨_, _, hop, hid⟩

theorem ownership_exclusive_two_members :
    ∃ c, (coordinators "g").Reachable c ∧
      (c.group.members.get? "a").any (fun m => decide (m.assignedPartitions ≠ ∅)) = true ∧
      (c.group.members.get? "b").isSome ∧
      ∀ m₁ m₂ tp, c.group.members.get? "a" = some m₁ → c.group.members.get? "b" = some m₂ →
        tp ∈ m₁.held → tp ∉ m₂.held := by
  have hrun : (coordinators "g").Reachable (((Coordinator.new "g").step (beat "a" 0)).step
      (beat "b" 0)) := .step (.step (.init rfl) rfl) rfl
  refine ⟨_, hrun, by decide +kernel, by decide +kernel, fun m₁ m₂ tp h₁ h₂ ha hb => ?_⟩
  exact absurd ((ownership_exclusive hrun).1 "a" "b" m₁ m₂ tp h₁ h₂ ha hb) (by decide)

/-! ## Old epochs commit only what was held since -/

/-- The member `id` holds `tp`, and no other member does. -/
def HoldsAlone (tp : TopicIdPartition) (c : Coordinator) (id : String) : Prop :=
  ∀ x, tp ∈ holding c.group.members x ↔ x = id

/-- The member `id` is at the epoch `epoch` or below. -/
def AtMostEpoch (epoch : Int) (c : Coordinator) (id : String) : Prop :=
  ∃ m, c.group.members.get? id = some m ∧ m.memberEpoch ≤ epoch

/-- The member `id` holds `tp` with a stamp that lets `epoch` commit it. -/
def Stamped (tp : TopicIdPartition) (epoch : Int) (c : Coordinator) (id : String) : Prop :=
  ∃ m stamp, c.group.members.get? id = some m ∧ tp ∈ m.held ∧
    m.assignmentEpochs.get? tp = some stamp ∧ stamp ≤ epoch

variable {tp : TopicIdPartition} {epoch : Int}

theorem Stamped.holdsAlone (hg : SoundRoster c.group.members)
    (h : Stamped tp epoch c id) : HoldsAlone tp c id := by
  obtain ⟨m, -, hm, hheld, -⟩ := h
  intro x
  constructor
  · intro hx
    exact hg.exclusive.eq hx ⟨m, hm, hheld⟩
  · intro hx
    rw [hx]
    exact ⟨m, hm, hheld⟩

/-- A stamp at or below the epoch was there before the operation, with the
member that this one continues, or the member is at that epoch now. -/
theorem Stamped.step (hc : c.Inv) (h : Stamped tp epoch (c.step op) id) :
    AtMostEpoch epoch (c.step op) id ∨
      ∃ previous, c.Succeeds op previous id ∧ Stamped tp epoch c previous := by
  obtain ⟨m', stamp, hm', hheld, hstamp, hle⟩ := h
  rcases step_entry hc hm' with ⟨hkept, hlink⟩ | @⟨m, hm, rfl⟩ | ⟨hop, hid, hinherits⟩
  · exact .inr ⟨id, hlink, m', stamp, hkept, hheld, hstamp, hle⟩
  · -- A released member is at epoch -2 and all that it holds is stamped 0.
    left
    have hzero : stamp = 0 := by
      have hget := SortedSet.get?_toMap (GroupState.released m).held (fun _ => (0 : Int)) tp
      rw [if_pos hheld] at hget
      exact Option.some.inj (hstamp.symm.trans hget)
    refine ⟨_, hm', ?_⟩
    have hreleased : (GroupState.released m).memberEpoch = -2 := rfl
    omega
  · rcases hinherits tp hheld with hnow | ⟨previous, m, hlink, hm, htp, hsame⟩
    · left
      rw [hnow] at hstamp
      exact ⟨m', hm', Option.some.inj hstamp ▸ hle⟩
    · exact .inr ⟨previous, hlink, m, stamp, hm, htp, hsame ▸ hstamp, hle⟩

theorem validateOffsetCommit_stamped {m : Member} {instanceId : Option String}
    {fence : CommitFence} {partitions : List TopicIdPartition}
    (hg : SoundRoster c.group.members) (hm : c.group.members.get? id = some m)
    (hepoch : epoch < m.memberEpoch)
    (hok : c.group.validateOffsetCommit id instanceId epoch fence partitions = .ok ())
    (htp : tp ∈ partitions) : Stamped tp epoch c id := by
  have hne : id ≠ "" := (hg.wellFormed id m hm).id_ne
  have hmem := c.group.members.mem_of_get? hm
  have hmembers : ¬ (epoch < 0 ∧ c.group.members.entries = []) := by
    intro hempty
    rw [hempty.2] at hmem
    cases hmem
  have hnamed : ¬ (fence = .transactional ∧ epoch = unknownGenerationId ∧ id = "" ∧
      instanceId = none) := fun hnameless => hne hnameless.2.2.1
  unfold GroupState.validateOffsetCommit at hok
  rw [if_neg hmembers, if_neg hnamed, hm] at hok
  dsimp only at hok
  rw [if_neg (ne_of_lt hepoch), if_neg (not_lt.mpr hepoch.le)] at hok
  by_cases haccepted : (partitions.all fun tp =>
      (m.assignmentEpoch tp).any fun assignedAt => epoch ≥ assignedAt) = true
  · have hstamp := List.all_eq_true.mp haccepted tp htp
    obtain ⟨stamp, hget, hle⟩ := (Option.any_eq_true _ _).mp hstamp
    unfold Member.assignmentEpoch at hget
    split_ifs at hget with hholds
    exact ⟨m, stamp, hm, Member.holds_iff.mp hholds, hget, of_decide_eq_true hle⟩
  · rw [if_neg haccepted] at hok
    split_ifs at hok

/-- A commit that is accepted at an epoch below the member's own is of
partitions that the member, or the static member whose place it took, has held
alone since it was at that epoch. -/
theorem commit_held_since {groupId : String} {past : List (Coordinator × Op)} {m : Member}
    {instanceId : Option String} {epoch : Int} {fence : CommitFence}
    {partitions : List TopicIdPartition} {tp : TopicIdPartition}
    (h : (coordinators groupId).Run c past) (hm : c.group.members.get? id = some m)
    (hepoch : epoch < m.memberEpoch)
    (hok : c.group.validateOffsetCommit id instanceId epoch fence partitions = .ok ())
    (htp : tp ∈ partitions) :
    TransitionSystem.Since (HoldsAlone tp) (AtMostEpoch epoch) Succeeds c past id := by
  have hroster := (inv_of_reachable h.reachable).roster
  refine h.since (Q := Stamped tp epoch) ?_ ?_ ?_
    (validateOffsetCommit_stamped hroster hm hepoch hok htp)
  · intro s k hs hk
    exact hk.holdsAlone (inv_of_reachable hs).roster
  · intro s k hs hk
    obtain ⟨m, -, hm, -⟩ := hk
    rw [hs] at hm
    cases hm
  · intro s a s' k hs hstep hk
    rw [hstep] at hk ⊢
    exact hk.step (inv_of_reachable hs)

/-- The member `a` keeps its partitions when `b` joins, and commits at the epoch
that it had before. -/
theorem commit_held_since_rebalance :
    ∃ c past, (coordinators "g").Run c past ∧ AtMostEpoch 3 c "a" ∧
      c.group.validateOffsetCommit "a" none 2 (.offset 9) [⟨7, 0⟩] = .ok () ∧
      TransitionSystem.Since (HoldsAlone ⟨7, 0⟩) (AtMostEpoch 2) Succeeds c past "a" := by
  have hrun : (coordinators "g").Run ((((Coordinator.new "g").step (beat "a" 0)).step
      (beat "b" 0)).step (beat "a" 2)) _ := .next (.next (.next (.start rfl) rfl) rfl) rfl
  have hmember : (((((Coordinator.new "g").step (beat "a" 0)).step (beat "b" 0)).step
      (beat "a" 2)).group.members.get? "a").any (fun m => decide (m.memberEpoch = 3)) = true := by
    decide +kernel
  obtain ⟨m, hm, hepoch⟩ := (Option.any_eq_true _ _).mp hmember
  have hthree : m.memberEpoch = 3 := of_decide_eq_true hepoch
  have hok : ((((Coordinator.new "g").step (beat "a" 0)).step (beat "b" 0)).step
      (beat "a" 2)).group.validateOffsetCommit "a" none 2 (.offset 9) [⟨7, 0⟩] = .ok () := by
    decide +kernel
  refine ⟨_, _, hrun, ⟨m, hm, hthree.le⟩, hok, ?_⟩
  exact commit_held_since hrun hm (by rw [hthree]; decide) hok (List.mem_singleton_self _)

end Coordinator

end Krabka.ConsumerGroup

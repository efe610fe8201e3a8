import Krabka.ConsumerGroup.Transitions
import Krabka.Lib.Transition

/-!
# The coordinator of one group

The actor of a group takes one request at a time, appends the records of the
transition to the log and applies them to the cached seed
(`actor/persistence.rs`).  `Coordinator` is the group with its cached seed and
its log, and `coordinators` is the system of all its runs: heartbeats with any
request and any surroundings, fences, resolutions, targets of any assignor, and
respawns from the cached seed.

The cached seed always mirrors the roster: `MirrorsRoster` says that a member
is in the seed with exactly the values that the group has for it.  It gives
that a respawn restores the roster (`applySeed_members`).
-/

open SortedMap List

namespace Krabka.ConsumerGroup

/-! ## Flushing -/

/-- The group, the seed that the coordinator caches for it, and its records in
the log. -/
structure Coordinator where
  group : GroupState
  cached : Option GroupSeed
  log : List Record

inductive Op where
  | heartbeat (hb : Heartbeat) (req : HeartbeatRequest)
  | fenceMembers (image : MetadataImage) (memberIds : List String)
  | applyRegexResult (resolved : Resolutions) (image : MetadataImage)
  | installTarget (perMember : SortedMap String Partitions)
  | respawn

namespace Coordinator

def new (groupId : String) : Coordinator where
  group := GroupState.new groupId
  cached := none
  log := []

/-- `flush_pending` of a successful append. -/
def flush (c : Coordinator) (group : GroupState) (pending : List PendingRecords) : Coordinator :=
  if pending.all PendingRecords.isEmpty then { c with group := group }
  else
    { group :=
        if pending.any PendingRecords.partitionMetadataTombstone then
          { group with hasSubscriptionMetadataRecord := false }
        else group
      cached := some ((c.cached.getD GroupSeed.default).applyAll pending)
      log := c.log ++ PendingRecords.toBatch pending }

/-- The records of a target that was installed on its own. -/
def targetRecords (g : GroupState) (changed : List String) : PendingRecords :=
  (Recorder.start g []).finish g (some changed) false

/-- One operation and the flush of its records.  A refused heartbeat writes
nothing. -/
def step (c : Coordinator) : Op → Coordinator
  | .heartbeat hb req =>
    let result := c.group.stepHeartbeat hb req
    if result.response.errorCode ≠ .none then { c with group := result.group }
    else c.flush result.group result.pending
  | .fenceMembers image memberIds =>
    let result := c.group.fenceMembers image memberIds
    c.flush result.1 [result.2]
  | .applyRegexResult resolved image =>
    let result := c.group.applyRegexResult resolved image
    c.flush result.1 [result.2]
  | .installTarget perMember =>
    let result := c.group.installTarget perMember
    c.flush result.1 [targetRecords result.1 result.2]
  | .respawn => { c with group := GroupState.respawn c.group.groupId c.cached }

end Coordinator

/-- The runs of a coordinator from a group that no record holds. -/
def coordinators (groupId : String) : TransitionSystem Coordinator Op :=
  .ofFun (fun c => c = Coordinator.new groupId) Coordinator.step

/-! ## The seed mirrors the roster -/

namespace GroupState

/-- The subscription record that the log holds for an id. -/
def metadataRecord (g : GroupState) (id : String) : Option MemberMetadataValue :=
  (g.members.get? id).map memberMetadataValue

/-- The current assignment record that the log holds for an id. -/
def currentRecord (g : GroupState) (id : String) : Option CurrentMemberAssignmentValue :=
  (g.members.get? id).map currentAssignmentValue

end GroupState

/-- The seed has the values of every member, and of no other id. -/
structure MirrorsRoster (seed : GroupSeed) (roster : Roster) : Prop where
  members : ∀ id, seed.members.get? id = (roster.get? id).map memberMetadataValue
  current : ∀ id, seed.currentPerMember.get? id = (roster.get? id).map currentAssignmentValue

namespace Recorder

variable {υ : Type} [DecidableEq υ]

theorem changeOf_eq (id : String) (before after : Option υ) :
    changeOf id before after = if before = after then [] else [(id, after)] := by
  cases before with
  | none => cases after <;> rfl
  | some v =>
    cases after with
    | none => rfl
    | some w => by_cases h : some v = some w <;> simp [changeOf, h]

theorem mem_changeOf {id : String} {before after : Option υ} {u : String × Option υ} :
    u ∈ changeOf id before after ↔ before ≠ after ∧ u = (id, after) := by
  rw [changeOf_eq]
  by_cases h : before = after <;> simp [h]

/-- The records of the ids that may change. -/
def changes (ids : List String) (before after : String → Option υ) : List (String × Option υ) :=
  ids.flatMap fun id => changeOf id (before id) (after id)

variable {before after : String → Option υ} {ids : List String}

theorem mem_changes {u : String × Option υ} :
    u ∈ changes ids before after ↔ u.1 ∈ ids ∧ before u.1 ≠ after u.1 ∧ u.2 = after u.1 := by
  unfold changes
  rw [mem_flatMap]
  constructor
  · rintro ⟨id, hid, hu⟩
    obtain ⟨hne, rfl⟩ := mem_changeOf.mp hu
    exact ⟨hid, hne, rfl⟩
  · rintro ⟨hid, hne, hvalue⟩
    exact ⟨u.1, hid, mem_changeOf.mpr ⟨hne, Prod.ext rfl hvalue⟩⟩

theorem changes_frame (hframe : ∀ a, a ∉ ids → before a = after a) {a : String}
    (ha : a ∉ (changes ids before after).map Prod.fst) : before a = after a := by
  by_cases hid : a ∈ ids
  · by_contra hne
    exact ha (mem_map.mpr ⟨(a, after a), mem_changes.mpr ⟨hid, hne, rfl⟩, rfl⟩)
  · exact hframe a hid

theorem get?_patch_changes {m : SortedMap String υ} (hm : ∀ a, m.get? a = before a)
    (hframe : ∀ a, a ∉ ids → before a = after a) (a : String) :
    (m.patch (changes ids before after)).get? a = after a := by
  rw [get?_patch m fun u hu => (mem_changes.mp hu).2.2]
  split_ifs with hkey
  · rfl
  · rw [hm, changes_frame hframe hkey]

end Recorder

namespace MirrorsRoster

open GroupState

variable {seed : GroupSeed} {g g' : GroupState} {roster : Roster}

theorem finish_memberMetadata (g g' : GroupState) (ids : List String) :
    ((Recorder.start g ids).finish g' none false).memberMetadata =
      Recorder.changes ids g.metadataRecord g'.metadataRecord := by
  simp [Recorder.finish, Recorder.start, Recorder.changes, metadataRecord, memberValues,
    flatMap_map, Function.comp_def]

theorem finish_currentPerMember (g g' : GroupState) (ids : List String) :
    ((Recorder.start g ids).finish g' none false).currentPerMember =
      Recorder.changes ids g.currentRecord g'.currentRecord := by
  simp [Recorder.finish, Recorder.start, Recorder.changes, currentRecord, memberValues,
    flatMap_map, Function.comp_def]

theorem recorded (h : MirrorsRoster seed g.members) (ids : List String) {p : PendingRecords}
    (hframe : ∀ x, x ∉ ids → g'.members.get? x = g.members.get? x)
    (hmetadata : p.memberMetadata = ((Recorder.start g ids).finish g' none false).memberMetadata)
    (hcurrent : p.currentPerMember =
      ((Recorder.start g ids).finish g' none false).currentPerMember) :
    MirrorsRoster (seed.applyOwn p) g'.members where
  members := by
    change ∀ id, (seed.members.patch p.memberMetadata).get? id = _
    rw [hmetadata, finish_memberMetadata]
    refine Recorder.get?_patch_changes h.members fun a ha => ?_
    rw [metadataRecord, metadataRecord, hframe a ha]
  current := by
    change ∀ id, (seed.currentPerMember.patch p.currentPerMember).get? id = _
    rw [hcurrent, finish_currentPerMember]
    refine Recorder.get?_patch_changes h.current fun a ha => ?_
    rw [currentRecord, currentRecord, hframe a ha]

theorem unchanged (h : MirrorsRoster seed roster) {p : PendingRecords}
    (hmetadata : p.memberMetadata = []) (hcurrent : p.currentPerMember = []) :
    MirrorsRoster (seed.applyOwn p) roster where
  members := by
    change ∀ id, (seed.members.patch p.memberMetadata).get? id = _
    rw [hmetadata]
    exact h.members
  current := by
    change ∀ id, (seed.currentPerMember.patch p.currentPerMember).get? id = _
    rw [hcurrent]
    exact h.current

theorem frame_insert {id : String} {m' : Member}
    (h : g'.members = g.members.insert id m') (x : String) (hx : x ∉ [id]) :
    g'.members.get? x = g.members.get? x := by
  rw [h, get?_insert, if_neg fun heq => hx (mem_singleton.mpr heq)]

theorem fenceMembers (h : MirrorsRoster seed g.members) (image : MetadataImage)
    (ids : List String) :
    MirrorsRoster (seed.applyOwn (g.fenceMembers image ids).2)
      (g.fenceMembers image ids).1.members := by
  have hframe : ∀ x, x ∉ ids → (g.fenceMembers image ids).1.members.get? x = g.members.get? x := by
    intro x hx
    rw [GroupState.fenceMembers_members, get?_foldl_erase, if_neg hx]
  by_cases hids : ids = []
  · have hnone : g.fenceMembers image ids = (g, {}) := if_pos hids
    rw [hnone]
    exact h.unchanged rfl rfl
  · have hsome : (g.fenceMembers image ids).2 =
        { (Recorder.start g ids).finish (g.fenceMembers image ids).1 none false with
          resolvedRegexes :=
            (ids.foldl GroupState.removeMember g).deleteUnsubscribedRegexes.2 } := by
      unfold GroupState.fenceMembers
      rw [if_neg hids]
    exact h.recorded ids hframe (by rw [hsome]) (by rw [hsome])

theorem applyRegexResult (h : MirrorsRoster seed g.members) (resolved : Resolutions)
    (image : MetadataImage) :
    MirrorsRoster (seed.applyOwn (g.applyRegexResult resolved image).2)
      (g.applyRegexResult resolved image).1.members := by
  rw [GroupState.applyRegexResult_members]
  have hrecords : (g.applyRegexResult resolved image).2.memberMetadata = [] ∧
      (g.applyRegexResult resolved image).2.currentPerMember = [] := by
    unfold GroupState.applyRegexResult GroupState.bumpEpoch
    dsimp only
    split_ifs <;> exact ⟨rfl, rfl⟩
  exact h.unchanged hrecords.1 hrecords.2

theorem memberUpdate {id : String} {m' : Member} {update : GroupState.MemberUpdate}
    (seed : GroupSeed) (replacement : Option PendingRecords)
    (h : MirrorsRoster (seed.applyAll replacement.toList) g.members)
    (hmembers : update.group.members = g.members.insert id m') :
    MirrorsRoster (seed.applyAll
        (GroupState.memberUpdateRecords (Recorder.start g [id]) update id replacement))
      update.group.members := by
  unfold GroupState.memberUpdateRecords
  rw [GroupSeed.applyAll, foldl_append]
  exact h.recorded [id] (frame_insert hmembers) rfl rfl

theorem heartbeat (h : MirrorsRoster seed g.members) {hb : Heartbeat} {req : HeartbeatRequest}
    {pending : List PendingRecords} (ht : GroupState.HeartbeatTransition g hb req g' pending) :
    MirrorsRoster (seed.applyAll pending) g'.members := by
  cases ht with
  | @release m hm =>
    have hget : ∀ x, (g.releaseStaticMember req.memberId).members.get? x =
        if x = req.memberId then some (GroupState.released m) else g.members.get? x := by
      intro x
      rw [GroupState.get?_releaseStaticMember]
      split_ifs with hx
      · rw [hx, hm, Option.map_some]
      · rfl
    constructor
    · -- A released member keeps its subscription.
      intro x
      change seed.members.get? x = _
      rw [h.members, hget]
      split_ifs with hx
      · rw [hx, hm]
        rfl
      · rfl
    · intro x
      change (seed.currentPerMember.insert req.memberId _).get? x = _
      rw [get?_insert, hget, h.current]
      split_ifs <;> rfl
  | leave hm => exact h.fenceMembers hb.image [req.memberId]
  | @join id hid hnone =>
    obtain ⟨m', hmembers⟩ := g.joinUpdate_members hb req id
    exact memberUpdate seed none h hmembers
  | @steady id m update hid hm hupdate =>
    obtain ⟨m', hmembers⟩ := GroupState.updateMemberState_members hm hupdate
    exact memberUpdate seed none h hmembers
  | @replace previous id m update hid hresolved hm hreleased hupdate =>
    have hget : (g.replaceStaticMember previous id).members.get? id =
        some (GroupState.takenOver m id) := by
      rw [GroupState.get?_replaceStaticMember hm, if_pos rfl]
    obtain ⟨m', hmembers⟩ := GroupState.updateMemberState_members hget hupdate
    have hreplaced : MirrorsRoster (seed.applyOwn
        (g.replacementRecords (g.replaceStaticMember previous id) previous id))
        (g.replaceStaticMember previous id).members := by
      refine h.recorded [previous, id] ?_ rfl rfl
      intro x hx
      rw [mem_cons, mem_singleton, not_or] at hx
      rw [GroupState.get?_replaceStaticMember hm, if_neg hx.2, if_neg hx.1]
    exact memberUpdate seed (some _) hreplaced hmembers

end MirrorsRoster

/-! ## A respawn restores the roster -/

namespace Member

variable {m : Member} {id : String}

theorem regex_filter (h : m.subscribedTopicRegex ≠ some "") :
    (some (m.subscribedTopicRegex.getD "")).filter (fun regex => regex ≠ "") =
      m.subscribedTopicRegex := by
  cases hregex : m.subscribedTopicRegex with
  | none => rfl
  | some regex =>
    have hne : regex ≠ "" := fun hempty => h (by rw [hregex, hempty])
    simp [Option.filter, hne]

theorem get?_currentTopicPartitions (h : m.WellFormed id) {partitions : Partitions}
    (hsub : ∀ tp ∈ partitions, tp ∈ m.held) (tp : TopicIdPartition) :
    (currentTopicPartitions m partitions).get? tp =
      if tp ∈ partitions then m.assignmentEpochs.get? tp else none := by
  rw [currentTopicPartitions, SortedSet.get?_toMap]
  split_ifs with htp
  · obtain ⟨epoch, hepoch⟩ := Option.isSome_iff_exists.mp ((h.stamped tp).mpr (hsub tp htp))
    rw [assignmentEpoch, if_pos (holds_iff.mpr (hsub tp htp)), hepoch]
    rfl
  · rfl

theorem hydrate_seededMember (h : m.WellFormed id) :
    (seededMember id (memberMetadataValue m)).hydrate (currentAssignmentValue m) = m := by
  have hassigned : (currentAssignmentValue m).assignedPartitions.keySet = m.assignedPartitions :=
    SortedSet.keySet_toMap _ _
  have hpending : (currentAssignmentValue m).partitionsPendingRevocation.keySet =
      m.partitionsPendingRevocation := SortedSet.keySet_toMap _ _
  have hepochs : ((currentAssignmentValue m).assignedPartitions.entries ++
      (currentAssignmentValue m).partitionsPendingRevocation.entries).foldl
        (fun epochs e => epochs.insert e.1 e.2) SortedMap.empty = m.assignmentEpochs := by
    refine ext_get? fun tp => ?_
    rw [foldl_append, get?_foldl_insert_entries fun _ v => v,
      get?_foldl_insert_entries fun _ v => v]
    have hin : ∀ tp ∈ m.assignedPartitions, tp ∈ m.held := fun tp htp => mem_held.mpr (.inl htp)
    have hout : ∀ tp ∈ m.partitionsPendingRevocation, tp ∈ m.held :=
      fun tp htp => mem_held.mpr (.inr htp)
    change (((currentTopicPartitions m m.partitionsPendingRevocation).get? tp).map _).or
      ((((currentTopicPartitions m m.assignedPartitions).get? tp).map _).or none) = _
    rw [get?_currentTopicPartitions h hin, get?_currentTopicPartitions h hout]
    by_cases hheld : tp ∈ m.held
    · rcases mem_held.mp hheld with ha | hp
      · simp [ha, h.disjoint tp ha]
      · have ha : tp ∉ m.assignedPartitions := fun ha => h.disjoint tp ha hp
        simp [ha, hp]
    · have hnone := Option.not_isSome_iff_eq_none.mp (mt (h.stamped tp).mp hheld)
      rw [mem_held, not_or] at hheld
      simp [hheld.1, hheld.2, hnone]
  exact Member.ext h.id_eq.symm rfl rfl rfl rfl rfl (regex_filter h.regex_ne) rfl rfl rfl rfl
    hassigned hpending hepochs

end Member

namespace GroupState

theorem foldl_setResolvedRegex (es : List (String × ResolvedRegularExpression)) (g : GroupState) :
    es.foldl (fun g e => g.setResolvedRegex e.1 e.2) g =
      { g with resolvedRegexes := es.foldl (fun rs e => rs.insert e.1 e.2) g.resolvedRegexes } := by
  induction es generalizing g with
  | nil => rfl
  | cons e es ih =>
    rw [foldl_cons, ih]
    rfl

theorem foldl_addOrUpdateMember_members (es : List (String × MemberMetadataValue))
    (g : GroupState) :
    (es.foldl (fun g e => g.addOrUpdateMember (seededMember e.1 e.2)) g).members =
      es.foldl (fun members e => members.insert e.1 (seededMember e.1 e.2)) g.members :=
  (foldl_hom GroupState.members fun _ _ => rfl).symm

theorem applySeed_members {seed : GroupSeed} {roster : Roster} (hmirror : MirrorsRoster seed roster)
    (hsound : SoundRoster roster) (groupId : String) :
    ((GroupState.new groupId).applySeed seed).members = roster := by
  refine ext_get? fun x => ?_
  unfold applySeed
  rw [get?_foldl_modify_entries fun current m => Member.hydrate m current,
    foldl_addOrUpdateMember_members, get?_foldl_insert_entries seededMember,
    foldl_setResolvedRegex, hmirror.members, hmirror.current]
  cases hx : roster.get? x with
  | none => rfl
  | some m =>
    have hloaded := Member.hydrate_seededMember (hsound.wellFormed x m hx)
    simpa using hloaded

end GroupState

/-! ## Runs -/

namespace Coordinator

structure Inv (c : Coordinator) : Prop where
  roster : SoundRoster c.group.members
  mirror : MirrorsRoster (c.cached.getD GroupSeed.default) c.group.members

theorem Inv.new (groupId : String) : (Coordinator.new groupId).Inv where
  roster := SoundRoster.empty
  mirror := ⟨fun _ => rfl, fun _ => rfl⟩

theorem applyOwn_of_isEmpty {seed : GroupSeed} {p : PendingRecords} (h : p.isEmpty = true) :
    seed.applyOwn p = seed := by
  unfold PendingRecords.isEmpty at h
  simp only [Bool.and_eq_true, Option.isNone_iff_eq_none, List.isEmpty_iff, Bool.not_eq_true'] at h
  obtain ⟨⟨⟨⟨⟨⟨hgroup, hregex⟩, hmember⟩, hmeta⟩, htarget⟩, hcurrent⟩, htombstone⟩ := h
  unfold GroupSeed.applyOwn
  rw [hgroup, hregex, hmember, hmeta, htarget, hcurrent, htombstone]
  rfl

theorem applyAll_of_isEmpty {seed : GroupSeed} {pending : List PendingRecords}
    (h : pending.all PendingRecords.isEmpty = true) : seed.applyAll pending = seed := by
  induction pending generalizing seed with
  | nil => rfl
  | cons p pending ih =>
    rw [all_cons, Bool.and_eq_true] at h
    change (seed.applyOwn p).applyAll pending = seed
    rw [applyOwn_of_isEmpty h.1, ih h.2]

@[simp] theorem flush_members (c : Coordinator) (g : GroupState) (pending : List PendingRecords) :
    (c.flush g pending).group.members = g.members := by
  unfold flush
  split_ifs <;> rfl

theorem flush_cached (c : Coordinator) (g : GroupState) (pending : List PendingRecords) :
    (c.flush g pending).cached.getD GroupSeed.default =
      (c.cached.getD GroupSeed.default).applyAll pending := by
  unfold flush
  by_cases hempty : pending.all PendingRecords.isEmpty = true
  · rw [if_pos hempty]
    exact (applyAll_of_isEmpty hempty).symm
  · rw [if_neg hempty]
    rfl

variable {c : Coordinator}

theorem Inv.flush {g : GroupState} {pending : List PendingRecords} (hroster : SoundRoster g.members)
    (hmirror : MirrorsRoster ((c.cached.getD GroupSeed.default).applyAll pending) g.members) :
    (c.flush g pending).Inv where
  roster := by
    rw [flush_members]
    exact hroster
  mirror := by
    rw [flush_cached, flush_members]
    exact hmirror

theorem respawn_members (h : c.Inv) :
    (GroupState.respawn c.group.groupId c.cached).members = c.group.members := by
  have hmirror := h.mirror
  cases hcached : c.cached with
  | none =>
    rw [hcached] at hmirror
    refine ext_get? fun x => ?_
    have hnone := hmirror.members x
    cases hx : c.group.members.get? x with
    | none => rfl
    | some m =>
      rw [hx] at hnone
      cases hnone
  | some seed =>
    rw [hcached] at hmirror
    exact GroupState.applySeed_members hmirror h.roster c.group.groupId

theorem Inv.step (h : c.Inv) (op : Op) : (c.step op).Inv := by
  cases op with
  | heartbeat hb req =>
    unfold Coordinator.step
    dsimp only
    rcases GroupState.stepHeartbeat_outcome h.roster hb req with ⟨hsame, hcode⟩ | ⟨ht, hcode⟩
    · rw [if_pos hcode, hsame]
      exact h
    · rw [if_neg (not_not.mpr hcode)]
      exact Inv.flush (GroupState.soundRoster_heartbeat h.roster ht) (h.mirror.heartbeat ht)
  | fenceMembers image ids =>
    exact Inv.flush (GroupState.soundRoster_fenceMembers h.roster image ids)
      (h.mirror.fenceMembers image ids)
  | applyRegexResult resolved image =>
    refine Inv.flush ?_ (h.mirror.applyRegexResult resolved image)
    rw [GroupState.applyRegexResult_members]
    exact h.roster
  | installTarget perMember =>
    exact Inv.flush h.roster (h.mirror.unchanged rfl rfl)
  | respawn =>
    have hmembers := respawn_members h
    constructor
    · change SoundRoster (GroupState.respawn c.group.groupId c.cached).members
      rw [hmembers]
      exact h.roster
    · change MirrorsRoster (c.cached.getD GroupSeed.default)
        (GroupState.respawn c.group.groupId c.cached).members
      rw [hmembers]
      exact h.mirror

theorem inv_of_reachable {groupId : String} (h : (coordinators groupId).Reachable c) : c.Inv := by
  refine h.invariant ?_ ?_
  · intro c hc
    rw [hc]
    exact Inv.new groupId
  · intro c op c' hc hstep
    rw [hstep]
    exact hc.step op

end Coordinator

end Krabka.ConsumerGroup

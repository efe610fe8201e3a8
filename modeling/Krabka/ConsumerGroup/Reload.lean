import Krabka.ConsumerGroup.Described
import Krabka.ConsumerGroup.Ownership

/-!
# A reload gives the live group

Over every run of transitions that are each flushed, the group that the cached
seed loads, and the group that a replay of the log loads, are the live group,
under the conditions of `Recorded`.

* A member that joins has no target left in memory from an earlier stay under
  the same id.  Its departure tombstoned the target in the log and left it in
  the group, and a target that is computed as before is not written again.
* The first member of a group names a topic, and the broker has an assignor.  The
  first batch carries the epochs of the group then.  A cached seed starts from
  `GroupSeed::default` with the epoch 0, while the live group and the replay of the
  log start from the epoch 1.

`reload_diverges` has a run for each of them.
-/

namespace Krabka.ConsumerGroup

open GroupState GroupSeed PendingRecords List

/-! ## Loading a seed -/

/-- What a reload has to give. -/
structure SameGroup (live loaded : GroupState) : Prop where
  groupEpoch : loaded.groupEpoch = live.groupEpoch
  metadataHash : loaded.metadataHash = live.metadataHash
  targetEpoch : loaded.target.epoch = live.target.epoch
  members : loaded.members = live.members
  target : ∀ id, live.members.contains id = true → loaded.targetOf id = live.targetOf id
  regexes : loaded.resolvedRegexes = live.resolvedRegexes

theorem addOrUpdateMember_same (g : GroupState) (m : Member) :
    SameEpochs g (g.addOrUpdateMember m) ∧
      (g.addOrUpdateMember m).resolvedRegexes = g.resolvedRegexes := by
  obtain ⟨hsame, hregexes⟩ := bindInstance_same g m.instanceId m.memberId
  exact ⟨⟨hsame.groupEpoch, hsame.metadataHash, hsame.target⟩, hregexes⟩

theorem foldl_addOrUpdateMember_regexes (es : List (String × MemberMetadataValue))
    (g : GroupState) :
    (es.foldl (fun g e => g.addOrUpdateMember (seededMember e.1 e.2)) g).resolvedRegexes =
      g.resolvedRegexes := by
  induction es generalizing g with
  | nil => rfl
  | cons e es ih => exact (ih _).trans (addOrUpdateMember_same g _).2

theorem applySeed_same (groupId : String) (seed : GroupSeed) :
    ((new groupId).applySeed seed).groupEpoch = seed.groupEpoch ∧
      ((new groupId).applySeed seed).metadataHash = seed.metadataHash ∧
      ((new groupId).applySeed seed).target.epoch = seed.targetEpoch ∧
      ((new groupId).applySeed seed).resolvedRegexes = seed.resolvedRegexes ∧
      ∀ id, ((new groupId).applySeed seed).targetOf id =
        (seed.targetPerMember.get? id).getD ∅ := by
  unfold applySeed
  dsimp only
  rw [foldl_setResolvedRegex]
  have hsame := foldl_sameEpochs (fun g (e : String × MemberMetadataValue) =>
    (addOrUpdateMember_same g (seededMember e.1 e.2)).1) seed.members.entries
  refine ⟨(hsame _).groupEpoch, (hsame _).metadataHash, ?_, ?_, ?_⟩
  · exact congrArg TargetAssignment.epoch (hsame _).target
  · rw [foldl_addOrUpdateMember_regexes]
    refine SortedMap.ext_get? fun regex => ?_
    rw [SortedMap.get?_foldl_insert_entries fun _ v => v]
    change ((seed.resolvedRegexes.get? regex).map _).or none = _
    simp
  · intro id
    rw [targetOf]
    rw [SortedMap.get?_foldl_insert_entries fun _ v => v, (hsame _).target]
    change (((seed.targetPerMember.get? id).map _).or none).getD ∅ = _
    simp

theorem Mirrors.sameGroup {seed : GroupSeed} {g : GroupState} (h : Mirrors seed g)
    (hroster : SoundRoster g.members) (groupId : String) :
    SameGroup g ((new groupId).applySeed seed) := by
  obtain ⟨hepoch, hhash, htargetEpoch, hregexes, htarget⟩ := applySeed_same groupId seed
  constructor
  · rw [hepoch, h.groupEpoch]
  · rw [hhash, h.metadataHash]
  · rw [htargetEpoch, h.targetEpoch]
  · exact applySeed_members h.toMirrorsRoster hroster groupId
  · intro id hid
    rw [htarget, h.target, memberTarget_of_contains hid]
  · rw [hregexes, h.regexes]

theorem respawn_eq (groupId : String) (cached : Option GroupSeed) :
    respawn groupId cached =
      (new groupId).applySeed (cached.getD newGroup) := by
  cases cached <;> rfl

/-! ## A batch -/

section Batch

variable {seed : GroupSeed} {g g' : GroupState} {pending : List PendingRecords}

theorem Mirrors.applyAll (h : Mirrors seed g) (hp : DescribesAll pending g g') :
    Mirrors (seed.applyAll pending) g' := by
  induction hp generalizing seed with
  | nil => exact h
  | cons hfirst _ ih => exact ih (h.applyOwn hfirst)

theorem Mirrors.replay_toBatch (groupId : String) (h : Mirrors seed g)
    (hp : DescribesAll pending g g') :
    replay groupId (some seed) (toBatch pending) =
      .ok (some (seed.applyAll pending)) := by
  induction hp generalizing seed with
  | nil => rfl
  | @cons first rest before between after hfirst hrest ih =>
    change replay groupId (some seed) (first.pushRecords ++ toBatch rest) = _
    rw [replay_append (replay_pushRecords (hfirst.replayable h))]
    exact ih (h.applyOwn hfirst)

theorem DescribesAll.epoch_le (hp : DescribesAll pending g g') : g.groupEpoch ≤ g'.groupEpoch := by
  induction hp with
  | nil => exact le_rfl
  | cons hfirst _ ih => exact hfirst.epoch_le.trans ih

variable {p : PendingRecords}

/-- No transition writes a tombstone of the group or of its target metadata. -/
theorem keepsGroup_of_mem {r : Record} (h : r ∈ p.pushRecords) : r.keepsGroup = true := by
  simp only [pushRecords, removalRecords, mem_append, mem_flatMap, mem_map, mem_singleton,
    mem_ite_nil_right, Option.mem_toList] at h
  rcases h with ((((((⟨id, -, (⟨-, rfl⟩ | ⟨-, rfl⟩) | rfl⟩ | ⟨e, -, rfl⟩) | ⟨e, -, rfl⟩) |
    ⟨v, -, rfl⟩) | ⟨-, rfl⟩) | ⟨e, -, rfl⟩) | ⟨v, -, rfl⟩) | ⟨e, -, rfl⟩
  all_goals rfl

theorem applyAll_overwritten {f : GroupSeed → GroupSeed} {sets : PendingRecords → Bool}
    (hsets : ∀ seed p, sets p = true → (f seed).applyOwn p = seed.applyOwn p)
    (hkeeps : ∀ seed p, sets p = false → (f seed).applyOwn p = f (seed.applyOwn p))
    (hp : ∃ p ∈ pending, sets p = true) : (f seed).applyAll pending = seed.applyAll pending := by
  induction pending generalizing seed with
  | nil =>
    obtain ⟨p, hp, -⟩ := hp
    cases hp
  | cons first rest ih =>
    change applyAll (applyOwn _ first) rest =
      applyAll (applyOwn _ first) rest
    cases hfirst : sets first with
    | true => rw [hsets seed first hfirst]
    | false =>
      rw [hkeeps seed first hfirst]
      refine ih ?_
      obtain ⟨p, hmem, hset⟩ := hp
      rcases mem_cons.mp hmem with rfl | hrest
      · rw [hfirst] at hset
        cases hset
      · exact ⟨p, hrest, hset⟩

theorem applyAll_groupEpoch (epoch : Int) (hp : ∃ p ∈ pending, p.groupMetadata.isSome) :
    applyAll { seed with groupEpoch := epoch } pending = seed.applyAll pending := by
  refine applyAll_overwritten (f := fun seed => { seed with groupEpoch := epoch }) ?_ ?_ hp
  all_goals
    intro seed p hp
    unfold applyOwn
    cases hmeta : p.groupMetadata <;> simp_all

theorem applyAll_targetEpoch (epoch : Int) (hp : ∃ p ∈ pending, p.targetMetadata.isSome) :
    applyAll { seed with targetEpoch := epoch } pending = seed.applyAll pending := by
  refine applyAll_overwritten (f := fun seed => { seed with targetEpoch := epoch }) ?_ ?_ hp
  all_goals
    intro seed p hp
    unfold applyOwn
    cases hmeta : p.targetMetadata <;> simp_all

/-- The batch carries the group epoch and the target epoch. -/
def CarriesEpochs (pending : List PendingRecords) : Prop :=
  ∃ p ∈ pending, p.groupMetadata.isSome ∧ p.targetMetadata.isSome

/-- A batch that carries both epochs gives the same seed from the default seed
as from the seed of a new group, and replays to it from nothing. -/
theorem CarriesEpochs.first (groupId : String) (h : CarriesEpochs pending) :
    default.applyAll pending = newGroup.applyAll pending ∧
      replay groupId none (toBatch pending) =
        replay groupId (some newGroup) (toBatch pending) := by
  obtain ⟨p, hp, hgroup, htarget⟩ := h
  constructor
  · calc default.applyAll pending
        = applyAll { default with targetEpoch := initialGroupEpoch } pending :=
          (applyAll_targetEpoch initialGroupEpoch ⟨p, hp, htarget⟩).symm
      _ = newGroup.applyAll pending :=
          (applyAll_groupEpoch initialGroupEpoch ⟨p, hp, hgroup⟩).symm
  · obtain ⟨v, hv⟩ := Option.isSome_iff_exists.mp hgroup
    refine replay_none ⟨.groupMetadata (some v), mem_flatMap.mpr ⟨p, hp, ?_⟩, rfl⟩ fun r hr => ?_
    · simp [pushRecords, hv]
    · obtain ⟨q, -, hmem⟩ := mem_flatMap.mp hr
      exact keepsGroup_of_mem hmem

end Batch

/-! ## The first batch of a group -/

namespace GroupState

theorem pickAssignor_isSome (g : GroupState) {config : Config} (h : config.assignors ≠ []) :
    (g.pickAssignor config).isSome := by
  obtain ⟨first, rest, hcons⟩ := exists_cons_of_ne_nil h
  unfold pickAssignor
  cases g.preferredServerAssignor.bind config.findAssignor <;> simp [hcons]

theorem maybeUpdateTarget_isSome (g : GroupState) (hb : Heartbeat)
    (hstale : g.target.epoch < g.groupEpoch)
    (hnever : g.assignmentTimestampMs = 0) (hassignors : hb.config.assignors ≠ []) :
    (g.maybeUpdateTarget hb.config hb.image hb.nowMs hb.finishedMs).2.isSome := by
  obtain ⟨assignor, hassignor⟩ := Option.isSome_iff_exists.mp (g.pickAssignor_isSome hassignors)
  unfold maybeUpdateTarget
  rw [if_neg (by simp [targetIsStale, assignmentDelayed, hstale, hnever]), hassignor]
  rfl

theorem maybeUpdateRegularExpressions_of_none (g : GroupState) (newRegex : Option String)
    (regexes : RegexResolution) :
    (g.maybeUpdateRegularExpressions none newRegex regexes).1 = g := by
  have hdropped : (if none ≠ newRegex then g.dropOldRegex none else (g, [])) = (g, []) := ite_self _
  unfold maybeUpdateRegularExpressions
  rw [hdropped]
  dsimp only
  split_ifs <;> rfl

theorem buildMember_names_ne (hb : Heartbeat) (req : HeartbeatRequest) (id : String)
    (hnames : req.subscribedTopicNames.getD [] ≠ []) :
    (buildMember hb req id).subscribedTopicNames ≠ ∅ := by
  intro hempty
  obtain ⟨name, hname⟩ := exists_mem_of_ne_nil _ hnames
  have hmem : name ∈ (buildMember hb req id).subscribedTopicNames := by
    dsimp only [buildMember]
    cases hreq : req.subscribedTopicNames <;> simp_all
  rw [hempty] at hmem
  exact SortedSet.notMem_empty name hmem

theorem joinUpdate_new (groupId : String) (hb : Heartbeat) (req : HeartbeatRequest) (id : String)
    (hnames : req.subscribedTopicNames.getD [] ≠ []) (hassignors : hb.config.assignors ≠ []) :
    let update := (GroupState.new groupId).joinUpdate hb req id
    update.group.groupEpoch ≠ initialGroupEpoch ∧ update.target.isSome := by
  intro update
  let joined := (GroupState.new groupId).withJoined hb req id
  let regex := joined.maybeUpdateRegularExpressions none (joinChange hb req id).newRegex hb.regexes
  let g₁ : GroupState :=
    { regex.1 with
      members := regex.1.members.modify id (Member.withRegex · (joinChange hb req id).newRegex) }
  let bump := (joinChange hb req id).namesChanged || regex.2.1 = .updatedAndResolved
  let g₂ := (g₁.updateSubscription hb.image bump).1
  have hregex : regex.1 = joined := joined.maybeUpdateRegularExpressions_of_none _ hb.regexes
  have hg₁ : g₁.groupEpoch = initialGroupEpoch ∧ g₁.target.epoch = initialGroupEpoch ∧
      g₁.assignmentTimestampMs = 0 := by
    dsimp only [g₁]
    rw [hregex]
    dsimp only [joined, withJoined, addOrUpdateMember, buildMember, Member.withRegex]
    cases req.instanceId <;> exact ⟨rfl, rfl, rfl⟩
  have hbump : bump = true := by
    dsimp only [bump, joinChange]
    rw [decide_eq_true (buildMember_names_ne hb req id hnames), Bool.true_or]
  have hg₂ : g₂ = { g₁ with groupEpoch := g₁.groupEpoch + 1,
                            metadataHash := g₁.currentMetadataHash hb.image,
                            metadataRefreshRequested := false } := by
    have hmeta : g₂ = g₁.updateSubscriptionMetadata hb.image bump := by
      dsimp only [g₂, updateSubscription]
      rw [if_neg (by simp [hbump])]
    rw [hmeta]
    rcases g₁.updateSubscriptionMetadata_cases hb.image bump with h | ⟨hfalse, -⟩ | ⟨hmax, -⟩
    · exact h
    · rw [hbump] at hfalse
      cases hfalse
    · rw [hg₁.1] at hmax
      exact absurd (by decide) hmax
  have hstale : g₂.target.epoch < g₂.groupEpoch := by
    rw [hg₂]
    dsimp only
    omega
  have hnever : g₂.assignmentTimestampMs = 0 := by
    rw [hg₂]
    exact hg₁.2.2
  let g₃ := (g₂.maybeUpdateTarget hb.config hb.image hb.nowMs hb.finishedMs).1
  have hlast : SameBesideMembers g₃ update.group := g₃.reconcileMember_same id _ _ hb.image
  have hepoch : g₃.groupEpoch = g₂.groupEpoch := (maybeUpdateTarget_updates rfl).1
  constructor
  · rw [hlast.groupEpoch, hepoch, hg₂]
    dsimp only
    omega
  · exact g₂.maybeUpdateTarget_isSome hb hstale hnever hassignors

theorem applyRegexResult_new (groupId : String) (resolved : Resolutions) (image : MetadataImage) :
    (GroupState.new groupId).applyRegexResult resolved image = (GroupState.new groupId, {}) := by
  have hnone : resolved.entries.foldl applyResolution (GroupState.new groupId, false, []) =
      (GroupState.new groupId, false, []) := by
    induction resolved.entries with
    | nil => rfl
    | cons e entries ih => exact ih
  have hhash : (GroupState.new groupId).currentMetadataHash image = 0 := image.groupHash_empty
  unfold applyRegexResult
  dsimp only
  rw [hnone, hhash]
  rfl

end GroupState

/-! ## Runs -/

/-- The operations of one group that are flushed one by one. -/
def Op.isTransition : Op → Bool
  | .heartbeat _ _ => true
  | .fenceMembers _ _ => true
  | .applyRegexResult _ _ => true
  | .installTarget _ => false
  | .respawn => false

/-- The runs of transitions that are each followed by a flush. -/
def flushedTransitions (groupId : String) : TransitionSystem Coordinator Op :=
  (coordinators groupId).restrict fun _ op _ => op.isTransition = true

/-- A member joins under an id that has no target in memory.  The first one names a
topic and finds an assignor, and nobody is fenced before it. -/
def Recorded (c : Coordinator) : Op → Prop
  | .heartbeat hb req =>
    c.group.resolveMember req (firstJoinMemberId hb req.memberId) = .ok .new →
      c.group.targetOf (firstJoinMemberId hb req.memberId) = ∅ ∧
        (c.cached = none →
          req.subscribedTopicNames.getD [] ≠ [] ∧ hb.config.assignors ≠ [])
  | .fenceMembers _ memberIds => c.cached = none → memberIds = []
  | _ => True

structure Reloads (groupId : String) (c : Coordinator) : Prop extends c.Inv where
  mirrors : Mirrors (c.cached.getD newGroup) c.group
  replays : replay groupId none c.log = .ok c.cached
  unwritten : c.cached = none → c.log = [] ∧ c.group = GroupState.new groupId
  epoch : 0 ≤ c.group.groupEpoch

theorem Mirrors.congr {seed : GroupSeed} {g : GroupState} (h : Mirrors seed g) (flag : Bool) :
    Mirrors seed { g with hasSubscriptionMetadataRecord := flag } :=
  ⟨⟨h.members, h.current⟩, h.groupEpoch, h.metadataHash, h.targetEpoch, h.target, h.regexes⟩

namespace Reloads

variable {groupId : String} {c : Coordinator} {g : GroupState} {pending : List PendingRecords}

theorem new (groupId : String) : Reloads groupId (Coordinator.new groupId) where
  toInv := Coordinator.Inv.new groupId
  mirrors := ⟨⟨fun _ => rfl, fun _ => rfl⟩, rfl, rfl, rfl, fun _ => rfl, rfl⟩
  replays := rfl
  unwritten _ := ⟨rfl, rfl⟩
  epoch := Int.zero_le_ofNat 1

theorem flush (h : Reloads groupId c) (hinv : (c.flush g pending).Inv)
    (hp : DescribesAll pending c.group g)
    (hfirst : c.cached = none → CarriesEpochs pending ∨ g = c.group ∧ pending.all isEmpty = true) :
    Reloads groupId (c.flush g pending) := by
  have hmirrors := h.mirrors.applyAll hp
  have hepoch := h.epoch.trans hp.epoch_le
  by_cases hempty : pending.all isEmpty = true
  · have hflush : c.flush g pending = { c with group := g } := if_pos hempty
    rw [Coordinator.applyAll_of_isEmpty hempty] at hmirrors
    rw [hflush] at hinv ⊢
    refine ⟨hinv, hmirrors, h.replays, fun hnone => ?_, hepoch⟩
    obtain ⟨hlog, hgroup⟩ := h.unwritten hnone
    rcases hfirst hnone with ⟨p, hmem, hmeta, -⟩ | ⟨hsame, -⟩
    · have hp := all_eq_true.mp hempty p hmem
      simp [PendingRecords.isEmpty, Option.isSome_iff_ne_none.mp hmeta] at hp
    · exact ⟨hlog, hsame.trans hgroup⟩
  · let group := if pending.any partitionMetadataTombstone then
        { g with hasSubscriptionMetadataRecord := false } else g
    have hflush : c.flush g pending =
        { group := group
          cached := some ((c.cached.getD default).applyAll pending)
          log := c.log ++ toBatch pending } := if_neg hempty
    have hgroup : Mirrors ((c.cached.getD newGroup).applyAll pending) group ∧
        group.groupEpoch = g.groupEpoch := by
      dsimp only [group]
      split_ifs
      · exact ⟨hmirrors.congr false, rfl⟩
      · exact ⟨hmirrors, rfl⟩
    rw [hflush] at hinv ⊢
    cases hcached : c.cached with
    | some seed =>
      rw [hcached] at hinv hgroup
      have hreplays := h.replays
      have hbatch := h.mirrors.replay_toBatch groupId hp
      rw [hcached] at hreplays hbatch
      refine ⟨hinv, hgroup.1, ?_, fun hnone => absurd hnone (Option.some_ne_none _), ?_⟩
      · rw [replay_append hreplays]
        exact hbatch
      · rw [hgroup.2]
        exact hepoch
    | none =>
      have hcarries := (hfirst hcached).resolve_right fun hsame => hempty hsame.2
      have hreplays := h.replays
      have hbatch := h.mirrors.replay_toBatch groupId hp
      obtain ⟨hseed, hnew⟩ := hcarries.first groupId
      rw [hcached] at hinv hreplays hbatch hgroup
      refine ⟨hinv, ?_, ?_, fun hnone => absurd hnone (Option.some_ne_none _), ?_⟩
      · dsimp only [Option.getD]
        rw [hseed]
        exact hgroup.1
      · rw [replay_append hreplays, hnew]
        dsimp only [Option.getD]
        rw [hseed]
        exact hbatch
      · rw [hgroup.2]
        exact hepoch

/-- Only a join changes a group that nothing was written for, and it writes the
epochs. -/
theorem first_heartbeat {hb : Heartbeat} {req : HeartbeatRequest} (h : Reloads groupId c)
    (ht : HeartbeatTransition c.group hb req g pending) (hrecorded : Recorded c (.heartbeat hb req))
    (hnone : c.cached = none) : CarriesEpochs pending := by
  have hgroup := (h.unwritten hnone).2
  have hempty : ∀ id, c.group.members.get? id = none := by
    intro id
    rw [hgroup]
    rfl
  cases ht with
  | release hm | leave hm | steady _ hm | replace _ _ hm =>
    rw [hempty] at hm
    cases hm
  | @join id hid _ hresolved =>
    rw [hid] at hresolved
    obtain ⟨-, hfirst⟩ := hrecorded hresolved
    obtain ⟨hnames, hassignors⟩ := hfirst hnone
    obtain ⟨hepoch, htarget⟩ := joinUpdate_new groupId hb req id hnames hassignors
    rw [hgroup, memberUpdateRecords_eq]
    refine ⟨_, mem_singleton_self _, ?_, ?_⟩
    · exact Option.isSome_iff_exists.mpr ⟨_, if_pos hepoch⟩
    · simpa [updateRecords, writtenTargets, Recorder.finish] using htarget

theorem step {op : Op} (h : Reloads groupId c) (hop : op.isTransition = true)
    (hrecorded : Recorded c op) : Reloads groupId (c.step op) := by
  have hinv := h.toInv.step op
  cases op with
  | heartbeat hb req =>
    unfold Coordinator.step at hinv ⊢
    dsimp only at hinv ⊢
    rcases stepHeartbeat_outcome h.roster hb req with ⟨hsame, hcode⟩ | ⟨ht, hcode⟩
    · rw [if_pos hcode, hsame]
      exact h
    · rw [if_neg (not_not.mpr hcode)] at hinv ⊢
      exact h.flush hinv (describesAll_heartbeat ht (fun hnew => (hrecorded hnew).1) h.epoch)
        fun hnone => .inl (h.first_heartbeat ht hrecorded hnone)
  | fenceMembers image ids =>
    refine h.flush hinv (describes_fenceMembers c.group image ids).all fun hnone => .inr ?_
    rw [hrecorded hnone]
    exact ⟨rfl, rfl⟩
  | applyRegexResult resolved image =>
    refine h.flush hinv (describes_applyRegexResult c.group resolved image).all
      fun hnone => .inr ?_
    rw [(h.unwritten hnone).2, applyRegexResult_new]
    exact ⟨rfl, rfl⟩
  | installTarget perMember => cases hop
  | respawn => cases hop

end Reloads

/-- In every run of flushed transitions that meet `Recorded`, the group that the
cached seed loads and the group that a replay of the log loads are the live
group. -/
theorem reload_restores {groupId : String} {c : Coordinator}
    (h : ((flushedTransitions groupId).restrict fun c op _ => Recorded c op).Reachable c) :
    SameGroup c.group (respawn groupId c.cached) ∧
      ∃ seed, replay groupId none c.log = .ok seed ∧
        SameGroup c.group (respawn groupId seed) := by
  have hreloads : Reloads groupId c := by
    refine h.invariant ?_ ?_
    · intro c hc
      rw [hc]
      exact Reloads.new groupId
    · intro c op c' hc hstep
      obtain ⟨⟨hop, htransition⟩, hrecorded⟩ := hstep
      rw [hop]
      exact hc.step htransition hrecorded
  have hsame := hreloads.mirrors.sameGroup hreloads.roster groupId
  rw [← respawn_eq] at hsame
  exact ⟨hsame, c.cached, hreloads.replays, hsame⟩

/-- Two members join, and the conditions are met. -/
theorem reload_restores_two_members :
    ∃ c, ((flushedTransitions "g").restrict fun c op _ => Recorded c op).Reachable c ∧
      (c.group.targetOf "a").elems ≠ [] ∧
      SameGroup c.group (respawn "g" c.cached) := by
  have hfirst : Recorded (Coordinator.new "g") (Coordinator.beat "a" 0) :=
    fun _ => ⟨by decide +kernel, fun _ => ⟨by decide, by decide⟩⟩
  have hsecond : Recorded ((Coordinator.new "g").step (Coordinator.beat "a" 0))
      (Coordinator.beat "b" 0) :=
    fun _ => ⟨by decide +kernel, fun hnone => absurd hnone (by decide +kernel)⟩
  have hrun : ((flushedTransitions "g").restrict fun c op _ => Recorded c op).Reachable
      (((Coordinator.new "g").step (Coordinator.beat "a" 0)).step (Coordinator.beat "b" 0)) :=
    .step (.step (.init rfl) ⟨⟨rfl, rfl⟩, hfirst⟩) ⟨⟨rfl, rfl⟩, hsecond⟩
  exact ⟨_, hrun, by decide +kernel, (reload_restores hrun).1⟩

/-- A member that leaves and joins again with the same id keeps its target in
memory, and no record of it is written; and a member that joins with a pattern
writes no epochs, and the cached seed has the epoch 0. -/
theorem reload_diverges :
    (∃ c, (flushedTransitions "g").Reachable c ∧ c.group.members.contains "a" = true ∧
        (respawn "g" c.cached).targetOf "a" ≠ c.group.targetOf "a") ∧
      ∃ c, (flushedTransitions "g").Reachable c ∧
        (respawn "g" c.cached).groupEpoch ≠ c.group.groupEpoch := by
  let leave : Op := .heartbeat Coordinator.smallBroker { memberId := "a", memberEpoch := -1 }
  let pattern : Op := .heartbeat Coordinator.smallBroker
    { memberId := "a", memberEpoch := 0, subscribedTopicRegex := some "t.*" }
  have hrejoined : (flushedTransitions "g").Reachable ((((Coordinator.new "g").step
      (Coordinator.beat "a" 0)).step leave).step (Coordinator.beat "a" 0)) :=
    .step (.step (.step (.init rfl) ⟨rfl, rfl⟩) ⟨rfl, rfl⟩) ⟨rfl, rfl⟩
  have hpattern : (flushedTransitions "g").Reachable ((Coordinator.new "g").step pattern) :=
    .step (.init rfl) ⟨rfl, rfl⟩
  exact ⟨⟨_, hrejoined, by decide +kernel, by decide +kernel⟩, _, hpattern, by decide +kernel⟩

end Krabka.ConsumerGroup

import Krabka.ConsumerGroup.Coordinator
import Krabka.ConsumerGroup.Replay

/-!
# The records of a transition describe it

`Describes p g g'` says that the records `p` hold the difference between the
group before and after a transition, and `Mirrors` that a seed holds a group.
Records that describe the transition keep the cached seed a mirror of the group
(`Mirrors.applyOwn`), and they replay from the log to the same seed
(`Describes.replayable`).

Every transition of a group is described by its records, with one exception: a
member that joins must have no target left in memory from an earlier stay under
the same id (`describes_memberUpdate`).
-/

namespace Krabka.ConsumerGroup

open GroupState SortedMap Recorder SortedSet Option

/-! ## Seeds and records -/

namespace GroupState

/-- The target record that a computed target gives an id. -/
def targetRecord (g : GroupState) (id : String) : Option Partitions :=
  if g.members.contains id then some (g.targetOf id) else none

/-- The target of an id, none for an id that is no member. -/
def memberTarget (g : GroupState) (id : String) : Partitions := (g.targetRecord id).getD ∅

end GroupState

/-- The seed has all that the group has. -/
structure Mirrors (seed : GroupSeed) (g : GroupState) : Prop extends
    MirrorsRoster seed g.members where
  groupEpoch : seed.groupEpoch = g.groupEpoch
  metadataHash : seed.metadataHash = g.metadataHash
  targetEpoch : seed.targetEpoch = g.target.epoch
  target : ∀ id, (seed.targetPerMember.get? id).getD ∅ = g.memberTarget id
  regexes : seed.resolvedRegexes = g.resolvedRegexes

/-- The records hold the difference between the two groups. -/
structure Describes (p : PendingRecords) (g g' : GroupState) : Prop where
  members : ∀ u ∈ p.memberMetadata, u.2 = g'.metadataRecord u.1
  members_frame : ∀ id, id ∉ p.memberMetadata.map Prod.fst →
    g.metadataRecord id = g'.metadataRecord id
  current : ∀ u ∈ p.currentPerMember, u.2 = g'.currentRecord u.1
  current_frame : ∀ id, id ∉ p.currentPerMember.map Prod.fst →
    g.currentRecord id = g'.currentRecord id
  target : ∀ u ∈ p.targetPerMember, u.2 = g'.targetRecord u.1
  target_frame : ∀ id, id ∉ p.targetPerMember.map Prod.fst → g.memberTarget id = g'.memberTarget id
  removed : ∀ id ∈ p.removed, (id, none) ∈ p.currentPerMember ∧ (id, none) ∈ p.targetPerMember
  current_removed : ∀ id, (id, none) ∈ p.currentPerMember → id ∈ p.removed
  regexes : g'.resolvedRegexes = g.resolvedRegexes.patch p.resolvedRegexes
  epoch_le : g.groupEpoch ≤ g'.groupEpoch
  groupEpoch : g'.groupEpoch = (p.groupMetadata.map GroupMetadataValue.epoch).getD g.groupEpoch
  metadataHash :
    g'.metadataHash = (p.groupMetadata.map GroupMetadataValue.metadataHash).getD g.metadataHash
  targetEpoch : g'.target.epoch =
    (p.targetMetadata.map TargetAssignmentMetadataValue.assignmentEpoch).getD g.target.epoch
  targetMetadata : ∀ v, p.targetMetadata = some v →
    0 ≤ v.assignmentEpoch ∧ 0 ≤ v.assignmentTimestampMs

variable {seed : GroupSeed} {g g' : GroupState} {p : PendingRecords}

theorem Mirrors.applyOwn (h : Mirrors seed g) (hp : Describes p g g') :
    Mirrors (seed.applyOwn p) g' where
  members id := by
    change (seed.members.patch p.memberMetadata).get? id = _
    rw [get?_patch _ hp.members]
    split_ifs with hid
    · rfl
    · exact (h.members id).trans (hp.members_frame id hid)
  current id := by
    change (seed.currentPerMember.patch p.currentPerMember).get? id = _
    rw [get?_patch _ hp.current]
    split_ifs with hid
    · rfl
    · exact (h.current id).trans (hp.current_frame id hid)
  groupEpoch := by
    rw [hp.groupEpoch, ← h.groupEpoch]
    rfl
  metadataHash := by
    rw [hp.metadataHash, ← h.metadataHash]
    rfl
  targetEpoch := by
    rw [hp.targetEpoch, ← h.targetEpoch]
    rfl
  target id := by
    change ((seed.targetPerMember.patch p.targetPerMember).get? id).getD ∅ = _
    rw [get?_patch _ hp.target]
    split_ifs with hid
    · rfl
    · rw [h.target, hp.target_frame id hid]
  regexes := by
    rw [hp.regexes, ← h.regexes]
    rfl

theorem MirrorsRoster.onlyMembers (h : MirrorsRoster seed g.members) : seed.OnlyMembers := by
  intro id hid
  have hnone : (seed.members.get? id).isSome = false := hid
  rw [h.members, isSome_map] at hnone
  rw [h.current]
  cases hm : g.members.get? id with
  | none => rfl
  | some m =>
    rw [hm] at hnone
    cases hnone

theorem Describes.replayable (hp : Describes p g g') (h : Mirrors seed g) : Replayable p seed where
  members := ⟨_, hp.members⟩
  target := ⟨_, hp.target⟩
  current := ⟨_, hp.current⟩
  removed := hp.removed
  current_removed := hp.current_removed
  current_held := by
    intro u hu hsome
    have hmember : (seed.members.patch p.memberMetadata).get? u.1 = g'.metadataRecord u.1 :=
      (h.applyOwn hp).members u.1
    rw [hp.current u hu, currentRecord, isSome_map] at hsome
    rw [contains, hmember, metadataRecord, isSome_map]
    exact hsome
  onlyMembers := h.toMirrorsRoster.onlyMembers
  targetMetadata := by
    intro v hv
    obtain ⟨hepoch, htimestamp⟩ := hp.targetMetadata v hv
    unfold targetMetadataError
    rw [if_neg fun hneg => absurd hneg.1 (not_lt.mpr hepoch), if_neg (not_lt.mpr htimestamp)]

variable {id : String}

theorem memberTarget_of_contains (h : g.members.contains id = true) :
    g.memberTarget id = g.targetOf id := by
  rw [memberTarget, targetRecord, if_pos h]
  rfl

/-! ## What the recorder writes -/

theorem mem_removalOf {before after : Option (MemberMetadataValue × CurrentMemberAssignmentValue)}
    {u : String × Option Partitions} :
    u ∈ removalOf id before after ↔
      before.isSome = true ∧ after.isSome = false ∧ u = (id, none) := by
  cases before <;> cases after <;> simp [removalOf]

theorem mem_finish_targetPerMember {ids changed : List String} {u : String × Option Partitions} :
    u ∈ ((start g ids).finish g' (some changed) false).targetPerMember ↔
      (u.1 ∈ ids ∧ g.members.contains u.1 = true ∧ g'.members.contains u.1 = false ∧ u.2 = none) ∨
        (u.1 ∈ changed ∧ u.2 = some (g'.targetOf u.1)) := by
  have hvalues : ∀ (g : GroupState) (id : String),
      (memberValues g id).isSome = g.members.contains id := fun g id => isSome_map ..
  simp only [finish, start, List.mem_append, List.mem_flatMap, List.mem_map,
    mem_removalOf, getD_some]
  refine or_congr ⟨?_, ?_⟩ ⟨?_, ?_⟩
  · rintro ⟨e, ⟨id, hid, rfl⟩, hbefore, hafter, rfl⟩
    rw [hvalues] at hbefore hafter
    exact ⟨hid, hbefore, hafter, rfl⟩
  · rintro ⟨hid, hbefore, hafter, hnone⟩
    refine ⟨_, ⟨u.1, hid, rfl⟩, ?_, ?_, Prod.ext rfl hnone⟩
    · rw [hvalues]
      exact hbefore
    · rw [hvalues]
      exact hafter
  · rintro ⟨id, hid, rfl⟩
    exact ⟨hid, rfl⟩
  · rintro ⟨hid, hvalue⟩
    exact ⟨u.1, hid, Prod.ext rfl hvalue.symm⟩

theorem map_member_eq_none {υ : Type} {f : Member → υ} :
    (g.members.get? id).map f = none ↔ g.members.contains id = false := by
  rw [map_eq_none_iff, contains, isSome_eq_false_iff,
    isNone_iff_eq_none]

theorem mem_changes_none {υ : Type} [DecidableEq υ] {before after : String → Option υ}
    {ids : List String} (hbefore : before id = none ↔ g.members.contains id = false)
    (hafter : after id = none ↔ g'.members.contains id = false) :
    (id, none) ∈ changes ids before after ↔
      id ∈ ids ∧ g.members.contains id = true ∧ g'.members.contains id = false := by
  rw [mem_changes]
  constructor
  · rintro ⟨hid, hne, hnone⟩
    rw [← hnone, ne_eq, hbefore, Bool.not_eq_false] at hne
    exact ⟨hid, hne, hafter.mp hnone.symm⟩
  · rintro ⟨hid, hmember, hgone⟩
    have hnone := hafter.mpr hgone
    refine ⟨hid, ?_, hnone.symm⟩
    rw [hnone, ne_eq, hbefore, hmember]
    exact Bool.noConfusion

theorem Describes.of_recorder (ids changed : List String)
    (hframe : ∀ x, x ∉ ids → g'.members.get? x = g.members.get? x)
    (hmembers : p.memberMetadata = ((start g ids).finish g' none false).memberMetadata)
    (hcurrent : p.currentPerMember = ((start g ids).finish g' none false).currentPerMember)
    (htarget : p.targetPerMember =
      ((start g ids).finish g' (some changed) false).targetPerMember)
    (hchanged : ∀ id ∈ changed, g'.members.contains id = true)
    (hkept : ∀ id, g'.members.contains id = true → id ∉ changed →
      g'.targetOf id = g.memberTarget id)
    (hregexes : g'.resolvedRegexes = g.resolvedRegexes.patch p.resolvedRegexes)
    (hle : g.groupEpoch ≤ g'.groupEpoch)
    (hepoch : g'.groupEpoch = (p.groupMetadata.map GroupMetadataValue.epoch).getD g.groupEpoch)
    (hhash : g'.metadataHash =
      (p.groupMetadata.map GroupMetadataValue.metadataHash).getD g.metadataHash)
    (htargetEpoch : g'.target.epoch =
      (p.targetMetadata.map TargetAssignmentMetadataValue.assignmentEpoch).getD g.target.epoch)
    (hvalid : ∀ v, p.targetMetadata = some v →
      0 ≤ v.assignmentEpoch ∧ 0 ≤ v.assignmentTimestampMs) : Describes p g g' := by
  rw [MirrorsRoster.finish_memberMetadata] at hmembers
  rw [MirrorsRoster.finish_currentPerMember] at hcurrent
  have hremoved : ∀ id, id ∈ p.removed ↔
      id ∈ ids ∧ g.members.contains id = true ∧ g'.members.contains id = false := by
    intro id
    rw [mem_removed, hmembers]
    exact mem_changes_none map_member_eq_none map_member_eq_none
  have hleft : ∀ id, (id, none) ∈ p.currentPerMember ↔
      id ∈ ids ∧ g.members.contains id = true ∧ g'.members.contains id = false := by
    intro id
    rw [hcurrent]
    exact mem_changes_none map_member_eq_none map_member_eq_none
  constructor
  case members =>
    intro u hu
    rw [hmembers] at hu
    exact (mem_changes.mp hu).2.2
  case members_frame =>
    intro id hid
    rw [hmembers] at hid
    refine changes_frame (fun a ha => ?_) hid
    rw [metadataRecord, metadataRecord, hframe a ha]
  case current =>
    intro u hu
    rw [hcurrent] at hu
    exact (mem_changes.mp hu).2.2
  case current_frame =>
    intro id hid
    rw [hcurrent] at hid
    refine changes_frame (fun a ha => ?_) hid
    rw [currentRecord, currentRecord, hframe a ha]
  case target =>
    intro u hu
    rw [htarget] at hu
    rcases mem_finish_targetPerMember.mp hu with ⟨-, -, hgone, hnone⟩ | ⟨hid, hvalue⟩
    · rw [hnone, targetRecord, if_neg (by rw [hgone]; exact Bool.false_ne_true)]
    · rw [hvalue, targetRecord, if_pos (hchanged _ hid)]
  case target_frame =>
    intro id hid
    rw [htarget] at hid
    have hkey : ∀ v, (id, v) ∉ ((start g ids).finish g' (some changed) false).targetPerMember :=
      fun v hv => hid (List.mem_map.mpr ⟨_, hv, rfl⟩)
    by_cases hmember : g'.members.contains id = true
    · have hnot : id ∉ changed := fun hin =>
        hkey (some (g'.targetOf id)) (mem_finish_targetPerMember.mpr (.inr ⟨hin, rfl⟩))
      rw [← hkept id hmember hnot, memberTarget_of_contains hmember]
    · -- An id that is no member after is in the tombstones, or was none before.
      rw [Bool.not_eq_true] at hmember
      have hbefore : g.members.contains id = false := by
        by_contra hin
        rw [Bool.not_eq_false] at hin
        by_cases hids : id ∈ ids
        · exact hkey none (mem_finish_targetPerMember.mpr (.inl ⟨hids, hin, hmember, rfl⟩))
        · rw [contains, ← hframe id hids] at hin
          exact Bool.false_ne_true (hmember.symm.trans hin)
      rw [memberTarget, memberTarget, targetRecord, targetRecord, hmember, hbefore]
      rfl
  case removed =>
    intro id hid
    have hgone := (hremoved id).mp hid
    refine ⟨(hleft id).mpr hgone, ?_⟩
    rw [htarget]
    exact mem_finish_targetPerMember.mpr (.inl ⟨hgone.1, hgone.2.1, hgone.2.2, rfl⟩)
  case current_removed =>
    intro id hid
    exact (hremoved id).mpr ((hleft id).mp hid)
  case regexes => exact hregexes
  case epoch_le => exact hle
  case groupEpoch => exact hepoch
  case metadataHash => exact hhash
  case targetEpoch => exact htargetEpoch
  case targetMetadata => exact hvalid

/-! ## What a member update does beside the member -/

namespace GroupState

variable {hb : Heartbeat}

structure SameEpochs (g g' : GroupState) : Prop where
  groupEpoch : g'.groupEpoch = g.groupEpoch
  metadataHash : g'.metadataHash = g.metadataHash
  target : g'.target = g.target

theorem SameEpochs.trans {g g' g'' : GroupState} (h : SameEpochs g g') (h' : SameEpochs g' g'') :
    SameEpochs g g'' :=
  ⟨h'.groupEpoch.trans h.groupEpoch, h'.metadataHash.trans h.metadataHash,
    h'.target.trans h.target⟩

theorem dropOldRegex_same (g : GroupState) (oldRegex : Option String) :
    SameEpochs g (g.dropOldRegex oldRegex).1 ∧ (g.dropOldRegex oldRegex).1.resolvedRegexes =
      g.resolvedRegexes.patch (g.dropOldRegex oldRegex).2 := by
  unfold dropOldRegex
  cases oldRegex with
  | none => exact ⟨⟨rfl, rfl, rfl⟩, rfl⟩
  | some old =>
    dsimp only
    split_ifs <;> exact ⟨⟨rfl, rfl, rfl⟩, rfl⟩

/-- The update of the patterns may drop the resolution of the old one, and does
nothing else to the group. -/
theorem maybeUpdateRegularExpressions_same {g : GroupState} {oldRegex newRegex : Option String}
    {regexes : RegexResolution} {r : GroupState × RegexUpdate × Option Resolutions ×
      List (String × Option ResolvedRegularExpression)}
    (hr : g.maybeUpdateRegularExpressions oldRegex newRegex regexes = r) :
    SameEpochs g r.1 ∧ r.1.resolvedRegexes = g.resolvedRegexes.patch r.2.2.2 := by
  subst hr
  unfold maybeUpdateRegularExpressions
  split_ifs
  · exact ⟨⟨rfl, rfl, rfl⟩, rfl⟩
  · dsimp only
    split_ifs <;> exact g.dropOldRegex_same oldRegex
  · dsimp only
    split_ifs <;> exact ⟨⟨rfl, rfl, rfl⟩, rfl⟩

theorem get?_installTarget (g : GroupState) (perMember : SortedMap String Partitions)
    (id : String) :
    (g.installTarget perMember).1.target.perMember.get? id =
      if g.members.contains id then some ((perMember.get? id).getD ∅) else none := by
  change (g.members.keys.foldl
    (fun t id => t.insert id ((perMember.get? id).getD ∅)) empty).get? id = _
  rw [get?_foldl_insert fun id => (perMember.get? id).getD ∅]
  simp only [mem_keys_iff, get?_empty]

theorem installTarget_kept {g : GroupState} {perMember : SortedMap String Partitions} {id : String}
    (hmember : g.members.contains id = true) (hid : id ∉ (g.installTarget perMember).2) :
    (g.installTarget perMember).1.targetOf id = g.targetOf id := by
  have hsame : g.target.perMember.get? id = some ((perMember.get? id).getD ∅) := by
    by_contra hne
    exact hid (List.mem_filter.mpr
      ⟨(g.members.mem_keys_iff id).mpr hmember, decide_eq_true hne⟩)
  rw [targetOf, targetOf, get?_installTarget, if_pos hmember, hsame]

/-- What a member update does to the group beside the entry of the member. -/
structure Updates (g : GroupState) (u : MemberUpdate) : Prop where
  regexes : u.group.resolvedRegexes = g.resolvedRegexes.patch u.regexRecords
  epoch_le : g.groupEpoch ≤ u.group.groupEpoch
  hash : u.group.groupEpoch = g.groupEpoch → u.group.metadataHash = g.metadataHash
  target_none : u.target = none → u.group.target = g.target
  target_some : ∀ changed, u.target = some changed →
    u.group.target.epoch = u.group.groupEpoch ∧ 0 ≤ u.group.assignmentTimestampMs ∧
      (∀ id ∈ changed, u.group.members.contains id = true) ∧
      ∀ id, u.group.members.contains id = true → id ∉ changed → u.group.targetOf id = g.targetOf id

/-- The groups differ in the entries of members only. -/
structure SameBesideMembers (g g' : GroupState) : Prop where
  groupEpoch : g'.groupEpoch = g.groupEpoch
  metadataHash : g'.metadataHash = g.metadataHash
  target : g'.target = g.target
  regexes : g'.resolvedRegexes = g.resolvedRegexes
  timestamp : g'.assignmentTimestampMs = g.assignmentTimestampMs
  members : ∀ id, g'.members.contains id = g.members.contains id

theorem reconcileMember_same (g : GroupState) (id : String) (owned : Option Partitions)
    (changed : Bool) (image : MetadataImage) :
    SameBesideMembers g (g.reconcileMember id owned changed image).1 := by
  rcases g.reconcileMember_cases id owned changed image with hsame | ⟨m, r, hm, -, hinstalled⟩
  · rw [hsame]
    exact ⟨rfl, rfl, rfl, rfl, rfl, fun _ => rfl⟩
  · rw [hinstalled]
    refine ⟨rfl, rfl, rfl, rfl, rfl, fun x => ?_⟩
    rw [contains, contains, get?_insert]
    split_ifs with hx
    · rw [hx, hm]
      rfl
    · rfl

theorem maybeUpdateTarget_updates {g : GroupState} {config : Config} {image : MetadataImage}
    {nowMs : Int} {finishedMs : Nat} {r : GroupState × Option (List String)}
    (hr : g.maybeUpdateTarget config image nowMs finishedMs = r) :
    r.1.groupEpoch = g.groupEpoch ∧ r.1.metadataHash = g.metadataHash ∧
      r.1.resolvedRegexes = g.resolvedRegexes ∧ (r.2 = none → r.1.target = g.target) ∧
      ∀ changed, r.2 = some changed → r.1.target.epoch = g.groupEpoch ∧
        0 ≤ r.1.assignmentTimestampMs ∧ (∀ id ∈ changed, g.members.contains id = true) ∧
        ∀ id, g.members.contains id = true → id ∉ changed → r.1.targetOf id = g.targetOf id := by
  unfold maybeUpdateTarget at hr
  have hkept : r = (g, none) ∨ ∃ assignor, r = ({ (g.computeTarget image assignor).1 with
      assignmentTimestampMs := finishedMs }, some (g.computeTarget image assignor).2) := by
    split_ifs at hr
    · exact .inl hr.symm
    · split at hr
      · exact .inl hr.symm
      · exact .inr ⟨_, hr.symm⟩
  rcases hkept with rfl | ⟨assignor, rfl⟩
  · exact ⟨rfl, rfl, rfl, fun _ => rfl, nofun⟩
  · refine ⟨rfl, rfl, rfl, nofun, ?_⟩
    intro changed hchanged
    cases hchanged
    exact ⟨rfl, Int.natCast_nonneg finishedMs,
      fun id hid => (g.members.mem_keys_iff id).mp (List.mem_filter.mp hid).1,
      fun id hmember hid => installTarget_kept hmember hid⟩

theorem updateSubscription_same {g r : GroupState} {image : MetadataImage} {bump : Bool}
    (hr : (g.updateSubscription image bump).1 = r) :
    g.groupEpoch ≤ r.groupEpoch ∧ (r.groupEpoch = g.groupEpoch → r.metadataHash = g.metadataHash) ∧
      r.target = g.target ∧ r.resolvedRegexes = g.resolvedRegexes := by
  subst hr
  unfold updateSubscription
  split_ifs
  · exact ⟨le_rfl, fun _ => rfl, rfl, rfl⟩
  · rcases g.updateSubscriptionMetadata_cases image bump with h | ⟨-, -, h⟩ | ⟨-, h⟩ <;> rw [h]
    · refine ⟨by dsimp only; omega, ?_, rfl, rfl⟩
      intro hepoch
      dsimp only at hepoch
      omega
    · exact ⟨le_rfl, fun _ => rfl, rfl, rfl⟩
    · exact ⟨le_rfl, fun _ => rfl, rfl, rfl⟩

theorem afterMemberUpdate_updates (g : GroupState) (hb : Heartbeat) (change : MemberChange) :
    Updates g (g.afterMemberUpdate hb change) := by
  -- The group after each of the four stages.
  let regex := g.maybeUpdateRegularExpressions change.oldRegex change.newRegex hb.regexes
  let g₁ : GroupState :=
    { regex.1 with
      members := regex.1.members.modify change.memberId (Member.withRegex · change.newRegex) }
  let bump := change.namesChanged || regex.2.1 = .updatedAndResolved
  let g₂ := (g₁.updateSubscription hb.image bump).1
  let g₃ := (g₂.maybeUpdateTarget hb.config hb.image hb.nowMs hb.finishedMs).1
  have hlast : SameBesideMembers g₃ (g.afterMemberUpdate hb change).group :=
    g₃.reconcileMember_same change.memberId change.owned _ hb.image
  have hregexes : SameEpochs g g₁ ∧ g₁.resolvedRegexes = g.resolvedRegexes.patch regex.2.2.2 := by
    obtain ⟨hsame, hpatch⟩ := maybeUpdateRegularExpressions_same (r := regex) rfl
    exact ⟨⟨hsame.groupEpoch, hsame.metadataHash, hsame.target⟩, hpatch⟩
  obtain ⟨hle, hhash, htarget, hregexes₂⟩ := updateSubscription_same (r := g₂) rfl
  obtain ⟨hepoch₃, hhash₃, hregexes₃, hnone₃, hsome₃⟩ := maybeUpdateTarget_updates
    (rfl : g₂.maybeUpdateTarget hb.config hb.image hb.nowMs hb.finishedMs = _)
  have hmembers : ∀ id, (g.afterMemberUpdate hb change).group.members.contains id =
      g₂.members.contains id := by
    intro id
    rw [hlast.members, maybeUpdateTarget_members]
  constructor
  case regexes => rw [hlast.regexes, hregexes₃, hregexes₂, hregexes.2]; rfl
  case epoch_le =>
    rw [hlast.groupEpoch, hepoch₃, ← hregexes.1.groupEpoch]
    exact hle
  case hash =>
    intro hepoch
    rw [hlast.groupEpoch, hepoch₃, ← hregexes.1.groupEpoch] at hepoch
    rw [hlast.metadataHash, hhash₃, hhash hepoch, hregexes.1.metadataHash]
  case target_none =>
    intro hnone
    rw [hlast.target, hnone₃ hnone, htarget, hregexes.1.target]
  case target_some =>
    intro changed hchanged
    obtain ⟨hepoch, htimestamp, hmember, hkept⟩ := hsome₃ changed hchanged
    refine ⟨?_, ?_, ?_, ?_⟩
    · rw [hlast.target, hlast.groupEpoch, hepoch, hepoch₃]
    · rw [hlast.timestamp]
      exact htimestamp
    · intro id hid
      rw [hmembers]
      exact hmember id hid
    · intro id hid hnot
      rw [hmembers] at hid
      rw [targetOf, hlast.target]
      refine (hkept id hid hnot).trans ?_
      rw [targetOf, targetOf, htarget, hregexes.1.target]

end GroupState

/-! ## The transitions are described by their records -/

section Transitions

variable {hb : Heartbeat} {req : HeartbeatRequest} {id : String}

theorem finish_groupMetadata (g g' : GroupState) (ids : List String)
    (target : Option (List String)) (tombstone : Bool)
    (hhash : g'.groupEpoch = g.groupEpoch → g'.metadataHash = g.metadataHash) :
    g'.groupEpoch = (((start g ids).finish g' target tombstone).groupMetadata.map
        GroupMetadataValue.epoch).getD g.groupEpoch ∧
      g'.metadataHash = (((start g ids).finish g' target tombstone).groupMetadata.map
        GroupMetadataValue.metadataHash).getD g.metadataHash := by
  change _ = (Option.map _ (if g'.groupEpoch ≠ g.groupEpoch then _ else none)).getD _ ∧
    _ = (Option.map _ (if g'.groupEpoch ≠ g.groupEpoch then _ else none)).getD _
  by_cases hsame : g'.groupEpoch = g.groupEpoch
  · rw [if_neg (not_not.mpr hsame)]
    exact ⟨hsame, hhash hsame⟩
  · rw [if_pos hsame]
    exact ⟨rfl, rfl⟩

/-- The members whose target a member update writes. -/
def writtenTargets (u : MemberUpdate) (id : String) (replacing : Bool) : Option (List String) :=
  u.target.map fun changed =>
    if replacing ∧ id ∉ changed then (ofList (id :: changed)).elems else changed

def updateRecords (recorder : Recorder) (u : MemberUpdate) (id : String) (replacing : Bool) :
    PendingRecords :=
  { recorder.finish u.group (writtenTargets u id replacing) u.partitionMetadataTombstone with
    resolvedRegexes := u.regexRecords }

theorem memberUpdateRecords_eq (recorder : Recorder) (u : MemberUpdate) (id : String)
    (replacement : Option PendingRecords) :
    memberUpdateRecords recorder u id replacement =
      replacement.toList ++ [updateRecords recorder u id replacement.isSome] := rfl

variable {u : MemberUpdate} {replacing : Bool}

theorem mem_writtenTargets {x : String} :
    x ∈ (writtenTargets u id replacing).getD [] →
      ∃ changed, u.target = some changed ∧ (x = id ∨ x ∈ changed) := by
  intro hx
  unfold writtenTargets at hx
  cases htarget : u.target with
  | none =>
    rw [htarget] at hx
    cases hx
  | some changed =>
    rw [htarget, map_some, getD_some] at hx
    refine ⟨changed, rfl, ?_⟩
    split_ifs at hx
    · rw [mem_elems, mem_ofList, List.mem_cons] at hx
      exact hx
    · exact .inr hx

theorem mem_writtenTargets_of_mem {changed : List String}
    {x : String} (htarget : u.target = some changed) (hx : x ∈ changed) :
    x ∈ (writtenTargets u id replacing).getD [] := by
  unfold writtenTargets
  rw [htarget, map_some, getD_some]
  split_ifs
  · rw [mem_elems, mem_ofList]
    exact List.mem_cons_of_mem id hx
  · exact hx

theorem describes_memberUpdate {g₁ : GroupState} {m' : Member} (hu : Updates g₁ u)
    (hg₁ : SameEpochs g g₁ ∧ g₁.resolvedRegexes = g.resolvedRegexes)
    (hmembers : u.group.members = g.members.insert id m')
    (hnew : g.members.contains id = false → g.targetOf id = ∅) (hepoch : 0 ≤ g.groupEpoch) :
    Describes (updateRecords (start g [id]) u id replacing) g u.group := by
  obtain ⟨⟨hgroupEpoch, hmetadataHash, htarget⟩, hregexes⟩ := hg₁
  have htargetOf : ∀ x, g₁.targetOf x = g.targetOf x := by
    intro x
    rw [targetOf, targetOf, htarget]
  have hmetadata := finish_groupMetadata g u.group [id]
    (writtenTargets u id replacing) u.partitionMetadataTombstone fun hsame => by
      rw [← hgroupEpoch] at hsame
      rw [hu.hash hsame, hmetadataHash]
  have hcontains :
      ∀ x, u.group.members.contains x = true → x = id ∨ g.members.contains x = true := by
    intro x hx
    rw [contains, hmembers, get?_insert] at hx
    split_ifs at hx with hxid
    · exact .inl hxid
    · exact .inr hx
  have hself : u.group.members.contains id = true := by
    rw [hmembers, contains_insert]
    simp
  refine Describes.of_recorder [id] ((writtenTargets u id replacing).getD [])
    (MirrorsRoster.frame_insert hmembers) rfl rfl rfl ?_ ?_ ?_ ?_ hmetadata.1 hmetadata.2 ?_ ?_
  · intro x hx
    obtain ⟨changed, hchanged, rfl | hin⟩ := mem_writtenTargets hx
    · exact hself
    · exact (hu.target_some changed hchanged).2.2.1 x hin
  · intro x hx hnot
    have hkept : u.group.targetOf x = g.targetOf x := by
      cases htargets : u.target with
      | none => rw [targetOf, hu.target_none htargets, ← htargetOf, targetOf]
      | some changed =>
        have hunchanged : x ∉ changed := fun hin => hnot (mem_writtenTargets_of_mem htargets hin)
        rw [(hu.target_some changed htargets).2.2.2 x hx hunchanged, htargetOf]
    rw [hkept]
    by_cases hmember : g.members.contains x = true
    · rw [memberTarget_of_contains hmember]
    · obtain rfl := (hcontains x hx).resolve_right hmember
      rw [memberTarget, targetRecord, if_neg hmember, hnew (Bool.eq_false_iff.mpr hmember)]
      rfl
  · rw [← hregexes]
    exact hu.regexes
  · rw [← hgroupEpoch]
    exact hu.epoch_le
  · change _ = (Option.map _ (Option.map _ (writtenTargets u id replacing))).getD _
    unfold writtenTargets
    cases htargets : u.target with
    | none =>
      rw [hu.target_none htargets, htarget]
      rfl
    | some changed => rfl
  · intro v hv
    change Option.map _ (writtenTargets u id replacing) = _ at hv
    unfold writtenTargets at hv
    cases htargets : u.target with
    | none =>
      rw [htargets] at hv
      cases hv
    | some changed =>
      rw [htargets] at hv
      obtain ⟨hepochs, htimestamp, -⟩ := hu.target_some changed htargets
      cases hv
      have hle := hu.epoch_le
      refine ⟨?_, htimestamp⟩
      dsimp only
      omega

variable {m : Member}

theorem describes_release (hm : g.members.get? id = some m) :
    Describes { currentPerMember := [(id, some (currentAssignmentValue (released m)))] } g
      (g.releaseStaticMember id) := by
  have hget : ∀ x, (g.releaseStaticMember id).members.get? x =
      if x = id then some (released m) else g.members.get? x := by
    intro x
    rw [get?_releaseStaticMember]
    split_ifs with hx
    · rw [hx, hm, map_some]
    · rfl
  constructor
  case members =>
    intro u hu
    cases hu
  case members_frame =>
    intro x _
    rw [metadataRecord, metadataRecord, hget]
    split_ifs with hx
    · rw [hx, hm]
      rfl
    · rfl
  case current =>
    intro u hu
    rw [List.mem_singleton.mp hu, currentRecord, hget, if_pos rfl]
    rfl
  case current_frame =>
    intro x hx
    have hne : x ≠ id := fun heq => hx (List.mem_singleton.mpr heq)
    rw [currentRecord, currentRecord, hget, if_neg hne]
  case target =>
    intro u hu
    cases hu
  case target_frame =>
    intro x _
    have hmember : (g.releaseStaticMember id).members.contains x = g.members.contains x := by
      rw [contains, contains, hget]
      split_ifs with hx
      · rw [hx, hm]
        rfl
      · rfl
    rw [memberTarget, memberTarget, targetRecord, targetRecord, hmember]
    rfl
  case removed =>
    intro x hx
    cases hx
  case current_removed =>
    intro x hx
    cases List.mem_singleton.mp hx
  case regexes => rfl
  case epoch_le => exact le_rfl
  case groupEpoch => rfl
  case metadataHash => rfl
  case targetEpoch => rfl
  case targetMetadata =>
    intro v hv
    cases hv

theorem foldl_removeResolvedRegex (regexes : List String) (g : GroupState) :
    (regexes.foldl removeResolvedRegex g).resolvedRegexes =
      g.resolvedRegexes.patch (regexes.map fun regex => (regex, none)) := by
  induction regexes generalizing g with
  | nil => rfl
  | cons regex regexes ih => exact ih (g.removeResolvedRegex regex)

theorem foldl_sameEpochs {α : Type} {f : GroupState → α → GroupState}
    (hf : ∀ g a, SameEpochs g (f g a)) (as : List α) (g : GroupState) :
    SameEpochs g (as.foldl f g) := by
  induction as generalizing g with
  | nil => exact ⟨rfl, rfl, rfl⟩
  | cons a as ih => exact (hf g a).trans (ih (f g a))

theorem removeMember_sameEpochs (g : GroupState) (id : String) :
    SameEpochs g (g.removeMember id) ∧
      (g.removeMember id).resolvedRegexes = g.resolvedRegexes := by
  unfold removeMember
  cases g.members.get? id with
  | none | some m => exact ⟨⟨rfl, rfl, rfl⟩, rfl⟩

theorem foldl_removeMember_regexes (ids : List String) (g : GroupState) :
    (ids.foldl removeMember g).resolvedRegexes = g.resolvedRegexes := by
  induction ids generalizing g with
  | nil => rfl
  | cons id ids ih => exact (ih _).trans (removeMember_sameEpochs g id).2

theorem bumpWithMetadataHash_same (g : GroupState) (image : MetadataImage) :
    ((g.bumpWithMetadataHash image).groupEpoch = g.groupEpoch →
        (g.bumpWithMetadataHash image).metadataHash = g.metadataHash) ∧
      g.groupEpoch ≤ (g.bumpWithMetadataHash image).groupEpoch ∧
      (g.bumpWithMetadataHash image).target = g.target ∧
      (g.bumpWithMetadataHash image).resolvedRegexes = g.resolvedRegexes := by
  unfold bumpWithMetadataHash bumpEpoch
  split_ifs with hlt
  · refine ⟨?_, ?_, rfl, rfl⟩
    · intro hsame
      dsimp only [setMetadataHash] at hsame
      omega
    · dsimp only [setMetadataHash]
      omega
  · exact ⟨fun _ => rfl, le_rfl, rfl, rfl⟩

theorem pruned_same (g : GroupState) (ids : List String) :
    SameEpochs g (ids.foldl removeMember g).deleteUnsubscribedRegexes.1 ∧
      (ids.foldl removeMember g).deleteUnsubscribedRegexes.1.resolvedRegexes =
        g.resolvedRegexes.patch (ids.foldl removeMember g).deleteUnsubscribedRegexes.2 := by
  have hremoved := foldl_sameEpochs (fun g id => (removeMember_sameEpochs g id).1) ids g
  have hpruned := foldl_sameEpochs (f := removeResolvedRegex) (fun _ _ => ⟨rfl, rfl, rfl⟩)
    (ids.foldl removeMember g).unsubscribedResolvedRegexes (ids.foldl removeMember g)
  refine ⟨hremoved.trans hpruned, ?_⟩
  rw [← foldl_removeMember_regexes ids g]
  exact foldl_removeResolvedRegex _ _

theorem Describes.of_members_eq (hmembers : g'.members = g.members) (htarget : g'.target = g.target)
    (hmetadata : p.memberMetadata = []) (hcurrent : p.currentPerMember = [])
    (htargets : p.targetPerMember = []) (htargetMetadata : p.targetMetadata = none)
    (hregexes : g'.resolvedRegexes = g.resolvedRegexes.patch p.resolvedRegexes)
    (hle : g.groupEpoch ≤ g'.groupEpoch)
    (hepoch : g'.groupEpoch = (p.groupMetadata.map GroupMetadataValue.epoch).getD g.groupEpoch)
    (hhash : g'.metadataHash =
      (p.groupMetadata.map GroupMetadataValue.metadataHash).getD g.metadataHash) :
    Describes p g g' := by
  refine Describes.of_recorder [] [] (fun x _ => by rw [hmembers]) hmetadata hcurrent htargets ?_ ?_
    hregexes hle hepoch hhash ?_ ?_
  · intro x hx
    cases hx
  · intro x hx _
    rw [hmembers] at hx
    rw [memberTarget_of_contains hx, targetOf, targetOf, htarget]
  · rw [htargetMetadata, htarget]
    rfl
  · intro v hv
    rw [htargetMetadata] at hv
    cases hv

theorem describes_fenceMembers (g : GroupState) (image : MetadataImage) (ids : List String) :
    Describes (g.fenceMembers image ids).2 g (g.fenceMembers image ids).1 := by
  by_cases hids : ids = []
  · have hnone : g.fenceMembers image ids = (g, {}) := if_pos hids
    rw [hnone]
    exact Describes.of_members_eq rfl rfl rfl rfl rfl rfl rfl le_rfl rfl rfl
  have hmembers : ∀ x, (g.fenceMembers image ids).1.members.get? x =
      if x ∈ ids then none else g.members.get? x := by
    intro x
    rw [fenceMembers_members, get?_foldl_erase]
  let pruned := (ids.foldl removeMember g).deleteUnsubscribedRegexes
  have hfenced : g.fenceMembers image ids = (pruned.1.bumpWithMetadataHash image,
      { (start g ids).finish (pruned.1.bumpWithMetadataHash image) none false with
        resolvedRegexes := pruned.2 }) := if_neg hids
  obtain ⟨hsame, hregexes⟩ := pruned_same g ids
  obtain ⟨hhash, hle, htarget, hbumped⟩ := bumpWithMetadataHash_same pruned.1 image
  rw [hfenced] at hmembers ⊢
  have hmetadata := finish_groupMetadata g (pruned.1.bumpWithMetadataHash image) ids none false
    fun hepoch => (hhash (hepoch.trans hsame.groupEpoch.symm)).trans hsame.metadataHash
  refine Describes.of_recorder ids [] ?_ rfl rfl rfl ?_ ?_ ?_ ?_ hmetadata.1 hmetadata.2 ?_ ?_
  · intro x hx
    rw [hmembers, if_neg hx]
  · intro x hx
    cases hx
  · -- A member that is left was a member before, with the same target.
    intro x hx _
    rw [contains, hmembers] at hx
    split_ifs at hx
    · cases hx
    · rw [memberTarget_of_contains hx]
      dsimp only [targetOf]
      rw [htarget, hsame.target]
  · exact hbumped.trans hregexes
  · rw [← hsame.groupEpoch]
    exact hle
  · change (pruned.1.bumpWithMetadataHash image).target.epoch = g.target.epoch
    rw [htarget, hsame.target]
  · intro v hv
    cases hv

theorem foldl_applyResolution (es : List (String × ResolvedRegularExpression))
    (acc : GroupState × Bool × List (String × Option ResolvedRegularExpression)) :
    SameEpochs acc.1 (es.foldl applyResolution acc).1 ∧
      ∃ written, (es.foldl applyResolution acc).2.2 = acc.2.2 ++ written ∧
        (es.foldl applyResolution acc).1.resolvedRegexes = acc.1.resolvedRegexes.patch written := by
  induction es generalizing acc with
  | nil => exact ⟨⟨rfl, rfl, rfl⟩, [], (List.append_nil _).symm, rfl⟩
  | cons e es ih =>
    rw [List.foldl_cons]
    unfold applyResolution
    split_ifs
    · exact ih acc
    · obtain ⟨hsame, written, hrecords, hregexes⟩ :=
        ih (acc.1.setResolvedRegex e.1 e.2, _, acc.2.2 ++ [(e.1, some e.2)])
      refine ⟨⟨hsame.groupEpoch, hsame.metadataHash, hsame.target⟩, (e.1, some e.2) :: written,
        hrecords.trans (List.append_assoc ..), hregexes⟩

theorem describes_applyRegexResult (g : GroupState) (resolved : Resolutions)
    (image : MetadataImage) :
    Describes (g.applyRegexResult resolved image).2 g (g.applyRegexResult resolved image).1 := by
  have hmembers := g.applyRegexResult_members resolved image
  obtain ⟨hsame, written, hrecords, hregexes⟩ :=
    foldl_applyResolution resolved.entries (g, false, [])
  rw [List.nil_append] at hrecords
  rw [← hrecords] at hregexes
  unfold applyRegexResult bumpEpoch at hmembers ⊢
  dsimp only at hmembers ⊢
  split_ifs at hmembers ⊢ with hmoved hlt
  · refine Describes.of_members_eq hmembers hsame.target rfl rfl rfl rfl hregexes ?_ rfl rfl
    have hepoch := hsame.groupEpoch
    dsimp only [recordMetadataHash] at hepoch ⊢
    omega
  · exact Describes.of_members_eq hmembers hsame.target rfl rfl rfl rfl hregexes hsame.groupEpoch.ge
      hsame.groupEpoch hsame.metadataHash
  · exact Describes.of_members_eq hmembers hsame.target rfl rfl rfl rfl hregexes hsame.groupEpoch.ge
      hsame.groupEpoch hsame.metadataHash

theorem bindInstance_same (g : GroupState) (instanceId : Option String) (id : String) :
    SameEpochs g (g.bindInstance instanceId id) ∧
      (g.bindInstance instanceId id).resolvedRegexes = g.resolvedRegexes := by
  cases instanceId <;> exact ⟨⟨rfl, rfl, rfl⟩, rfl⟩

theorem moveTarget_same (g : GroupState) (previous id : String) :
    (g.moveTarget previous id).groupEpoch = g.groupEpoch ∧
      (g.moveTarget previous id).metadataHash = g.metadataHash ∧
      (g.moveTarget previous id).target.epoch = g.target.epoch ∧
      (g.moveTarget previous id).resolvedRegexes = g.resolvedRegexes ∧
      ∀ x, x ≠ id → x ≠ previous → (g.moveTarget previous id).targetOf x = g.targetOf x := by
  unfold moveTarget
  cases g.target.perMember.get? previous with
  | none => exact ⟨rfl, rfl, rfl, rfl, fun _ _ _ => rfl⟩
  | some target =>
    refine ⟨rfl, rfl, rfl, rfl, fun x hid hprevious => ?_⟩
    simp only [targetOf, get?_insert, get?_erase, if_neg hid, if_neg hprevious]

theorem replaceStaticMember_same (g : GroupState) (previous id : String) :
    (g.replaceStaticMember previous id).groupEpoch = g.groupEpoch ∧
      (g.replaceStaticMember previous id).metadataHash = g.metadataHash ∧
      (g.replaceStaticMember previous id).target.epoch = g.target.epoch ∧
      (g.replaceStaticMember previous id).resolvedRegexes = g.resolvedRegexes ∧
      ∀ x, x ≠ id → x ≠ previous →
        (g.replaceStaticMember previous id).targetOf x = g.targetOf x := by
  unfold replaceStaticMember
  cases g.members.get? previous with
  | none => exact ⟨rfl, rfl, rfl, rfl, fun _ _ _ => rfl⟩
  | some m =>
    let g₁ : GroupState := { g with members := g.members.erase previous }
    let g₂ := if id ≠ previous then g₁.removeMember id else g₁
    have hremoved : SameEpochs g g₂ ∧ g₂.resolvedRegexes = g.resolvedRegexes := by
      by_cases hne : id ≠ previous
      · have hg₂ : g₂ = g₁.removeMember id := if_pos hne
        rw [hg₂]
        exact ⟨⟨(removeMember_sameEpochs g₁ id).1.groupEpoch,
          (removeMember_sameEpochs g₁ id).1.metadataHash, (removeMember_sameEpochs g₁ id).1.target⟩,
          (removeMember_sameEpochs g₁ id).2⟩
      · have hg₂ : g₂ = g₁ := if_neg hne
        rw [hg₂]
        exact ⟨⟨rfl, rfl, rfl⟩, rfl⟩
    obtain ⟨hbound, hboundRegexes⟩ := bindInstance_same g₂ m.instanceId id
    obtain ⟨hepoch, hhash, htargetEpoch, hregexes, htarget⟩ :=
      moveTarget_same (g₂.bindInstance m.instanceId id) previous id
    refine ⟨?_, ?_, ?_, ?_, ?_⟩
    · exact hepoch.trans (hbound.groupEpoch.trans hremoved.1.groupEpoch)
    · exact hhash.trans (hbound.metadataHash.trans hremoved.1.metadataHash)
    · exact htargetEpoch.trans (congrArg TargetAssignment.epoch
        (hbound.target.trans hremoved.1.target))
    · exact hregexes.trans (hboundRegexes.trans hremoved.2)
    · intro x hid hprevious
      refine (htarget x hid hprevious).trans ?_
      rw [targetOf, targetOf, hbound.target, hremoved.1.target]

theorem describes_replacement {previous : String} (hm : g.members.get? previous = some m) :
    Describes (g.replacementRecords (g.replaceStaticMember previous id) previous id) g
      (g.replaceStaticMember previous id) := by
  obtain ⟨hepoch, hhash, htargetEpoch, hregexes, htarget⟩ :=
    replaceStaticMember_same g previous id
  have hget : ∀ x, (g.replaceStaticMember previous id).members.get? x =
      if x = id then some (takenOver m id) else if x = previous then none else g.members.get? x :=
    get?_replaceStaticMember hm
  have hmetadata := finish_groupMetadata g (g.replaceStaticMember previous id) [previous, id] none
    false fun _ => hhash
  refine Describes.of_recorder [previous, id] [id] ?_ rfl rfl ?_ ?_ ?_ hregexes hepoch.ge
    hmetadata.1 hmetadata.2 htargetEpoch ?_
  · intro x hx
    rw [List.mem_cons, List.mem_singleton, not_or] at hx
    rw [hget, if_neg hx.2, if_neg hx.1]
  · change (_ ++ []) ++ _ = _ ++ _
    rw [List.append_nil]
    rfl
  · intro x hx
    rw [List.mem_singleton.mp hx, contains, hget, if_pos rfl]
    rfl
  · intro x hx hne
    have hid : x ≠ id := fun heq => hne (List.mem_singleton.mpr heq)
    rw [contains, hget, if_neg hid] at hx
    split_ifs at hx with hprevious
    · cases hx
    · rw [htarget x hid hprevious, memberTarget_of_contains hx]
  · intro v hv
    cases hv

theorem describes_updateMemberState
    (hm : g.members.get? id = some m) (hu : g.updateMemberState hb req id = .ok u)
    (hepoch : 0 ≤ g.groupEpoch) :
    Describes (updateRecords (start g [id]) u id replacing) g u.group := by
  obtain ⟨m', hmembers⟩ := updateMemberState_members hm hu
  have hmember : g.members.contains id = true := isSome_iff_exists.mpr ⟨m, hm⟩
  have hupdates : Updates (g.withFields hb req id m) u := by
    rw [updateMemberState_ok hm hu]
    exact afterMemberUpdate_updates _ hb _
  exact describes_memberUpdate hupdates ⟨⟨rfl, rfl, rfl⟩, rfl⟩ hmembers
    (fun hnone => absurd (hnone.symm.trans hmember) Bool.false_ne_true) hepoch

/-- Records that follow each other, from group to group. -/
inductive DescribesAll : List PendingRecords → GroupState → GroupState → Prop
  | nil (same : GroupState) : DescribesAll [] same same
  | cons {first : PendingRecords} {rest : List PendingRecords} {before between after : GroupState}
      (hfirst : Describes first before between) (hrest : DescribesAll rest between after) :
    DescribesAll (first :: rest) before after

theorem Describes.all (h : Describes p g g') : DescribesAll [p] g g' := .cons h (.nil g')

/-- The records of an accepted heartbeat describe it, if a member that joins has
no target from before. -/
theorem describesAll_heartbeat {pending : List PendingRecords}
    (ht : HeartbeatTransition g hb req g' pending)
    (hnew : g.resolveMember req (firstJoinMemberId hb req.memberId) = .ok .new →
      g.targetOf (firstJoinMemberId hb req.memberId) = ∅)
    (hepoch : 0 ≤ g.groupEpoch) : DescribesAll pending g g' := by
  cases ht with
  | release hm => exact (describes_release hm).all
  | leave hm => exact (describes_fenceMembers g hb.image [req.memberId]).all
  | @join x hx hnone hresolved =>
    obtain ⟨m', hmembers⟩ := g.joinUpdate_members hb req x
    obtain ⟨hsame, hregexes⟩ := bindInstance_same g req.instanceId x
    have hu : Updates (g.withJoined hb req x) (g.joinUpdate hb req x) :=
      afterMemberUpdate_updates _ hb _
    have hjoined : SameEpochs g (g.withJoined hb req x) :=
      ⟨hsame.groupEpoch, hsame.metadataHash, hsame.target⟩
    rw [← hx] at hnew
    rw [memberUpdateRecords_eq]
    exact (describes_memberUpdate hu ⟨hjoined, hregexes⟩ hmembers
      (fun _ => hnew hresolved) hepoch).all
  | @steady x m update hx hm hupdate hresolved =>
    rw [memberUpdateRecords_eq]
    exact (describes_updateMemberState hm hupdate hepoch).all
  | @replace previous x m update hx hresolved hm hreleased hupdate =>
    have hget : (g.replaceStaticMember previous x).members.get? x = some (takenOver m x) := by
      rw [get?_replaceStaticMember hm, if_pos rfl]
    have hsame := (replaceStaticMember_same g previous x).1
    rw [memberUpdateRecords_eq]
    refine .cons (describes_replacement hm) (describes_updateMemberState hget hupdate ?_).all
    rw [hsame]
    exact hepoch

end Transitions

end Krabka.ConsumerGroup

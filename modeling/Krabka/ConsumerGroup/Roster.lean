import Krabka.ConsumerGroup.Heartbeat
import Krabka.Lib.Leases

/-!
# The members along the transitions

`SoundRoster` is what every transition keeps of the members: each is under its
own id, its two partition sets are disjoint, exactly what it holds is stamped
with an epoch, and no partition is with two members.  Holding partitions is
holding leases: the members are the holders of `Leases.Exclusive`.

A heartbeat rebuilds the entry of its own member only, from what it held and
what nobody else holds (`soundRoster_rebuilt`), and the member update around
the rebuild changes the subscription only (`soundRoster_afterMemberUpdate`).
-/

namespace Krabka.ConsumerGroup

open Leases SortedMap

abbrev Roster := SortedMap String Member

def holding (members : Roster) (id : String) : Set TopicIdPartition :=
  {tp | ∃ m, members.get? id = some m ∧ tp ∈ m.held}

/-- What holds of one member under the id `id`. -/
structure Member.WellFormed (m : Member) (id : String) : Prop where
  id_eq : m.memberId = id
  id_ne : id ≠ ""
  regex_ne : m.subscribedTopicRegex ≠ some ""
  disjoint : ∀ tp ∈ m.assignedPartitions, tp ∉ m.partitionsPendingRevocation
  stamped : ∀ tp, (m.assignmentEpochs.get? tp).isSome ↔ tp ∈ m.held
  idle : m.assignmentState = .stable → m.partitionsPendingRevocation = ∅

structure SoundRoster (members : Roster) : Prop where
  wellFormed : ∀ id m, members.get? id = some m → m.WellFormed id
  exclusive : Exclusive (holding members)

/-! ## Members -/

namespace Member

variable {m m' : Member} {id : String}

theorem stamped_stampAssignmentEpochs (m : Member) (epoch : Int) (tp : TopicIdPartition) :
    ((m.stampAssignmentEpochs epoch).assignmentEpochs.get? tp).isSome ↔ tp ∈ m.held := by
  have hget : (m.stampAssignmentEpochs epoch).assignmentEpochs.get? tp =
      if tp ∈ m.held then some ((m.assignmentEpochs.get? tp).getD epoch) else none :=
    SortedSet.get?_toMap _ _ tp
  rw [hget]
  by_cases htp : tp ∈ m.held <;> simp [htp]

theorem WellFormed.congr (h : m.WellFormed id) (hid : m'.memberId = m.memberId)
    (hregex : m'.subscribedTopicRegex ≠ some "")
    (hassigned : m'.assignedPartitions = m.assignedPartitions)
    (hpending : m'.partitionsPendingRevocation = m.partitionsPendingRevocation)
    (hepochs : m'.assignmentEpochs = m.assignmentEpochs)
    (hstate : m'.assignmentState = m.assignmentState) : m'.WellFormed id where
  id_eq := hid.trans h.id_eq
  id_ne := h.id_ne
  regex_ne := hregex
  disjoint := by
    rw [hassigned, hpending]
    exact h.disjoint
  stamped := by
    intro tp
    rw [hepochs, held, hassigned, hpending]
    exact h.stamped tp
  idle := by
    rw [hstate, hpending]
    exact h.idle

theorem WellFormed.install {r : Rebuilt} {g : GroupState} (h : m.WellFormed id)
    (hfits : r.Fits g m) : (m.install r).WellFormed id where
  id_eq := h.id_eq
  id_ne := h.id_ne
  regex_ne := h.regex_ne
  disjoint := hfits.disjoint
  stamped := stamped_stampAssignmentEpochs _ r.epoch
  idle := hfits.idle

theorem WellFormed.released (h : m.WellFormed id) : (GroupState.released m).WellFormed id where
  id_eq := h.id_eq
  id_ne := h.id_ne
  regex_ne := h.regex_ne
  disjoint := fun tp _ => SortedSet.notMem_empty tp
  stamped := stamped_stampAssignmentEpochs _ 0
  idle _ := rfl

theorem held_released (m : Member) (tp : TopicIdPartition) :
    tp ∈ (GroupState.released m).held ↔ tp ∈ m.assignedPartitions := by
  have hheld : tp ∈ (GroupState.released m).held ↔
      tp ∈ m.assignedPartitions ∨ tp ∈ (∅ : Partitions) :=
    mem_held
  simpa using hheld

theorem WellFormed.takenOver (h : m.WellFormed id) {id' : String} (hne : id' ≠ "") :
    (GroupState.takenOver m id').WellFormed id' where
  id_eq := rfl
  id_ne := hne
  regex_ne := h.regex_ne
  disjoint := h.disjoint
  stamped := h.stamped
  idle := h.idle

theorem wellFormed_of_fresh (hid : m.memberId = id) (hne : id ≠ "")
    (hregex : m.subscribedTopicRegex ≠ some "") (hassigned : m.assignedPartitions = ∅)
    (hpending : m.partitionsPendingRevocation = ∅)
    (hepochs : m.assignmentEpochs = SortedMap.empty) : m.WellFormed id where
  id_eq := hid
  id_ne := hne
  regex_ne := hregex
  disjoint := by
    rw [hassigned]
    exact fun tp htp => absurd htp (SortedSet.notMem_empty tp)
  stamped := by
    intro tp
    simp [hepochs, hassigned, hpending]
  idle _ := hpending

end Member

/-! ## Rosters -/

namespace SoundRoster

variable {members : Roster} {id : String} {m : Member}

theorem holding_insert (members : Roster) (id : String) (m : Member) :
    holding (members.insert id m) = Function.update (holding members) id {tp | tp ∈ m.held} := by
  funext x
  ext tp
  by_cases hx : x = id
  · subst hx
    simp [holding]
  · simp [holding, hx]

theorem holding_erase (members : Roster) (id : String) :
    holding (members.erase id) = Function.update (holding members) id ∅ := by
  funext x
  ext tp
  by_cases hx : x = id
  · subst hx
    simp [holding]
  · simp [holding, hx]

theorem empty : SoundRoster SortedMap.empty where
  wellFormed := by
    intro id m hm
    cases hm
  exclusive := by
    intro i j _
    exact Set.disjoint_left.mpr fun tp htp => by
      obtain ⟨m, hm, -⟩ := htp
      cases hm

theorem insert (h : SoundRoster members) (hm : m.WellFormed id)
    (hfree : ∀ x o, x ≠ id → members.get? x = some o → ∀ tp ∈ m.held, tp ∉ o.held) :
    SoundRoster (members.insert id m) where
  wellFormed := by
    intro x o ho
    rw [get?_insert] at ho
    split_ifs at ho with hx
    · subst hx
      exact Option.some.inj ho ▸ hm
    · exact h.wellFormed x o ho
  exclusive := by
    rw [holding_insert]
    refine h.exclusive.take fun x hx => ?_
    refine Set.disjoint_left.mpr fun tp htp hother => ?_
    obtain ⟨o, ho, hheld⟩ := hother
    exact hfree x o hx ho tp htp hheld

theorem insert_of_subset (h : SoundRoster members) {before : Member}
    (hbefore : members.get? id = some before) (hm : m.WellFormed id)
    (hsub : ∀ tp ∈ m.held, tp ∈ before.held) : SoundRoster (members.insert id m) :=
  h.insert hm fun _ o hx ho tp htp hother =>
    hx (h.exclusive.eq ⟨o, ho, hother⟩ ⟨before, hbefore, hsub tp htp⟩)

theorem erase (h : SoundRoster members) (id : String) : SoundRoster (members.erase id) where
  wellFormed := by
    intro x o ho
    rw [get?_erase] at ho
    split_ifs at ho
    exact h.wellFormed x o ho
  exclusive := by
    rw [holding_erase]
    exact h.exclusive.take fun _ _ => Set.empty_disjoint _

theorem replace (h : SoundRoster members) {previous : String} {before : Member}
    (hbefore : members.get? previous = some before) (hm : m.WellFormed id)
    (hsub : ∀ tp ∈ m.held, tp ∈ before.held) :
    SoundRoster ((members.erase previous).insert id m) where
  wellFormed := by
    intro x o ho
    rw [get?_insert, get?_erase] at ho
    split_ifs at ho with hx hprevious
    · subst hx
      exact Option.some.inj ho ▸ hm
    · exact h.wellFormed x o ho
  exclusive := by
    rw [holding_insert, holding_erase]
    exact h.exclusive.transfer fun tp htp => ⟨before, hbefore, hsub tp htp⟩

theorem mem_values_iff (h : SoundRoster members) {o : Member} :
    o ∈ members.values ↔ members.get? o.memberId = some o := by
  constructor
  · intro ho
    obtain ⟨e, he, rfl⟩ := List.mem_map.mp ho
    have hget := members.get?_of_mem he
    rw [(h.wellFormed _ _ hget).id_eq]
    exact hget
  · intro ho
    exact List.mem_map.mpr ⟨_, members.mem_of_get? ho, rfl⟩

end SoundRoster

/-! ## The steps of a heartbeat -/

namespace GroupState

variable {g : GroupState} {hb : Heartbeat} {image : MetadataImage}

theorem reconcileMember_cases (g : GroupState) (id : String) (owned : Option Partitions)
    (changed : Bool) (image : MetadataImage) :
    (g.reconcileMember id owned changed image).1 = g ∨
      ∃ m r, g.members.get? id = some m ∧ g.rebuild m image owned changed = some r ∧
        (g.reconcileMember id owned changed image).1 =
          { g with members := g.members.insert id (m.install r) } := by
  unfold reconcileMember
  cases hm : g.members.get? id with
  | none => exact .inl rfl
  | some m =>
    dsimp only
    cases hr : g.rebuild m image owned changed with
    | none => exact .inl rfl
    | some r => exact .inr ⟨m, r, rfl, hr, rfl⟩

variable {id : String} {m : Member}

theorem soundRoster_rebuilt (h : SoundRoster g.members) {owned : Option Partitions} {changed : Bool}
    {r : Rebuilt}
    (hm : g.members.get? id = some m) (hr : g.rebuild m image owned changed = some r) :
    SoundRoster (g.members.insert id (m.install r)) := by
  have hwf := h.wellFormed id m hm
  have hfits := rebuild_fits hwf.disjoint hwf.idle hr
  refine h.insert (hwf.install hfits) fun x o hx ho tp htp hother => ?_
  -- What the member keeps it held before, and what it is granted is free.
  have hheld : tp ∈ r.assigned ∨ tp ∈ r.pending := Member.mem_held.mp htp
  have hmine : tp ∈ m.held → x = id := fun hin => h.exclusive.eq ⟨o, ho, hother⟩ ⟨m, hm, hin⟩
  rcases hheld with hassigned | hpending
  · rcases hfits.assigned_of tp hassigned with hkept | hgranted
    · exact hx (hmine (Member.mem_held.mpr (.inl hkept)))
    · have hox : o.memberId = x := (h.wellFormed x o ho).id_eq
      have hvalue : o ∈ g.members.values := h.mem_values_iff.mpr (by rw [hox, ho])
      have hpending :=
        hfits.granted_free tp hgranted o hvalue (by rw [hox, hwf.id_eq]; exact hx) hother
      exact hx (hmine (Member.mem_held.mpr (.inr hpending)))
  · exact hx (hmine (hfits.pending_of tp hpending))

@[simp] theorem dropOldRegex_members (g : GroupState) (oldRegex : Option String) :
    (g.dropOldRegex oldRegex).1.members = g.members := by
  unfold dropOldRegex
  cases oldRegex with
  | none => rfl
  | some old =>
    dsimp only
    split_ifs <;> rfl

@[simp] theorem maybeUpdateRegularExpressions_members (g : GroupState)
    (oldRegex newRegex : Option String) (regexes : RegexResolution) :
    (g.maybeUpdateRegularExpressions oldRegex newRegex regexes).1.members = g.members := by
  unfold maybeUpdateRegularExpressions
  dsimp only
  split_ifs <;> simp

/-- The group of a heartbeat before the member is reconciled. -/
def beforeReconcile (g : GroupState) (hb : Heartbeat) (change : MemberChange) : GroupState :=
  let regex := g.maybeUpdateRegularExpressions change.oldRegex change.newRegex hb.regexes
  let withRegex :=
    { regex.1 with
      members := regex.1.members.modify change.memberId (Member.withRegex · change.newRegex) }
  let bump := change.namesChanged || regex.2.1 = .updatedAndResolved
  ((withRegex.updateSubscription hb.image bump).1.maybeUpdateTarget hb.config hb.image hb.nowMs
    hb.finishedMs).1

def subscriptionChanged (g : GroupState) (hb : Heartbeat) (change : MemberChange) : Bool :=
  change.namesChanged ||
    (g.maybeUpdateRegularExpressions change.oldRegex change.newRegex
      hb.regexes).2.1.regexUpdated

@[simp] theorem beforeReconcile_members (g : GroupState) (hb : Heartbeat) (change : MemberChange) :
    (g.beforeReconcile hb change).members =
      g.members.modify change.memberId (Member.withRegex · change.newRegex) := by
  simp [beforeReconcile]

theorem afterMemberUpdate_members (g : GroupState) (hb : Heartbeat) {change : MemberChange}
    (hm : g.members.get? change.memberId = some m) :
    (g.afterMemberUpdate hb change).group.members =
        g.members.insert change.memberId (m.withRegex change.newRegex) ∨
      ∃ r, (g.beforeReconcile hb change).rebuild (m.withRegex change.newRegex) hb.image
          change.owned (g.subscriptionChanged hb change) = some r ∧
        (g.afterMemberUpdate hb change).group.members =
          g.members.insert change.memberId ((m.withRegex change.newRegex).install r) := by
  have hmembers : (g.beforeReconcile hb change).members =
      g.members.insert change.memberId (m.withRegex change.newRegex) := by
    rw [beforeReconcile_members, modify_of_get? hm]
  rcases (g.beforeReconcile hb change).reconcileMember_cases change.memberId change.owned
      (g.subscriptionChanged hb change) hb.image with hsame | ⟨m', r, hm', hr, hinstalled⟩
  · exact .inl ((congrArg members hsame).trans hmembers)
  · right
    have heq : m' = m.withRegex change.newRegex := by
      rw [hmembers, get?_insert, if_pos rfl] at hm'
      exact (Option.some.inj hm').symm
    subst heq
    refine ⟨r, hr, (congrArg members hinstalled).trans ?_⟩
    rw [hmembers, insert_insert]

theorem soundRoster_afterMemberUpdate (h : SoundRoster g.members) {change : MemberChange}
    (hm : g.members.get? change.memberId = some m)
    (hregex : change.newRegex ≠ some "") :
    SoundRoster (g.afterMemberUpdate hb change).group.members := by
  have hwf := h.wellFormed _ m hm
  have hbefore : SoundRoster (g.members.insert change.memberId (m.withRegex change.newRegex)) :=
    h.insert_of_subset hm (hwf.congr rfl hregex rfl rfl rfl rfl) fun tp htp => htp
  rcases g.afterMemberUpdate_members hb hm with hsame | ⟨r, hr, hinstalled⟩
  · rw [hsame]
    exact hbefore
  · have hmembers : (g.beforeReconcile hb change).members =
        g.members.insert change.memberId (m.withRegex change.newRegex) := by
      rw [beforeReconcile_members, modify_of_get? hm]
    rw [hinstalled]
    rw [← hmembers] at hbefore
    have hget : (g.beforeReconcile hb change).members.get? change.memberId =
        some (m.withRegex change.newRegex) := by
      rw [hmembers, get?_insert, if_pos rfl]
    have hrebuilt := soundRoster_rebuilt hbefore hget hr
    rw [hmembers, insert_insert] at hrebuilt
    exact hrebuilt

/-- The pattern that a heartbeat leaves the member with. -/
def newRegexOf (req : HeartbeatRequest) (m : Member) : Option String :=
  match req.subscribedTopicRegex with
  | some pattern => nonEmptyRegex pattern
  | none => m.subscribedTopicRegex

/-- The member update that a heartbeat of the member `m` makes. -/
def changeOf (hb : Heartbeat) (req : HeartbeatRequest) (id : String) (m : Member) :
    MemberChange where
  memberId := id
  oldRegex := m.subscribedTopicRegex
  newRegex := newRegexOf req m
  namesChanged := (m.updateFields hb req).subscribedTopicNames ≠ m.subscribedTopicNames
  owned := reportedOwned req

/-- The group with the fields of the member updated. -/
def withFields (g : GroupState) (hb : Heartbeat) (req : HeartbeatRequest) (id : String)
    (m : Member) : GroupState :=
  { g with members := g.members.insert id (m.updateFields hb req) }

theorem get?_withFields_self (g : GroupState) (hb : Heartbeat) (req : HeartbeatRequest)
    (id : String) (m : Member) :
    (g.withFields hb req id m).members.get? (changeOf hb req id m).memberId =
      some (m.updateFields hb req) := by
  simp [withFields, changeOf]

theorem soundRoster_withFields (hg : SoundRoster g.members) (hb : Heartbeat)
    (req : HeartbeatRequest) (hm : g.members.get? id = some m) :
    SoundRoster (g.withFields hb req id m).members := by
  have hwf := hg.wellFormed id m hm
  exact hg.insert_of_subset hm (hwf.congr rfl hwf.regex_ne rfl rfl rfl rfl) fun tp htp => htp

variable {req : HeartbeatRequest} {update : MemberUpdate}

theorem updateMemberState_ok (hm : g.members.get? id = some m)
    (h : g.updateMemberState hb req id = .ok update) :
    update = (g.withFields hb req id m).afterMemberUpdate hb (changeOf hb req id m) := by
  unfold updateMemberState at h
  rw [hm] at h
  dsimp only [Option.bind_some, Option.any_some] at h
  split at h
  · cases h
  · rw [modify_of_get? hm] at h
    exact (Except.ok.inj h).symm

theorem newRegexOf_ne (h : m.subscribedTopicRegex ≠ some "") : newRegexOf req m ≠ some "" := by
  unfold newRegexOf nonEmptyRegex
  cases req.subscribedTopicRegex with
  | none => exact h
  | some pattern =>
    dsimp only
    split_ifs with hempty
    · exact Option.some_ne_none _ |>.symm
    · simpa using hempty

theorem updateMemberState_members (hm : g.members.get? id = some m)
    (h : g.updateMemberState hb req id = .ok update) :
    ∃ m', update.group.members = g.members.insert id m' := by
  rw [updateMemberState_ok hm h]
  rcases (g.withFields hb req id m).afterMemberUpdate_members hb
      (g.get?_withFields_self hb req id m) with
    hsame | ⟨r, -, hinstalled⟩
  · exact ⟨_, hsame.trans (insert_insert ..)⟩
  · exact ⟨_, hinstalled.trans (insert_insert ..)⟩

theorem soundRoster_updateMemberState (hg : SoundRoster g.members) (hm : g.members.get? id = some m)
    (h : g.updateMemberState hb req id = .ok update) : SoundRoster update.group.members := by
  rw [updateMemberState_ok hm h]
  exact soundRoster_afterMemberUpdate (soundRoster_withFields hg hb req hm)
    (g.get?_withFields_self hb req id m) (newRegexOf_ne (hg.wellFormed id m hm).regex_ne)

end GroupState

end Krabka.ConsumerGroup

import Krabka.ConsumerGroup.Ownership

/-!
# Reconciliation converges

With a fixed target and fixed metadata, a member passes three stages: what is
assigned to it is in its target (`Trimmed`), it has nothing to revoke either
(`Current`), and it has its whole target (`Settled`).  A call of
`reconcile_member` takes its member to the next stage, to the last one when all
members are at the second, so that three rounds of calls settle the group.

A call leaves a member alone that is stable at the target epoch, so the group
settles only if such a member has its target already.
-/

namespace Krabka.ConsumerGroup

open SortedSet SortedMap

/-! ## Stages -/

/-- What the members are reconciled to: the target epoch, and for each member
its target without the topics that do not exist or that it does not subscribe
to. -/
structure Plan where
  epoch : Int
  goal : Member → Partitions

namespace Plan

variable (p : Plan) (m : Member)

/-- A call does nothing for the member. -/
def Reconciled : Prop := m.assignmentState = .stable ∧ m.memberEpoch = p.epoch

def Settled : Prop :=
  p.Reconciled m ∧ m.partitionsPendingRevocation = ∅ ∧ m.assignedPartitions = p.goal m

/-- A member that no call would change has what it should have. -/
structure Ready : Prop where
  disjoint : ∀ tp ∈ m.assignedPartitions, tp ∉ m.partitionsPendingRevocation
  settled : p.Reconciled m → p.Settled m

structure Trimmed : Prop extends Ready p m where
  assigned_sub : ∀ tp ∈ m.assignedPartitions, tp ∈ p.goal m

structure Current : Prop extends Trimmed p m where
  pending_eq : m.partitionsPendingRevocation = ∅

variable {p m}

theorem Settled.current (h : p.Settled m) : p.Current m where
  disjoint := by
    intro tp _
    rw [h.2.1]
    exact notMem_empty tp
  settled _ := h
  assigned_sub := by
    intro tp htp
    rwa [← h.2.2]
  pending_eq := h.2.1

/-- What the builder of the next assignment gives a member that reports what is
assigned to it. -/
structure Next (p : Plan) (g : GroupState) (m : Member) (r : Rebuilt) : Prop where
  fits : r.Fits g m
  goal_install : p.goal (m.install r) = p.goal m
  assigned_sub : ∀ tp ∈ r.assigned, tp ∈ p.goal m
  complete : r.state = .stable → r.pending = ∅ ∧ r.assigned = p.goal m
  caught_up : (∀ tp ∈ m.assignedPartitions, tp ∈ p.goal m) → r.pending = ∅ ∧ r.epoch = p.epoch
  stable_of_free : (∀ tp ∈ m.assignedPartitions, tp ∈ p.goal m) →
    (∀ tp ∈ p.goal m, ∀ other ∈ g.members.values, other.memberId ≠ m.memberId →
      tp ∉ other.held) → r.state = .stable

variable {g : GroupState} {r : Rebuilt}

theorem Next.trimmed (h : Next p g m r) : p.Trimmed (m.install r) where
  disjoint := h.fits.disjoint
  settled hdone := ⟨hdone, (h.complete hdone.1).1, (h.complete hdone.1).2.trans h.goal_install.symm⟩
  assigned_sub := by
    rw [h.goal_install]
    exact h.assigned_sub

end Plan

namespace GroupState

open Plan

def plan (image : MetadataImage) (g : GroupState) : Plan where
  epoch := g.target.epoch
  goal m := g.targetHere m image (g.targetOf m.memberId)

/-- One call of `reconcile_member`, in which the member reports as owned what
is assigned to it. -/
def reconciled (image : MetadataImage) (g : GroupState) (id : String) : GroupState :=
  (g.reconcileMember id ((g.members.get? id).map Member.assignedPartitions) false image).1

variable {image : MetadataImage} {g : GroupState} {m : Member}

/-! ## One call -/

theorem rebuild_reported (h : (g.plan image).Ready m) (hnot : ¬ (g.plan image).Reconciled m) :
    g.rebuild m image (some m.assignedPartitions) false =
      some (g.computeNextAssignment m image (some m.assignedPartitions)) := by
  have howns : ownsAny (some m.assignedPartitions) m.partitionsPendingRevocation = false := by
    rw [ownsAny, List.any_eq_false]
    intro tp htp
    simpa using h.disjoint tp (mem_elems.mp htp)
  unfold rebuild
  rw [if_neg fun hreconciled => hnot hreconciled.2]
  cases hstate : m.assignmentState with
  | stable => exact if_pos fun hepoch => hnot ⟨hstate, hepoch⟩
  | unrevokedPartitions =>
    dsimp only
    rw [howns]
    rfl
  | unreleasedPartitions => rfl

theorem computeNextAssignment_next (owned : Option Partitions) :
    Next (g.plan image) g m (g.computeNextAssignment m image owned) := by
  have hfits : (g.computeNextAssignment m image owned).Fits g m := computeNextAssignment_fits
  unfold computeNextAssignment intoRebuilt at hfits ⊢
  dsimp only at hfits ⊢
  set split := g.splitAgainstTarget m image (g.targetOf m.memberId) with hsplit
  have hkept : ∀ tp, tp ∈ split.kept ↔
      tp ∈ m.assignedPartitions ∧ tp ∈ (g.plan image).goal m := by
    intro tp
    rw [hsplit, splitAgainstTarget, mem_filter, decide_eq_true_eq]
    rfl
  have hwanted : ∀ tp, tp ∈ split.wanted ↔
      tp ∈ (g.plan image).goal m ∧ tp ∉ m.assignedPartitions := by
    intro tp
    rw [hsplit, splitAgainstTarget, mem_filter, decide_eq_true_eq]
    rfl
  by_cases hrevoke : split.toRevoke ≠ ∅ ∧ ownsAny owned split.toRevoke
  · rw [if_pos hrevoke] at hfits ⊢
    -- Something that is not in the target is revoked.
    have hnot : ¬ ∀ tp ∈ m.assignedPartitions, tp ∈ (g.plan image).goal m := by
      intro hsub
      refine hrevoke.1 (ext_mem fun tp => ?_)
      rw [hsplit, splitAgainstTarget, mem_filter, decide_eq_true_eq]
      exact iff_of_false (fun htp => htp.2 (hsub tp htp.1)) (notMem_empty tp)
    exact
      { fits := hfits
        goal_install := rfl
        assigned_sub := fun tp htp => ((hkept tp).mp htp).2
        complete := nofun
        caught_up := fun hsub => absurd hsub hnot
        stable_of_free := fun hsub => absurd hsub hnot }
  · rw [if_neg hrevoke] at hfits ⊢
    exact
      { fits := hfits
        goal_install := rfl
        assigned_sub := by
          intro tp htp
          rcases mem_union.mp htp with htp | htp
          · exact ((hkept tp).mp htp).2
          · exact ((hwanted tp).mp (mem_grantFree.mp htp).1).1
        complete := by
          intro hstable
          have hnone : (g.grantFree m split.wanted).2 = false := by
            by_contra hany
            rw [if_pos (by simpa using hany)] at hstable
            cases hstable
          refine ⟨rfl, ext_mem fun tp => ?_⟩
          rw [mem_union, hkept]
          constructor
          · rintro (htp | htp)
            · exact htp.2
            · exact ((hwanted tp).mp (mem_grantFree.mp htp).1).1
          · intro htp
            by_cases hassigned : tp ∈ m.assignedPartitions
            · exact .inl ⟨hassigned, htp⟩
            · have hin := (hwanted tp).mpr ⟨htp, hassigned⟩
              have hfree := List.any_eq_false.mp hnone tp (mem_elems.mpr hin)
              exact .inr (mem_filter.mpr ⟨hin, Bool.not_eq_true' _ ▸ Bool.eq_false_iff.mpr hfree⟩)
        caught_up := fun _ => ⟨rfl, rfl⟩
        stable_of_free := by
          intro _ hfree
          have hnone : (g.grantFree m split.wanted).2 = false := by
            refine List.any_eq_false.mpr fun tp htp hheld => ?_
            have hin := (hwanted tp).mp (mem_elems.mp htp)
            rw [Bool.and_eq_true, decide_eq_true_eq, mem_heldByOthers] at hheld
            obtain ⟨other, hother, hne, hheld⟩ := hheld.1.2
            exact hfree tp hin.1 other hother hne hheld
          rw [hnone]
          rfl }

variable {id : String}

theorem reconciled_cases (hm : g.members.get? id = some m) (h : (g.plan image).Ready m) :
    ((g.plan image).Settled m ∧ g.reconciled image id = g) ∨
      ∃ r, Next (g.plan image) g m r ∧ g.reconciled image id =
        { g with members := g.members.insert id (m.install r) } := by
  unfold reconciled reconcileMember
  rw [hm]
  dsimp only [Option.map_some]
  by_cases hdone : (g.plan image).Reconciled m
  · rw [rebuild, if_pos ⟨rfl, hdone⟩]
    exact .inl ⟨h.settled hdone, rfl⟩
  · rw [rebuild_reported h hdone]
    exact .inr ⟨_, computeNextAssignment_next _, rfl⟩

/-! ## Rounds -/

/-- The member `id`, if there is one, is at the stage of the plan `p`, which is
the plan of the group. -/
def AtStage (image : MetadataImage) (p : Plan) (stage : Plan → Member → Prop) (g : GroupState)
    (id : String) : Prop :=
  g.plan image = p ∧ ∀ m, g.members.get? id = some m → m.memberId = id ∧ stage p m

variable {p : Plan} {A B : Plan → Member → Prop}

theorem AtStage.mono (hle : ∀ m, A p m → B p m) (h : AtStage image p A g id) :
    AtStage image p B g id :=
  ⟨h.1, fun m hm => (h.2 m hm).imp_right (hle m)⟩

theorem AtStage.other {id' : String} (hne : id' ≠ id) (h : AtStage image p A g id') :
    AtStage image p A (g.reconciled image id) id' := by
  unfold reconciled reconcileMember
  split
  · exact h
  · split
    · exact h
    · refine ⟨h.1, fun m hm => h.2 m ?_⟩
      rwa [get?_insert, if_neg hne] at hm

theorem AtStage.call (h : ∀ id, AtStage image p A g id) (hready : ∀ m, A p m → p.Ready m)
    (hsettled : ∀ m, p.Settled m → B p m)
    (hnext : ∀ m r, A p m → Next p g m r → B p (m.install r)) :
    AtStage image p B (g.reconciled image id) id := by
  obtain rfl := (h id).1
  cases hm : g.members.get? id with
  | none =>
    have hsame : g.reconciled image id = g := by
      rw [reconciled, reconcileMember, hm]
    rw [hsame]
    refine ⟨rfl, fun m hm' => ?_⟩
    rw [hm] at hm'
    cases hm'
  | some m =>
    obtain ⟨hid, hA⟩ := (h id).2 m hm
    rcases reconciled_cases hm (hready m hA) with ⟨hdone, hsame⟩ | ⟨r, hr, hsame⟩
    · rw [hsame]
      refine ⟨rfl, fun m' hm' => ?_⟩
      obtain rfl := Option.some.inj (hm.symm.trans hm')
      exact ⟨hid, hsettled m hdone⟩
    · rw [hsame]
      refine ⟨rfl, fun m' hm' => ?_⟩
      rw [get?_insert, if_pos rfl] at hm'
      obtain rfl := Option.some.inj hm'
      exact ⟨hid, hnext m r hA hr⟩

/-- No call changes a member that is stable at the target epoch. -/
theorem AtStage.unchanged (b : List String) (hdone : p.Reconciled m)
    (h : AtStage image p (fun _ m' => m' = m) g id) :
    AtStage image p (fun _ m' => m' = m) (b.foldl (reconciled image) g) id := by
  induction b generalizing g with
  | nil => exact h
  | cons x b ih =>
    refine ih ?_
    by_cases hx : id = x
    · subst hx
      have hsame : g.reconciled image id = g := by
        obtain rfl := h.1
        cases hm : g.members.get? id with
        | none => rw [reconciled, reconcileMember, hm]
        | some m' =>
          obtain rfl := (h.2 m' hm).2
          unfold reconciled reconcileMember
          rw [hm]
          dsimp only [Option.map_some]
          rw [rebuild, if_pos ⟨rfl, hdone⟩]
      rwa [hsame]
    · exact h.other hx

theorem isSome_reconciled (g : GroupState) (id x : String) :
    ((g.reconciled image id).members.get? x).isSome = (g.members.get? x).isSome := by
  unfold reconciled reconcileMember
  split
  · rfl
  · next m hm =>
    split
    · rfl
    · by_cases hx : x = id
      · subst hx
        simp [hm]
      · simp [hx]

theorem isSome_foldl_reconciled (b : List String) (g : GroupState) (x : String) :
    ((b.foldl (reconciled image) g).members.get? x).isSome = (g.members.get? x).isSome := by
  induction b generalizing g with
  | nil => rfl
  | cons id b ih => rw [List.foldl_cons, ih, isSome_reconciled]

/-- A block of calls takes every member that occurs in it to the next stage. -/
theorem AtStage.round {b : List String} (h : ∀ id, AtStage image p A g id)
    (hb : ∀ id, (g.members.get? id).isSome → id ∈ b) (hle : ∀ m, B p m → A p m)
    (hcall : ∀ g id,
      (∀ id, AtStage image p A g id) → AtStage image p B (g.reconciled image id) id) :
    ∀ id, AtStage image p B (b.foldl (reconciled image) g) id := by
  -- What the rest of the block does not name is at the next stage already.
  have hrest : ∀ id, id ∈ b ∨ AtStage image p B g id := by
    intro id
    by_cases hid : (g.members.get? id).isSome
    · exact .inl (hb id hid)
    · refine .inr ⟨(h id).1, fun m hm => ?_⟩
      rw [hm] at hid
      exact absurd rfl hid
  clear hb
  induction b generalizing g with
  | nil => exact fun id => (hrest id).resolve_left List.not_mem_nil
  | cons x b ih =>
    have hx := hcall g x h
    refine ih (fun id => ?_) (fun id => ?_)
    · by_cases hid : id = x
      · subst hid
        exact hx.mono hle
      · exact (h id).other hid
    · by_cases hid : id = x
      · subst hid
        exact .inr hx
      · exact (hrest id).imp (fun hmem => (List.mem_cons.mp hmem).resolve_left hid) (·.other hid)

theorem AtStage.trim (h : ∀ id, AtStage image p Ready g id) :
    AtStage image p Trimmed (g.reconciled image id) id :=
  AtStage.call h (fun _ hm => hm) (fun _ hm => hm.current.toTrimmed) fun _ _ _ hr => hr.trimmed

theorem AtStage.catchUp (h : ∀ id, AtStage image p Trimmed g id) :
    AtStage image p Current (g.reconciled image id) id :=
  AtStage.call h (fun _ hm => hm.toReady) (fun _ hm => hm.current) fun _ _ hm hr =>
    ⟨hr.trimmed, (hr.caught_up hm.assigned_sub).1⟩

theorem AtStage.settle
    (hgoals : ∀ m m' tp, tp ∈ p.goal m → tp ∈ p.goal m' → m.memberId = m'.memberId)
    (h : ∀ id, AtStage image p Current g id) :
    AtStage image p Settled (g.reconciled image id) id := by
  refine AtStage.call h (fun m hm => hm.toReady) (fun m hm => hm) fun m r hm hr => ?_
  have hfree : ∀ tp ∈ p.goal m, ∀ other ∈ g.members.values, other.memberId ≠ m.memberId →
      tp ∉ other.held := by
    intro tp htp other hother hne hheld
    obtain ⟨e, he, rfl⟩ := List.mem_map.mp hother
    have hcurrent := ((h e.1).2 e.2 (g.members.get?_of_mem he)).2
    rw [Member.mem_held, hcurrent.pending_eq] at hheld
    exact hne (hgoals _ _ tp (hcurrent.assigned_sub tp (hheld.resolve_right (notMem_empty tp))) htp)
  exact hr.trimmed.settled
    ⟨hr.stable_of_free hm.assigned_sub hfree, (hr.caught_up hm.assigned_sub).2⟩

end GroupState

open GroupState Plan Coordinator

/-- Three rounds of calls, in any order and with any repetitions, settle a reachable
group whose targets are disjoint exactly when every member that is stable at the
target epoch has its target. -/
theorem converges_in_three_rounds {groupId : String} {c : Coordinator}
    (h : (coordinators groupId).Reachable c) (image : MetadataImage)
    (htargets : ∀ id₁ id₂ tp, tp ∈ c.group.targetOf id₁ → tp ∈ c.group.targetOf id₂ → id₁ = id₂)
    {b₁ b₂ b₃ : List String}
    (hblocks : ∀ b ∈ [b₁, b₂, b₃], ∀ id, (c.group.members.get? id).isSome → id ∈ b) :
    (∀ id, (c.group.members.get? id).isSome →
        ∃ m, ((b₁ ++ b₂ ++ b₃).foldl (reconciled image) c.group).members.get? id = some m ∧
          (c.group.plan image).Settled m) ↔
      ∀ id m, c.group.members.get? id = some m → (c.group.plan image).Reconciled m →
        m.assignedPartitions = (c.group.plan image).goal m := by
  have hwell := (Coordinator.inv_of_reachable h).roster.wellFormed
  constructor
  · intro hall id m hm hdone
    obtain ⟨m', hm', hsettled⟩ := hall id (Option.isSome_of_mem hm)
    have hstart : AtStage image (c.group.plan image) (fun _ m' => m' = m) c.group id := by
      refine ⟨rfl, fun m' hm' => ?_⟩
      obtain rfl := Option.some.inj (hm.symm.trans hm')
      exact ⟨(hwell id m hm).id_eq, rfl⟩
    obtain rfl := ((hstart.unchanged _ hdone).2 m' hm').2
    exact hsettled.2.2
  · intro hdone id hid
    have hgoals : ∀ m m' tp, tp ∈ (c.group.plan image).goal m →
        tp ∈ (c.group.plan image).goal m' → m.memberId = m'.memberId :=
      fun m m' tp hm hm' => htargets _ _ tp (mem_filter.mp hm).1 (mem_filter.mp hm').1
    have h₀ : ∀ id, AtStage image (c.group.plan image) Ready c.group id := by
      refine fun id => ⟨rfl, fun m hm => ⟨(hwell id m hm).id_eq, (hwell id m hm).disjoint, ?_⟩⟩
      exact fun hstable => ⟨hstable, (hwell id m hm).idle hstable.1, hdone id m hm hstable⟩
    have h₁ := AtStage.round h₀ (hblocks b₁ (by simp)) (fun m hm => hm.toReady) fun _ _ => .trim
    have h₂ := AtStage.round h₁ (b := b₂)
      (by simpa only [isSome_foldl_reconciled] using hblocks b₂ (by simp))
      (fun m hm => hm.toTrimmed) fun _ _ => .catchUp
    have h₃ := AtStage.round h₂ (b := b₃)
      (by simpa only [isSome_foldl_reconciled] using hblocks b₃ (by simp))
      (fun m hm => hm.current) fun _ _ => .settle hgoals
    rw [← isSome_foldl_reconciled (b₁ ++ b₂ ++ b₃)] at hid
    obtain ⟨m, hm⟩ := Option.isSome_iff_exists.mp hid
    refine ⟨m, hm, ((h₃ id).2 m ?_).2⟩
    rwa [List.foldl_append, List.foldl_append] at hm

theorem targets_disjoint {g : GroupState} (h : ∀ e₁ ∈ g.target.perMember.entries,
      ∀ e₂ ∈ g.target.perMember.entries, ∀ tp ∈ e₁.2.elems, tp ∈ e₂.2.elems → e₁.1 = e₂.1)
    (id₁ id₂ : String) (tp : TopicIdPartition) (h₁ : tp ∈ g.targetOf id₁)
    (h₂ : tp ∈ g.targetOf id₂) : id₁ = id₂ := by
  have hentry : ∀ id, tp ∈ g.targetOf id →
      ∃ target, (id, target) ∈ g.target.perMember.entries ∧ tp ∈ target.elems := by
    intro id htp
    cases hget : g.target.perMember.get? id with
    | none =>
      rw [targetOf, hget] at htp
      exact absurd htp (notMem_empty tp)
    | some target =>
      rw [targetOf, hget] at htp
      exact ⟨target, mem_of_get? _ hget, mem_elems.mpr htp⟩
  obtain ⟨t₁, hmem₁, htp₁⟩ := hentry id₁ h₁
  obtain ⟨t₂, hmem₂, htp₂⟩ := hentry id₂ h₂
  exact h _ hmem₁ _ hmem₂ tp htp₁ htp₂

theorem members_keys {g : GroupState} (id : String) (h : (g.members.get? id).isSome) :
    id ∈ g.members.keys :=
  (mem_keys_iff _ id).mpr h

/-- Member `b` has both partitions when `a` joins and gets them as its target. -/
def handover : Coordinator := ((Coordinator.new "g").step (beat "b" 0)).step (beat "a" 0)

/-- The partitions move from `b` to `a`, which is asked first in every round. -/
theorem converges_in_three_rounds_handover :
    (handover.group.members.values.map fun m =>
      (m.memberEpoch, m.assignedPartitions.elems.length)) =
        [(3, 0), (2, 2)] ∧
    ∀ id, (handover.group.members.get? id).isSome →
      ∃ m, ((["a", "b"] ++ ["a", "b"] ++ ["a", "b"]).foldl (reconciled twoPartitions)
        handover.group).members.get? id = some m ∧
          (handover.group.plan twoPartitions).Settled m := by
  have hreach : (coordinators "g").Reachable handover := .step (.step (.init rfl) rfl) rfl
  refine ⟨by decide +kernel, (converges_in_three_rounds hreach twoPartitions
    (targets_disjoint (by decide +kernel)) ?_).mpr fun id m hm => ?_⟩
  · have hkeys : handover.group.members.keys = ["a", "b"] := by decide +kernel
    simpa [hkeys] using members_keys (g := handover.group)
  · have hall : ∀ e ∈ handover.group.members.entries,
        (handover.group.plan twoPartitions).Reconciled e.2 →
          e.2.assignedPartitions = (handover.group.plan twoPartitions).goal e.2 := by
      unfold Plan.Reconciled
      decide +kernel
    exact hall _ (mem_of_get? _ hm)

def noTopics : MetadataImage :=
  { smallBroker.image with
    topicIdByName := SortedMap.empty
    partitionsPerTopic := SortedMap.empty
    unique := by simp }

/-- The member joins, gets both partitions of the topic, and sends another
heartbeat once the topic is deleted. -/
def topicDeleted : Coordinator :=
  ((Coordinator.new "g").step (beat "a" 0)).step
    (.heartbeat { smallBroker with image := noTopics } { memberId := "a", memberEpoch := 2 })

/-- The group has not noticed that the topic is gone, and a member that is
stable at the target epoch keeps its partitions. -/
theorem deleted_topic_stays :
    ∃ c image, (coordinators "g").Reachable c ∧ c.group.target.epoch = c.group.groupEpoch ∧
      (∀ id₁ id₂ tp, tp ∈ c.group.targetOf id₁ → tp ∈ c.group.targetOf id₂ → id₁ = id₂) ∧
      (∀ id, (c.group.members.get? id).isSome → id ∈ ["a"]) ∧
      ∃ m, ((["a"] ++ ["a"] ++ ["a"]).foldl (reconciled image) c.group).members.get? "a" = some m ∧
        m.assignedPartitions ≠ (c.group.plan image).goal m := by
  have hkeys : topicDeleted.group.members.keys = ["a"] := by decide +kernel
  refine ⟨topicDeleted, noTopics, .step (.step (.init rfl) rfl) rfl, by decide +kernel,
    targets_disjoint (by decide +kernel), fun _ hid => hkeys ▸ members_keys _ hid, ?_⟩
  have hstays :
      ((["a"] ++ ["a"] ++ ["a"]).foldl (reconciled noTopics) topicDeleted.group).members.get?
      "a" |>.any fun m => m.assignedPartitions ≠ (topicDeleted.group.plan noTopics).goal m := by
    decide +kernel
  obtain ⟨m, hm, hne⟩ := (Option.any_eq_true _ _).mp hstays
  exact ⟨m, hm, of_decide_eq_true hne⟩

end Krabka.ConsumerGroup

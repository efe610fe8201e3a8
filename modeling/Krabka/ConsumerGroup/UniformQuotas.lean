import Mathlib.Algebra.Order.BigOperators.Group.List
import Mathlib.Algebra.Order.Ring.Nat

/-!
# The quotas of the uniform assignor

`crates/verified/src/uniform_assignor/select_least_loaded.rs`: the partitions of
topics that all members subscribe to are split over the members.  One pass hands
out what the floors leave over, and no balanced split lets the members keep more.
-/

namespace Krabka.ConsumerGroup

open List

structure UniformQuotaSplit where
  minimumQuota : Nat
  extraQuotas : Nat

def uniformQuotaSplit (totalPartitions memberCount : Nat) : UniformQuotaSplit :=
  ⟨totalPartitions / memberCount, totalPartitions % memberCount⟩

structure HomogeneousMemberQuota where
  takesExtra : Bool
  retain : Nat
  fill : Nat

/-- `homogeneous_member_quotas`, from the first of the members that are left. -/
def homogeneousMemberQuotas (minimumQuota extrasLeft : Nat) : List Nat → List HomogeneousMemberQuota
  | [] => []
  | ownedNow :: owned =>
    let membersLeft := owned.length + 1
    let takesExtra := extrasLeft > 0 && (ownedNow > minimumQuota || membersLeft ≤ extrasLeft)
    let target := if takesExtra then minimumQuota + 1 else minimumQuota
    let retain := if ownedNow < target then ownedNow else target
    ⟨takesExtra, retain, target - retain⟩ ::
      homogeneousMemberQuotas minimumQuota (if takesExtra then extrasLeft - 1 else extrasLeft) owned

/-- The quotas of `homogeneous`. -/
def uniformQuotas (total : Nat) (owned : List Nat) : List HomogeneousMemberQuota :=
  let split := uniformQuotaSplit total owned.length
  homogeneousMemberQuotas split.minimumQuota split.extraQuotas owned

/-- Each member gets the floor or one more, and together they get all. -/
structure Balanced (total members : Nat) (targets : List Nat) : Prop where
  length : targets.length = members
  floor_or_succ : ∀ t ∈ targets, t = total / members ∨ t = total / members + 1
  sum : targets.sum = total

/-- The partitions that can stay with their owners. -/
def kept (owned targets : List Nat) : Nat := (zipWith min owned targets).sum

/-- What stays with the floors, and one more for each extra partition that finds a
member with more than the floor. -/
def keepable (minimum extras : Nat) (owned : List Nat) : Nat :=
  (owned.map (min · minimum)).sum + min extras (owned.countP (minimum < ·))

variable {minimum extras : Nat} {owned : List Nat}

theorem kept_le {targets : List Nat} (hlen : targets.length = owned.length)
    (ht : ∀ t ∈ targets, t = minimum ∨ t = minimum + 1)
    (hsum : targets.sum = minimum * owned.length + extras) :
    kept owned targets ≤ keepable minimum extras owned := by
  induction owned generalizing targets extras with
  | nil => simp [kept]
  | cons c owned ih =>
    cases targets with
    | nil => cases hlen
    | cons t targets =>
      obtain ⟨ht, hrest⟩ := forall_mem_cons.mp ht
      have hlen : targets.length = owned.length := Nat.succ.inj hlen
      have hfloors : minimum * owned.length ≤ targets.sum := by
        rw [← hlen, Nat.mul_comm]
        refine targets.card_nsmul_le_sum minimum fun x hx => ?_
        have := hrest x hx
        omega
      have ih := @ih (targets.sum - minimum * owned.length) _ hlen hrest (by omega)
      simp only [kept, keepable, zipWith_cons_cons, sum_cons, map_cons, countP_cons, length_cons,
        decide_eq_true_eq, Nat.mul_add] at ih hsum ⊢
      split <;> omega

theorem homogeneousMemberQuotas_spec (h : extras ≤ owned.length) :
    let quotas := homogeneousMemberQuotas minimum extras owned
    quotas.length = owned.length ∧
      (∀ q ∈ quotas, q.retain + q.fill = minimum ∨ q.retain + q.fill = minimum + 1) ∧
      (quotas.map fun q => q.retain + q.fill).sum = minimum * owned.length + extras ∧
      (quotas.map (·.retain)).sum = keepable minimum extras owned := by
  induction owned generalizing extras with
  | nil => simp_all [homogeneousMemberQuotas, keepable]
  | cons c owned ih =>
    have hcount := owned.countP_le_length (p := (minimum < ·))
    rw [length_cons] at h
    simp only [homogeneousMemberQuotas, length_cons, forall_mem_cons, map_cons, sum_cons]
    -- the member owns one more than the floor, or all that are left have to take one
    generalize htakes : (decide (extras > 0) && _) = takes
    have hleft : (if takes then extras - 1 else extras) ≤ owned.length := by grind
    obtain ⟨hlen, htargets, hsum, hkept⟩ := ih hleft
    rw [hlen, hsum, hkept]
    simp only [keepable, map_cons, sum_cons, countP_cons, decide_eq_true_eq, Nat.mul_add]
    refine ⟨trivial, ⟨?_, htargets⟩, ?_, ?_⟩ <;> grind

/-- **The quotas are balanced and as sticky as balance allows.** -/
theorem uniform_quotas_greatest (total : Nat) (h : owned ≠ []) :
    Balanced total owned.length ((uniformQuotas total owned).map fun q => q.retain + q.fill) ∧
      ∀ targets, Balanced total owned.length targets →
        kept owned targets ≤ ((uniformQuotas total owned).map (·.retain)).sum := by
  have hmod := Nat.mod_lt total (length_pos_of_ne_nil h)
  have hdiv := Nat.div_add_mod' total owned.length
  obtain ⟨hlen, htargets, hsum, hkept⟩ :=
    @homogeneousMemberQuotas_spec (total / owned.length) _ _ hmod.le
  unfold uniformQuotas uniformQuotaSplit
  refine ⟨⟨by simpa using hlen, by simpa using htargets, hsum.trans hdiv⟩, ?_⟩
  intro targets hbalanced
  rw [hkept]
  exact kept_le hbalanced.length hbalanced.floor_or_succ (hbalanced.sum.trans hdiv.symm)

theorem uniform_quotas_greatest_seven : kept [0, 5, 1] [2, 3, 2] ≤ 4 :=
  (@uniform_quotas_greatest [0, 5, 1] 7 (by decide)).2 _ ⟨rfl, by decide, rfl⟩

end Krabka.ConsumerGroup

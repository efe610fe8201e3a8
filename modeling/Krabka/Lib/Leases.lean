import Mathlib.Data.Set.Lattice
import Mathlib.Logic.Pairwise
import Mathlib.Order.CompletePartialOrder

/-!
# Exclusive holdings

Holders that each hold a set of resources, no resource twice.  `Exclusive` is
kept by every change in which a holder takes only what it held or what nobody
else holds: `shrink`, `take` and `transfer` are the three kinds of change.
-/

namespace Leases

open Function

variable {ι ρ : Type*}

/-- No resource is with two holders. -/
def Exclusive (held : ι → Set ρ) : Prop := Pairwise (Function.onFun Disjoint held)

variable {held : ι → Set ρ}

theorem Exclusive.eq (h : Exclusive held) {i j : ι} {r : ρ} (hi : r ∈ held i) (hj : r ∈ held j) :
    i = j := by
  by_contra hne
  exact Set.disjoint_left.mp (h hne) hi hj

theorem Exclusive.shrink {held' : ι → Set ρ} (h : Exclusive held) (hsub : ∀ i, held' i ⊆ held i) :
    Exclusive held' :=
  fun i j hne => (h hne).mono (hsub i) (hsub j)

variable [DecidableEq ι]

theorem Exclusive.take (h : Exclusive held) {i : ι} {s : Set ρ}
    (hfree : ∀ j, j ≠ i → Disjoint s (held j)) : Exclusive (Function.update held i s) := by
  intro j k hne
  unfold Function.onFun
  by_cases hj : j = i
  · subst hj
    rw [update_self, update_of_ne hne.symm]
    exact hfree k hne.symm
  · rw [update_of_ne hj]
    by_cases hk : k = i
    · subst hk
      rw [update_self]
      exact (hfree j hj).symm
    · rw [update_of_ne hk]
      exact h hne

theorem Exclusive.transfer (h : Exclusive held) {i j : ι} {s : Set ρ} (hs : s ⊆ held i) :
    Exclusive (Function.update (Function.update held i ∅) j s) := by
  refine Exclusive.take (h.shrink fun k => ?_) fun k hk => ?_
  · by_cases hki : k = i
    · subst hki
      rw [update_self]
      exact Set.empty_subset _
    · rw [update_of_ne hki]
  · by_cases hki : k = i
    · subst hki
      rw [update_self]
      exact Set.disjoint_empty _
    · rw [update_of_ne hki]
      exact (h (Ne.symm hki)).mono_left hs

end Leases

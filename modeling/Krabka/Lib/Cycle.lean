import Mathlib.Data.List.Chain
import Mathlib.Algebra.Order.BigOperators.Group.List
import Mathlib.Data.Int.ModEq

/-!
# Arcs on a cycle

Positions are counted modulo `M`.  Arcs that follow one another around the cycle,
each from where the one before it ends, start at different positions until they
have gone all the way round.
-/

namespace Cycle

open List

variable {α : Type*} {M : Int} {start len : α → Int}

/-- The arc `y` begins where `x` ends. -/
def Follows (M : Int) (start len : α → Int) (x y : α) : Prop := start y = (start x + len x) % M

theorem exists_distance {x : α} {xs : List α} (hchain : (x :: xs).IsChain (Follows M start len))
    (hlen : ∀ y ∈ x :: xs, 0 < len y) {y : α} (hy : y ∈ xs) :
    ∃ d, 0 < d ∧ d + len y ≤ ((x :: xs).map len).sum ∧ start y % M = (start x + d) % M := by
  induction xs generalizing x with
  | nil => cases hy
  | cons z xs ih =>
    obtain ⟨hfollows, hrest⟩ := isChain_cons_cons.mp hchain
    have hx := hlen x mem_cons_self
    have hlater : ∀ w ∈ z :: xs, 0 < len w := fun w hw => hlen w (mem_cons_of_mem x hw)
    have hz : start z % M = (start x + len x) % M := by
      rw [hfollows, Int.emod_emod_of_dvd _ (dvd_refl M)]
    rw [map_cons, sum_cons]
    rcases mem_cons.mp hy with rfl | hy
    · refine ⟨len x, hx, ?_, hz⟩
      have hnonneg : 0 ≤ (xs.map len).sum := by
        apply sum_nonneg
        intro v hv
        obtain ⟨w, hw, rfl⟩ := List.mem_map.mp hv
        exact (hlater w (mem_cons_of_mem _ hw)).le
      rw [map_cons, sum_cons]
      omega
    · obtain ⟨d, hd, hsum, hmod⟩ := ih hrest hlater hy
      refine ⟨len x + d, by omega, by omega, ?_⟩
      rw [hmod, Int.add_emod, hz, ← Int.add_emod]
      rw [add_assoc]

theorem pairwise_start_ne {xs : List α} (hchain : xs.IsChain (Follows M start len))
    (hlen : ∀ y ∈ xs, 0 < len y) (htotal : (xs.map len).sum ≤ M) :
    xs.Pairwise fun x y => start x ≠ start y := by
  induction xs with
  | nil => exact .nil
  | cons x xs ih =>
    have hx := hlen x mem_cons_self
    rw [map_cons, sum_cons] at htotal
    refine pairwise_cons.mpr ⟨?_, ih hchain.tail
      (fun y hy => hlen y (mem_cons_of_mem x hy)) (by omega)⟩
    intro y hy heq
    obtain ⟨d, hd, hsum, hmod⟩ := exists_distance hchain hlen hy
    have hy' := hlen y (mem_cons_of_mem x hy)
    rw [map_cons, sum_cons] at hsum
    -- the distance would be a multiple of the way round
    rw [← heq] at hmod
    have hdvd : M ∣ d := by
      have hsub : M ∣ start x + d - start x := Int.ModEq.dvd hmod
      rwa [add_sub_cancel_left] at hsub
    have hle := Int.le_of_dvd hd hdvd
    omega

end Cycle

import Mathlib.Data.List.Basic
import Mathlib.Order.Lattice

/-!
# Lists of extents

An extent covers the integers from `first` to `last`.  `Ordered a xs` says that
the extents of `xs` follow one another from `a` on, with gaps allowed, and
`endOf a xs` is the first integer past them.

A cut at `c` splits such a list: `below c` keeps the extents that end before
`c`, `above c` the others, and the list is the one followed by the other.
-/

/-- Values that cover the integers from `first` to `last`. -/
class Extent (α : Type*) where
  first : α → Int
  last : α → Int

namespace Extent

open List

variable {α : Type*} [Extent α]

def next (x : α) : Int := last x + 1

/-- The extents follow one another, from `a` on. -/
structure Ordered (a : Int) (xs : List α) : Prop where
  lower : ∀ x ∈ xs, a ≤ first x
  spans : ∀ x ∈ xs, first x ≤ last x
  sorted : xs.Pairwise fun x y => last x < first y

/-- The first integer past every extent, `a` when there is none. -/
def endOf (a : Int) (xs : List α) : Int := (xs.getLast?.map next).getD a

/-- The extents that end before `c`. -/
def below (c : Int) (xs : List α) : List α := xs.filter fun x => last x < c

/-- The extents that reach `c`. -/
def above (c : Int) (xs : List α) : List α := xs.filter fun x => c ≤ last x

variable {a b c d : Int} {x : α} {xs ys : List α}

/-! ## The end -/

@[simp] theorem endOf_nil (a : Int) : endOf a ([] : List α) = a := rfl

@[simp] theorem endOf_concat (a : Int) (xs : List α) (x : α) : endOf a (xs ++ [x]) = next x := by
  simp [endOf]

@[simp] theorem endOf_cons (a : Int) (x : α) (xs : List α) :
    endOf a (x :: xs) = endOf (next x) xs := by
  cases xs with
  | nil => rfl
  | cons y ys => simp [endOf, getLast?_cons]

theorem endOf_append (a : Int) (xs ys : List α) : endOf a (xs ++ ys) = endOf (endOf a xs) ys := by
  induction xs generalizing a with
  | nil => rfl
  | cons x xs ih => simp [ih]

/-! ## Order -/

@[simp] theorem ordered_nil (a : Int) : Ordered a ([] : List α) where
  lower := nofun
  spans := nofun
  sorted := .nil

theorem ordered_cons :
    Ordered a (x :: xs) ↔ a ≤ first x ∧ first x ≤ last x ∧ Ordered (next x) xs := by
  constructor
  · intro h
    have hpair := pairwise_cons.mp h.sorted
    refine ⟨h.lower x mem_cons_self, h.spans x mem_cons_self, ?_, ?_, hpair.2⟩
    · intro y hy
      exact hpair.1 y hy
    · intro y hy
      exact h.spans y (mem_cons_of_mem x hy)
  · rintro ⟨hlow, hspan, h⟩
    refine ⟨?_, ?_, pairwise_cons.mpr ⟨fun y hy => h.lower y hy, h.sorted⟩⟩
    · intro y hy
      rcases mem_cons.mp hy with rfl | hy
      · exact hlow
      · have hle : last x + 1 ≤ first y := h.lower y hy
        omega
    · intro y hy
      rcases mem_cons.mp hy with rfl | hy
      · exact hspan
      · exact h.spans y hy

theorem ordered_append : Ordered a (xs ++ ys) ↔ Ordered a xs ∧ Ordered (endOf a xs) ys := by
  induction xs generalizing a with
  | nil => simp
  | cons x xs ih => simp only [cons_append, ordered_cons, ih, endOf_cons, and_assoc]

theorem Ordered.le_endOf (h : Ordered a xs) : a ≤ endOf a xs := by
  induction xs generalizing a with
  | nil => exact le_refl a
  | cons x xs ih =>
    obtain ⟨hlow, hspan, hrest⟩ := ordered_cons.mp h
    have hle : last x + 1 ≤ endOf (next x) xs := ih hrest
    rw [endOf_cons]
    omega

theorem Ordered.last_lt_endOf (h : Ordered a xs) (hx : x ∈ xs) : last x < endOf a xs := by
  induction xs generalizing a with
  | nil => cases hx
  | cons y ys ih =>
    obtain ⟨-, -, hrest⟩ := ordered_cons.mp h
    rw [endOf_cons]
    rcases mem_cons.mp hx with rfl | hx
    · exact hrest.le_endOf
    · exact ih hrest hx

theorem Ordered.sublist (h : Ordered a ys) (hsub : List.Sublist xs ys) : Ordered a xs :=
  ⟨fun x hx => h.lower x (hsub.subset hx), fun x hx => h.spans x (hsub.subset hx),
    h.sorted.sublist hsub⟩

/-! ## Cuts -/

theorem mem_below : x ∈ below c xs ↔ x ∈ xs ∧ last x < c := by
  simp [below]

theorem mem_above : x ∈ above c xs ↔ x ∈ xs ∧ c ≤ last x := by
  simp [above]

theorem below_eq_nil_iff : below c xs = [] ↔ ∀ x ∈ xs, c ≤ last x := by
  simp [below]

theorem below_append (c : Int) (xs ys : List α) : below c (xs ++ ys) = below c xs ++ below c ys :=
  filter_append ..

theorem Ordered.below (h : Ordered a xs) (c : Int) : Ordered a (below c xs) :=
  h.sublist filter_sublist

theorem below_below (hcd : c ≤ d) (xs : List α) : below c (below d xs) = below c xs := by
  unfold below
  rw [filter_filter]
  congr 1
  funext x
  by_cases hx : last x < c
  · simp [hx, hx.trans_le hcd]
  · simp [hx]

theorem Ordered.below_eq_nil (h : Ordered a xs) (hca : c ≤ a) : Extent.below c xs = [] := by
  unfold Extent.below
  rw [filter_eq_nil_iff]
  intro x hx
  have hlow := h.lower x hx
  have hspan := h.spans x hx
  simp only [decide_eq_true_eq, not_lt]
  omega

theorem Ordered.below_eq_self (h : Ordered a xs) (hc : endOf a xs ≤ c) :
    Extent.below c xs = xs := by
  unfold Extent.below
  rw [filter_eq_self]
  intro x hx
  have hlast := h.last_lt_endOf hx
  simp only [decide_eq_true_eq]
  omega

theorem endOf_le_of_last_lt (h : Ordered a (xs ++ [x])) (hc : last x < c) : endOf a xs ≤ c := by
  obtain ⟨hlow, hspan, -⟩ := ordered_cons.mp (ordered_append.mp h).2
  omega

theorem Ordered.below_concat (h : Ordered a (xs ++ [x])) (c : Int) :
    Extent.below c (xs ++ [x]) = if last x < c then xs ++ [x] else Extent.below c xs := by
  rw [below_append]
  split
  · rename_i hlt
    rw [(ordered_append.mp h).1.below_eq_self (endOf_le_of_last_lt h hlt)]
    simp [Extent.below, hlt]
  · rename_i hnot
    simp [Extent.below, hnot]

theorem Ordered.span_eq (h : Ordered a xs) (c : Int) :
    xs.takeWhile (fun x => last x < c) = Extent.below c xs ∧
      xs.dropWhile (fun x => last x < c) = above c xs := by
  induction xs generalizing a with
  | nil => exact ⟨rfl, rfl⟩
  | cons x xs ih =>
    obtain ⟨hlow, hspan, hrest⟩ := ordered_cons.mp h
    have htail := ih hrest
    unfold Extent.below above at htail ⊢
    by_cases hx : last x < c
    · have hnot : ¬ c ≤ last x := by omega
      simp [hx, hnot, htail]
    · -- every later extent reaches the cut as well
      have hreach : c ≤ last x := by omega
      have hall : ∀ y ∈ xs, c ≤ last y := by
        intro y hy
        have hlow' : last x + 1 ≤ first y := hrest.lower y hy
        have hspan' := hrest.spans y hy
        omega
      have hnone : xs.filter (fun y => decide (last y < c)) = [] := by
        rw [filter_eq_nil_iff]
        intro y hy
        have hle := hall y hy
        simp only [decide_eq_true_eq, not_lt]
        exact hle
      have hself : xs.filter (fun y => decide (c ≤ last y)) = xs := by
        rw [filter_eq_self]
        intro y hy
        simpa using hall y hy
      simp [hx, hreach, hnone, hself]

theorem Ordered.below_append_above (h : Ordered a xs) (c : Int) :
    Extent.below c xs ++ above c xs = xs := by
  have hspan := h.span_eq c
  rw [← hspan.1, ← hspan.2, takeWhile_append_dropWhile]

theorem Ordered.ordered_above (h : Ordered a xs) (c : Int) :
    Ordered (endOf a (Extent.below c xs)) (above c xs) := by
  rw [← h.below_append_above c] at h
  exact (ordered_append.mp h).2

theorem Ordered.above_eq_nil (h : Ordered a xs) (hc : endOf a xs ≤ c) : above c xs = [] := by
  unfold Extent.above
  rw [filter_eq_nil_iff]
  intro x hx
  have hlast := h.last_lt_endOf hx
  simp only [decide_eq_true_eq, not_le]
  omega

theorem Ordered.above_eq_self (h : Ordered a xs) (hca : c ≤ a) : above c xs = xs := by
  have hsplit := h.below_append_above c
  rwa [h.below_eq_nil hca, nil_append] at hsplit

theorem endOf_below_le (hac : a ≤ c) (xs : List α) : endOf a (below c xs) ≤ c := by
  rcases eq_nil_or_concat' (below c xs) with hnil | ⟨ys, y, hys⟩
  · rw [hnil]
    exact hac
  · have hy : y ∈ below c xs := by
      rw [hys]
      simp
    have hlast := (mem_below.mp hy).2
    rw [hys, endOf_concat]
    unfold next
    omega

theorem Ordered.endOf_below_le_endOf (h : Ordered a xs) (c : Int) :
    endOf a (Extent.below c xs) ≤ endOf a xs := by
  have hle := (h.ordered_above c).le_endOf
  rwa [← endOf_append, h.below_append_above] at hle

theorem Ordered.above_ne_nil (h : Ordered a xs) (hac : a ≤ c) (hc : c < endOf a xs) :
    above c xs ≠ [] := by
  intro hnil
  have hsplit := h.below_append_above c
  rw [hnil, append_nil] at hsplit
  have hle := endOf_below_le hac xs
  rw [hsplit] at hle
  omega

theorem above_above (hcd : c ≤ d) (xs : List α) : above d (above c xs) = above d xs := by
  unfold above
  rw [filter_filter]
  congr 1
  funext x
  by_cases hx : d ≤ last x
  · simp [hx, hcd.trans hx]
  · simp [hx]

theorem Ordered.above_endOf (h : Ordered a xs) {zs : List α} (heq : above c xs = ys ++ zs) :
    above (endOf c ys) xs = zs := by
  rcases eq_nil_or_concat' ys with rfl | ⟨init, y, rfl⟩
  · exact heq
  · have hmem : y ∈ above c xs := by
      rw [heq]
      simp
    have hreach : c ≤ last y := by
      simpa [above] using (mem_filter.mp hmem).2
    have hord : Ordered a (init ++ [y] ++ zs) := by
      rw [← heq]
      exact h.sublist filter_sublist
    obtain ⟨hys, hzs⟩ := ordered_append.mp hord
    rw [endOf_concat] at hzs ⊢
    have hle : c ≤ next y := by
      unfold next
      omega
    rw [← above_above hle, heq]
    unfold above
    rw [filter_append, filter_eq_nil_iff.mpr, nil_append, filter_eq_self]
    · intro x hx
      have hlow := hzs.lower x hx
      have hspan := hzs.spans x hx
      simp only [decide_eq_true_eq]
      omega
    · intro x hx
      have hlast := hys.last_lt_endOf hx
      rw [endOf_concat] at hlast
      simp only [decide_eq_true_eq, not_le]
      exact hlast

/-- A point that lies inside no extent. -/
def Between (c : Int) (xs : List α) : Prop := ∀ x ∈ xs, last x < c ∨ c ≤ first x

theorem Ordered.above_of_between (h : Ordered a xs) (hc : Between c xs) :
    Ordered c (above c xs) := by
  have hsub := h.sublist (filter_sublist : List.Sublist (above c xs) xs)
  refine ⟨?_, hsub.spans, hsub.sorted⟩
  intro x hx
  obtain ⟨hmem, hreach⟩ := mem_above.mp hx
  rcases hc x hmem with hlast | hfirst
  · omega
  · exact hfirst

theorem Ordered.between_endOf (h : Ordered a xs) (hc : Between c xs) {zs : List α}
    (heq : above c xs = ys ++ zs) : Between (endOf c ys) xs := by
  have hord := h.above_of_between hc
  rw [heq] at hord
  obtain ⟨hys, hzs⟩ := ordered_append.mp hord
  intro x hx
  by_cases hreach : c ≤ last x
  · have hmem : x ∈ ys ++ zs := heq ▸ mem_above.mpr ⟨hx, hreach⟩
    rcases mem_append.mp hmem with hmem | hmem
    · exact .inl (hys.last_lt_endOf hmem)
    · exact .inr (hzs.lower x hmem)
  · have hle := hys.le_endOf
    exact .inl (by omega)

theorem Ordered.between_of_endOf_below (h : Ordered a xs) (hc : endOf a (Extent.below c xs) = c) :
    Between c xs := by
  have habove := h.ordered_above c
  rw [hc] at habove
  intro x hx
  by_cases hlast : last x < c
  · exact .inl hlast
  · exact .inr (habove.lower x (mem_above.mpr ⟨hx, by omega⟩))

theorem Ordered.between_first (h : Ordered a xs) (hx : x ∈ xs) : Between (first x) xs := by
  intro y hy
  have hspan := h.spans x hx
  obtain ⟨before, after, rfl⟩ := append_of_mem hx
  obtain ⟨hbefore, hrest⟩ := ordered_append.mp h
  obtain ⟨hlow, -, hafter⟩ := ordered_cons.mp hrest
  rcases mem_append.mp hy with hy | hy
  · exact .inl ((hbefore.last_lt_endOf hy).trans_le hlow)
  · rcases mem_cons.mp hy with rfl | hy
    · exact .inr le_rfl
    · have hle : last x + 1 ≤ first y := hafter.lower y hy
      exact .inr (by omega)

end Extent

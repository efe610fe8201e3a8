import Mathlib.Data.Int.ConditionallyCompleteOrder
import Mathlib.Data.Int.Interval
import Mathlib.Order.ConditionallyCompleteLattice.Basic
import Mathlib.Order.Interval.Finset.Basic

/-!
# Run-length windows

A window of positions `[a, b)` is kept as a list of runs, each an inclusive
range of positions with one value.  `Tiles` says that the runs are non-empty,
adjacent and cover exactly the window, `lookup` is the value at a position, and
`weigh` the number of positions whose value satisfies a test.

Two kinds of change are told apart.  A change of the geometry, `Reshapes`, cuts
and joins runs and leaves `lookup` as it is.  A `Pass` walks the runs once and
gives some of them a new value, with an accumulator beside it; it leaves the
geometry as it is, so each position is given a new value at most once.
-/

/-- The positions `firstOffset..lastOffset`, all with the value `value`. -/
structure Run (α : Type) where
  firstOffset : Int
  lastOffset : Int
  value : α
  deriving DecidableEq

namespace Run

open List

variable {α σ : Type}

def len (r : Run α) : Int := r.lastOffset - r.firstOffset + 1

def Covers (r : Run α) (o : Int) : Prop := r.firstOffset ≤ o ∧ o ≤ r.lastOffset

instance (r : Run α) (o : Int) : Decidable (r.Covers o) := inferInstanceAs (Decidable (_ ∧ _))

/-- The runs are non-empty and adjacent, and cover `[a, b)`. -/
def Tiles : List (Run α) → Int → Int → Prop
  | [], a, b => a = b
  | r :: rs, a, b => r.firstOffset = a ∧ r.firstOffset ≤ r.lastOffset ∧
      Tiles rs (r.lastOffset + 1) b

instance decidableTiles : ∀ (rs : List (Run α)) (a b : Int), Decidable (Tiles rs a b)
  | [], a, b => inferInstanceAs (Decidable (a = b))
  | r :: rs, _, b =>
    have := decidableTiles rs (r.lastOffset + 1) b
    inferInstanceAs (Decidable (_ ∧ _ ∧ _))

/-- The value at a position: that of the first run that covers it. -/
def lookup : List (Run α) → Int → Option α
  | [], _ => none
  | r :: rs, o => if r.Covers o then some r.value else lookup rs o

/-- The number of positions whose value satisfies `p`. -/
def weigh (p : α → Bool) : List (Run α) → Int
  | [] => 0
  | r :: rs => (if p r.value then r.len else 0) + weigh p rs

variable {r : Run α} {o : Int}

theorem lookup_of_covers (h : r.Covers o) (rs : List (Run α)) : lookup (r :: rs) o = some r.value :=
  if_pos h

theorem lookup_of_not (h : ¬ r.Covers o) (rs : List (Run α)) : lookup (r :: rs) o = lookup rs o :=
  if_neg h

/-! ## Windows -/

variable {rs : List (Run α)} {a b : Int}

theorem Tiles.le (h : Tiles rs a b) : a ≤ b := by
  induction rs generalizing a with
  | nil => exact le_of_eq h
  | cons r rs ih =>
    obtain ⟨hfirst, hne, hrest⟩ := h
    have := ih hrest
    omega

variable {xs ys : List (Run α)}

theorem tiles_append : Tiles (xs ++ ys) a b ↔ ∃ m, Tiles xs a m ∧ Tiles ys m b := by
  induction xs generalizing a with
  | nil => simp [Tiles]
  | cons x xs ih =>
    simp only [cons_append, Tiles, ih]
    constructor
    · rintro ⟨hfirst, hne, m, hxs, hys⟩
      exact ⟨m, ⟨hfirst, hne, hxs⟩, hys⟩
    · rintro ⟨m, ⟨hfirst, hne, hxs⟩, hys⟩
      exact ⟨hfirst, hne, m, hxs, hys⟩

theorem Tiles.end_unique {b' : Int} (h : Tiles rs a b) (h' : Tiles rs a b') : b = b' := by
  induction rs generalizing a with
  | nil => exact h.symm.trans h'
  | cons r rs ih => exact ih h.2.2 h'.2.2

theorem lookup_append (xs ys : List (Run α)) (o : Int) :
    lookup (xs ++ ys) o = (lookup xs o).or (lookup ys o) := by
  induction xs with
  | nil => rfl
  | cons x xs ih =>
    simp only [cons_append, lookup]
    split
    · rfl
    · exact ih

theorem lookup_eq_none : lookup rs o = none ↔ ∀ r ∈ rs, ¬ r.Covers o := by
  induction rs with
  | nil => simp [lookup]
  | cons r rs ih => by_cases hcov : r.Covers o <;> simp [lookup, hcov, ih]

theorem Tiles.lookup_eq_none (h : Tiles rs a b) (ho : o < a ∨ b ≤ o) : lookup rs o = none := by
  induction rs generalizing a with
  | nil => rfl
  | cons r rs ih =>
    obtain ⟨hfirst, hne, hrest⟩ := h
    have hle := hrest.le
    have hout : ¬ r.Covers o := by
      intro hcov
      obtain ⟨h₁, h₂⟩ := hcov
      omega
    rw [lookup, if_neg hout]
    exact ih hrest (by omega)

theorem Tiles.lookup_isSome (h : Tiles rs a b) (ha : a ≤ o)
    (hb : o < b) : ∃ v, lookup rs o = some v := by
  induction rs generalizing a with
  | nil =>
    have hab : a = b := h
    omega
  | cons r rs ih =>
    obtain ⟨hfirst, hne, hrest⟩ := h
    by_cases hcov : r.Covers o
    · exact ⟨r.value, by rw [lookup, if_pos hcov]⟩
    · rw [lookup, if_neg hcov]
      have : r.lastOffset + 1 ≤ o := by
        by_contra hlt
        exact hcov ⟨by omega, by omega⟩
      exact ih hrest this

theorem Tiles.lookup_bounds {v : α} (h : Tiles rs a b)
    (hv : lookup rs o = some v) : a ≤ o ∧ o < b := by
  by_contra hout
  have hnone := h.lookup_eq_none (o := o) (by omega)
  rw [hnone] at hv
  cases hv

theorem exists_of_lookup {v : α} (h : lookup rs o = some v) :
    ∃ r ∈ rs, r.Covers o ∧ r.value = v := by
  induction rs with
  | nil => exact absurd h (by simp [lookup])
  | cons r rs ih =>
    rw [lookup] at h
    split at h
    · exact ⟨r, mem_cons_self, ‹_›, by simpa using h⟩
    · obtain ⟨r', hr', hrest⟩ := ih h
      exact ⟨r', mem_cons_of_mem r hr', hrest⟩

theorem Tiles.lookup_of_mem (h : Tiles rs a b)
    (hr : r ∈ rs) (hcov : r.Covers o) : lookup rs o = some r.value := by
  obtain ⟨xs, ys, rfl⟩ := append_of_mem hr
  obtain ⟨m, hxs, hfirst, hne, -⟩ := tiles_append.mp h
  have hbefore : o < a ∨ m ≤ o := .inr (hfirst ▸ hcov.1)
  rw [lookup_append, hxs.lookup_eq_none hbefore, lookup, if_pos hcov]
  rfl

theorem Tiles.nonempty (h : Tiles rs a b) (hr : r ∈ rs) : r.firstOffset ≤ r.lastOffset := by
  obtain ⟨xs, ys, rfl⟩ := append_of_mem hr
  obtain ⟨m, -, -, hne, -⟩ := tiles_append.mp h
  exact hne

theorem Tiles.lookup_first (h : Tiles rs a b)
    (hr : r ∈ rs) : lookup rs r.firstOffset = some r.value :=
  h.lookup_of_mem hr ⟨le_rfl, h.nonempty hr⟩

/-! ## Counting positions -/

theorem weigh_append (p : α → Bool) (xs ys : List (Run α)) :
    weigh p (xs ++ ys) = weigh p xs + weigh p ys := by
  induction xs with
  | nil => simp [weigh]
  | cons x xs ih => simp only [cons_append, weigh, ih, add_assoc]

theorem Tiles.weigh_nonneg (h : Tiles rs a b) (p : α → Bool) : 0 ≤ weigh p rs := by
  induction rs generalizing a with
  | nil => exact le_rfl
  | cons r rs ih =>
    obtain ⟨-, hne, hrest⟩ := h
    have := ih hrest
    rw [weigh, len]
    split <;> omega

/-- **`weigh` counts positions.** -/
theorem Tiles.weigh_eq_card (h : Tiles rs a b) (p : α → Bool) :
    weigh p rs = ((Finset.Ico a b).filter (fun o => (lookup rs o).any p)).card := by
  induction rs generalizing a with
  | nil =>
    have hab : a = b := h
    subst hab
    simp [weigh]
  | cons r rs ih =>
    obtain ⟨rfl, hne, hrest⟩ := h
    have hle := hrest.le
    -- The positions of the first run, and then those of the rest.
    have hcut : Finset.Ico r.firstOffset b =
        Finset.Ico r.firstOffset (r.lastOffset + 1) ∪ Finset.Ico (r.lastOffset + 1) b :=
      (Finset.Ico_union_Ico_eq_Ico (by omega) hle).symm
    have hhead : (Finset.Ico r.firstOffset (r.lastOffset + 1)).filter
        (fun o => (lookup (r :: rs) o).any p) =
        if p r.value then Finset.Ico r.firstOffset (r.lastOffset + 1) else ∅ := by
      have hval : ∀ o ∈ Finset.Ico r.firstOffset (r.lastOffset + 1),
          lookup (r :: rs) o = some r.value := by
        intro o ho
        obtain ⟨h₁, h₂⟩ := Finset.mem_Ico.mp ho
        rw [lookup, if_pos ⟨h₁, by omega⟩]
      rw [Finset.filter_congr (q := fun _ => p r.value = true)
        (fun o ho => by rw [hval o ho]; simp)]
      split <;> simp_all
    have htail : (Finset.Ico (r.lastOffset + 1) b).filter (fun o => (lookup (r :: rs) o).any p) =
        (Finset.Ico (r.lastOffset + 1) b).filter (fun o => (lookup rs o).any p) := by
      refine Finset.filter_congr fun o ho => ?_
      have hlow := (Finset.mem_Ico.mp ho).1
      have hout : ¬ r.Covers o := fun hcov => absurd hcov.2 (by omega)
      rw [lookup, if_neg hout]
    have hdisj : Disjoint
        (if p r.value then Finset.Ico r.firstOffset (r.lastOffset + 1) else ∅)
        ((Finset.Ico (r.lastOffset + 1) b).filter (fun o => (lookup rs o).any p)) := by
      rw [Finset.disjoint_left]
      intro o ho ho'
      have hlow := (Finset.mem_Ico.mp (Finset.mem_filter.mp ho').1).1
      split at ho
      · exact absurd (Finset.mem_Ico.mp ho).2 (by omega)
      · exact absurd ho (Finset.notMem_empty o)
    rw [hcut, Finset.filter_union, hhead, htail, Finset.card_union_of_disjoint hdisj,
      weigh, ih hrest]
    push_cast
    congr 1
    split
    · rw [Int.card_Ico, len]
      omega
    · simp

/-! ## Changes of the geometry -/

/-- The runs `ys` cover the window of `xs` with the same values. -/
def Reshapes (xs ys : List (Run α)) : Prop :=
  ∀ a b, Tiles xs a b → Tiles ys a b ∧ ∀ o, lookup ys o = lookup xs o

theorem Reshapes.refl (xs : List (Run α)) : Reshapes xs xs := fun _ _ h => ⟨h, fun _ => rfl⟩

theorem Reshapes.trans {zs : List (Run α)} (h : Reshapes xs ys) (h' : Reshapes ys zs) :
    Reshapes xs zs := by
  intro a b htiles
  obtain ⟨hys, hlookup⟩ := h a b htiles
  obtain ⟨hzs, hlookup'⟩ := h' a b hys
  exact ⟨hzs, fun o => (hlookup' o).trans (hlookup o)⟩

theorem Reshapes.append {xs' ys' : List (Run α)} (h : Reshapes xs xs')
    (h' : Reshapes ys ys') : Reshapes (xs ++ ys) (xs' ++ ys') := by
  intro a b htiles
  obtain ⟨m, hxs, hys⟩ := tiles_append.mp htiles
  obtain ⟨hxs', hlookup⟩ := h a m hxs
  obtain ⟨hys', hlookup'⟩ := h' m b hys
  refine ⟨tiles_append.mpr ⟨m, hxs', hys'⟩, fun o => ?_⟩
  rw [lookup_append, lookup_append, hlookup, hlookup']

theorem Reshapes.cons (r : Run α) (h : Reshapes xs ys) : Reshapes (r :: xs) (r :: ys) :=
  (Reshapes.refl [r]).append h

theorem reshapes_cut {c : Int} (hlow : r.firstOffset < c) (hhigh : c ≤ r.lastOffset) :
    Reshapes [r] [{ r with lastOffset := c - 1 }, { r with firstOffset := c }] := by
  rintro a b ⟨hfirst, hne, hend⟩
  refine ⟨⟨hfirst, by dsimp only; omega, by dsimp only; omega, hhigh, hend⟩, fun o => ?_⟩
  simp only [lookup, Covers]
  grind

theorem reshapes_join {p c : Run α} (hadj : p.lastOffset + 1 = c.firstOffset)
    (hvalue : p.value = c.value) : Reshapes [p, c] [{ p with lastOffset := c.lastOffset }] := by
  rintro a b ⟨hfirst, hne, -, hne', hend⟩
  refine ⟨⟨hfirst, by dsimp only; omega, hend⟩, fun o => ?_⟩
  simp only [lookup, Covers, hvalue]
  grind

theorem reshapes_pieces
    (htiles : Tiles rs r.firstOffset (r.lastOffset + 1)) (hvalue : ∀ p ∈ rs, p.value = r.value) :
    Reshapes [r] rs := by
  rintro a b ⟨hfirst, hne, hend⟩
  subst hfirst
  have hb : r.lastOffset + 1 = b := hend
  subst hb
  refine ⟨htiles, fun o => ?_⟩
  by_cases hcov : r.Covers o
  · obtain ⟨v, hv⟩ := htiles.lookup_isSome hcov.1 (by have := hcov.2; omega)
    obtain ⟨p, hp, -, hpv⟩ := exists_of_lookup hv
    rw [hv, lookup, if_pos hcov, ← hpv, hvalue p hp]
  · have hout : o < r.firstOffset ∨ r.lastOffset + 1 ≤ o := by
      by_contra hin
      exact hcov ⟨by omega, by omega⟩
    rw [htiles.lookup_eq_none hout, lookup, if_neg hcov]
    rfl

/-- No run lies on both sides of `c`. -/
def Clean (rs : List (Run α)) (c : Int) : Prop :=
  ∀ r ∈ rs, r.lastOffset < c ∨ c ≤ r.firstOffset

theorem Clean.inside {first last : Int} (hfirst : Clean rs first)
    (hlast : Clean rs (last + 1)) (hr : r ∈ rs) (hlow : first ≤ r.lastOffset)
    (hhigh : r.firstOffset ≤ last) : first ≤ r.firstOffset ∧ r.lastOffset ≤ last := by
  have h₁ := hfirst r hr
  have h₂ := hlast r hr
  omega

theorem Reshapes.weigh_eq (h : Reshapes xs ys)
    (htiles : Tiles xs a b) (p : α → Bool) : weigh p ys = weigh p xs := by
  obtain ⟨hys, hlookup⟩ := h a b htiles
  rw [hys.weigh_eq_card, htiles.weigh_eq_card]
  simp only [hlookup]

theorem Reshapes.exists_value (h : Reshapes xs ys)
    (htiles : Tiles xs a b) (hr : r ∈ ys) : ∃ r' ∈ xs, r'.value = r.value := by
  obtain ⟨hys, hlookup⟩ := h a b htiles
  have hfirst := hys.lookup_first hr
  rw [hlookup] at hfirst
  obtain ⟨r', hr', -, hvalue⟩ := exists_of_lookup hfirst
  exact ⟨r', hr', hvalue⟩

/-! ## Changes of the values -/

theorem lookup_turned_of_covers (h : r.Covers o) (v : α)
    (rs : List (Run α)) : lookup ({ r with value := v } :: rs) o = some v :=
  if_pos (show ({ r with value := v } : Run α).Covers o from h)

theorem lookup_turned_of_not (h : ¬ r.Covers o) (v : α)
    (rs : List (Run α)) : lookup ({ r with value := v } :: rs) o = lookup rs o :=
  if_neg (show ¬ ({ r with value := v } : Run α).Covers o from h)

/-- One walk over the runs in which some of them get a new value.  `T k r v k'`
allows the run `r` the value `v` when the accumulator goes from `k` to `k'`. -/
inductive Pass (T : σ → Run α → α → σ → Prop) : σ → List (Run α) → List (Run α) → σ → Prop
  | nil {k} : Pass T k [] [] k
  | keep {k r rs rs' k'} (h : Pass T k rs rs' k') : Pass T k (r :: rs) (r :: rs') k'
  | turn {k r v k₁ rs rs' k'} (hturn : T k r v k₁) (h : Pass T k₁ rs rs' k') :
      Pass T k (r :: rs) ({ r with value := v } :: rs') k'

variable {T : σ → Run α → α → σ → Prop}

theorem Pass.refl (k : σ) (rs : List (Run α)) : Pass T k rs rs k := by
  induction rs with
  | nil => exact .nil
  | cons r rs ih => exact .keep ih

variable {k k' : σ}

theorem Pass.append {k₁ : σ} {xs' ys' : List (Run α)} (h : Pass T k xs xs' k₁)
    (h' : Pass T k₁ ys ys' k') : Pass T k (xs ++ ys) (xs' ++ ys') k' := by
  induction h with
  | nil => exact h'
  | keep _ ih => exact .keep (ih h')
  | turn hturn _ ih => exact .turn hturn (ih h')

variable {rs' : List (Run α)}

theorem Pass.acc {P : σ → Prop} (hkeep : ∀ k r v k', P k → T k r v k' → P k')
    (h : Pass T k rs rs' k') (hk : P k) : P k' := by
  induction h with
  | nil => exact hk
  | keep _ ih => exact ih hk
  | turn hturn _ ih => exact ih (hkeep _ _ _ _ hk hturn)

theorem Pass.tiles (h : Pass T k rs rs' k') (htiles : Tiles rs a b) : Tiles rs' a b := by
  induction h generalizing a with
  | nil => exact htiles
  | keep _ ih | turn _ _ ih => exact ⟨htiles.1, htiles.2.1, ih htiles.2.2⟩

theorem Pass.lookup (h : Pass T k rs rs' k') (o : Int) :
    Run.lookup rs' o = Run.lookup rs o ∨
      ∃ k₁ r v k₂, T k₁ r v k₂ ∧ r.Covers o ∧ Run.lookup rs o = some r.value ∧
        Run.lookup rs' o = some v := by
  induction h with
  | nil => exact .inl rfl
  | @keep _ r _ _ _ _ ih =>
    simp only [Run.lookup]
    by_cases hcov : r.Covers o
    · exact .inl (by rw [if_pos hcov, if_pos hcov])
    · rw [if_neg hcov, if_neg hcov]
      exact ih
  | @turn k r v k₁ rs rs' _ hturn _ ih =>
    simp only [Run.lookup]
    by_cases hcov : r.Covers o
    · refine .inr ⟨k, r, v, k₁, hturn, hcov, if_pos hcov, ?_⟩
      rw [if_pos (show ({ r with value := v } : Run α).Covers o from hcov)]
    · rw [if_neg hcov, if_neg (show ¬ ({ r with value := v } : Run α).Covers o from hcov)]
      exact ih

theorem Pass.exists_value (h : Pass T k rs rs' k') {r' : Run α}
    (hr' : r' ∈ rs') : r' ∈ rs ∨ ∃ k₁ r k₂, r ∈ rs ∧ T k₁ r r'.value k₂ := by
  induction h with
  | nil => exact .inl hr'
  | keep _ ih =>
    rcases mem_cons.mp hr' with rfl | htail
    · exact .inl mem_cons_self
    · rcases ih htail with hmem | ⟨k₁, r, k₂, hr, hT⟩
      · exact .inl (mem_cons_of_mem _ hmem)
      · exact .inr ⟨k₁, r, k₂, mem_cons_of_mem _ hr, hT⟩
  | turn hturn _ ih =>
    rcases mem_cons.mp hr' with rfl | htail
    · exact .inr ⟨_, _, _, mem_cons_self, hturn⟩
    · rcases ih htail with hmem | ⟨k₁, r, k₂, hr, hT⟩
      · exact .inl (mem_cons_of_mem _ hmem)
      · exact .inr ⟨k₁, r, k₂, mem_cons_of_mem _ hr, hT⟩

/-- The walk of a function over the runs. -/
def sweep (f : σ → Run α → α × σ) : σ → List (Run α) → List (Run α) × σ
  | k, [] => ([], k)
  | k, r :: rs =>
    let (v, k₁) := f k r
    let (rs', k') := sweep f k₁ rs
    ({ r with value := v } :: rs', k')

variable {f : σ → Run α → α × σ}

theorem sweep_pass (hf : ∀ k, ∀ r ∈ rs, f k r = (r.value, k) ∨ T k r (f k r).1 (f k r).2) (k : σ) :
    Pass T k rs (sweep f k rs).1 (sweep f k rs).2 := by
  induction rs generalizing k with
  | nil => exact .nil
  | cons r rs ih =>
    have hrest := ih fun k r' hr' => hf k r' (mem_cons_of_mem r hr')
    rcases hf k r mem_cons_self with hsame | hturn
    · simp only [sweep, hsame]
      exact .keep (hrest k)
    · exact .turn hturn (hrest _)

theorem sweep_lookup (h : Tiles rs a b) (hr : r ∈ rs) (hcov : r.Covers o) (k : σ) :
    ∃ k', Run.lookup (sweep f k rs).1 o = some (f k' r).1 := by
  induction rs generalizing a k with
  | nil => cases hr
  | cons c rs ih =>
    obtain ⟨-, -, hrest⟩ := h
    rcases mem_cons.mp hr with rfl | hr
    · exact ⟨k, if_pos hcov⟩
    · obtain ⟨k', hk'⟩ := ih hrest hr (f k c).2
      have hlow := (hrest.lookup_bounds (hrest.lookup_of_mem hr hcov)).1
      have hout : ¬ ({ c with value := (f k c).1 } : Run α).Covers o :=
        fun hc => absurd hc.2 (by dsimp only; omega)
      exact ⟨k', (if_neg hout).trans hk'⟩

theorem sweep_same (hf : ∀ r ∈ rs, f k r = (r.value, k)) : sweep f k rs = (rs, k) := by
  induction rs with
  | nil => rfl
  | cons r rs ih =>
    rw [sweep, hf r mem_cons_self]
    dsimp only
    rw [ih fun r' hr' => hf r' (mem_cons_of_mem r hr')]

theorem sweep_acc {P : σ → Prop} (hkeep : ∀ k r, P k → P (f k r).2) (rs : List (Run α))
    (hk : P k) : P (sweep f k rs).2 := by
  induction rs generalizing k with
  | nil => exact hk
  | cons r rs ih => exact ih (hkeep k r hk)

/-- Runs are cut and joined, given new values in one walk, and cut and joined
again. -/
def Rewrites (T : σ → Run α → α → σ → Prop) (k : σ) (rs rs' : List (Run α)) (k' : σ) : Prop :=
  ∃ rs₁ rs₂, Reshapes rs rs₁ ∧ Pass T k rs₁ rs₂ k' ∧ Reshapes rs₂ rs'

theorem Reshapes.rewrites (h : Reshapes rs rs') (k : σ) : Rewrites T k rs rs' k :=
  ⟨rs, rs, .refl rs, .refl k rs, h⟩

theorem Pass.rewrites (h : Pass T k rs rs' k') : Rewrites T k rs rs' k' :=
  ⟨rs, rs', .refl rs, h, .refl rs'⟩

theorem Rewrites.before {rs₀ : List (Run α)} (h₀ : Reshapes rs₀ rs)
    (h : Rewrites T k rs rs' k') : Rewrites T k rs₀ rs' k' := by
  obtain ⟨rs₁, rs₂, h₁, hpass, h₂⟩ := h
  exact ⟨rs₁, rs₂, h₀.trans h₁, hpass, h₂⟩

theorem Rewrites.after {rs'' : List (Run α)} (h : Rewrites T k rs rs' k')
    (h' : Reshapes rs' rs'') : Rewrites T k rs rs'' k' := by
  obtain ⟨rs₁, rs₂, h₁, hpass, h₂⟩ := h
  exact ⟨rs₁, rs₂, h₁, hpass, h₂.trans h'⟩

theorem Rewrites.lookup (h : Rewrites T k rs rs' k') (htiles : Tiles rs a b) (o : Int) :
    Run.lookup rs' o = Run.lookup rs o ∨
      ∃ k₁ r v k₂, T k₁ r v k₂ ∧ r.Covers o ∧ Run.lookup rs o = some r.value ∧
        Run.lookup rs' o = some v := by
  obtain ⟨rs₁, rs₂, h₁, hpass, h₂⟩ := h
  obtain ⟨htiles₁, hlookup₁⟩ := h₁ a b htiles
  obtain ⟨-, hlookup₂⟩ := h₂ a b (hpass.tiles htiles₁)
  rw [hlookup₂, ← hlookup₁]
  exact hpass.lookup o

/-! ## Another reading of the values -/

variable {β : Type}

def mapValue (f : α → β) (r : Run α) : Run β := ⟨r.firstOffset, r.lastOffset, f r.value⟩

theorem tiles_mapValue (f : α → β) : Tiles (rs.map (mapValue f)) a b ↔ Tiles rs a b := by
  induction rs generalizing a with
  | nil => rfl
  | cons r rs ih => simp only [map_cons, Tiles, mapValue, ih]

theorem lookup_mapValue (f : α → β) (rs : List (Run α)) (o : Int) :
    lookup (rs.map (mapValue f)) o = (lookup rs o).map f := by
  induction rs with
  | nil => rfl
  | cons r rs ih =>
    simp only [map_cons, lookup, ih]
    by_cases hcov : r.Covers o
    · rw [if_pos hcov, if_pos (show (mapValue f r).Covers o from hcov)]
      rfl
    · rw [if_neg hcov, if_neg (show ¬ (mapValue f r).Covers o from hcov)]

theorem Tiles.foldl_max (h : Tiles rs a b) :
    rs.foldl (fun e r => max e (r.lastOffset + 1)) a = b := by
  induction rs generalizing a with
  | nil => exact h
  | cons r rs ih =>
    obtain ⟨hfirst, hne, hrest⟩ := h
    rw [foldl_cons, max_eq_right (by omega)]
    exact ih hrest

end Run

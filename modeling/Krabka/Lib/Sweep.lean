import Krabka.Lib.RunList
import Krabka.Lib.SortedMap
import Mathlib.Data.List.SplitBy
import Mathlib.Order.OrderDual

/-!
# Merging overlapping runs by priority

`merge` takes runs that may overlap and returns ordered runs that cover the same
positions, where the greatest value wins at each position.  It is a sweep: the
boundaries of the runs are sorted, and between two boundaries the set of
active values does not change, so one run with the greatest of them is put out.

`winner` is the specification, read off the input position by position.
`merge_lookup` says that the sweep computes it, and `merge_merged` that no two
neighbours of the result could be one run.
-/

namespace Run

open SortedMap
open List hiding contains

variable {α : Type} [LinearOrder α]

/-! ## The sweep -/

/-- A run begins at the position, or ends right before it. -/
structure Boundary (α : Type) where
  offset : Int
  isBegin : Bool
  priority : α

def boundaries (rs : List (Run α)) : List (Boundary α) :=
  rs.flatMap fun r => [⟨r.firstOffset, true, r.value⟩, ⟨r.lastOffset + 1, false, r.value⟩]

/-- By position, the ends before the begins. -/
def Boundary.Le (a b : Boundary α) : Prop :=
  a.offset < b.offset ∨ a.offset = b.offset ∧ a.isBegin ≤ b.isBegin

instance (a b : Boundary α) : Decidable (a.Le b) := inferInstanceAs (Decidable (_ ∨ _))

/-- How many active runs have each value, with the greatest value first. -/
abbrev Active (α : Type) [LinearOrder α] := SortedMap αᵒᵈ Nat

def Active.bump (active : Active α) (e : Boundary α) : Active α :=
  if e.isBegin then
    active.insert (.toDual e.priority) ((active.get? (.toDual e.priority)).getD 0 + 1)
  else
    match active.get? (.toDual e.priority) with
    | some count =>
      if count - 1 = 0 then active.erase (.toDual e.priority)
      else active.insert (.toDual e.priority) (count - 1)
    | none => active

/-- The greatest active value. -/
def Active.first (active : Active α) : Option α := active.keys.head?.map OrderDual.ofDual

/-- Adds a run behind the others, as a part of the last one where they fit. -/
def appendCoalesced (out : List (Run α)) (first last : Int) (value : α) : List (Run α) :=
  match out.getLast? with
  | some tail =>
    if tail.lastOffset + 1 = first ∧ tail.value = value then
      out.dropLast ++ [{ tail with lastOffset := last }]
    else out ++ [⟨first, last, value⟩]
  | none => out ++ [⟨first, last, value⟩]

structure SweepState (α : Type) [LinearOrder α] where
  active : Active α
  out : List (Run α)
  openFrom : Int
  openWinner : Option α

/-- The boundaries at one position. -/
def SweepState.step (s : SweepState α) (group : List (Boundary α)) : SweepState α :=
  match group with
  | [] => s
  | e :: _ =>
    let active := group.foldl Active.bump s.active
    { active := active
      out :=
        match s.openWinner with
        | some value =>
          if s.openFrom < e.offset then appendCoalesced s.out s.openFrom (e.offset - 1) value
          else s.out
        | none => s.out
      openFrom := e.offset
      openWinner := active.first }

def merge (rs : List (Run α)) : List (Run α) :=
  ((((boundaries rs).insertionSort Boundary.Le).splitBy fun a b => a.offset == b.offset).foldl
    SweepState.step ⟨.empty, [], -1, none⟩).out

/-! ## The specification -/

/-- The runs that cover the position with the value. -/
def covering (rs : List (Run α)) (o : Int) (value : α) : Nat :=
  rs.countP fun r => r.value = value ∧ r.Covers o

/-- The greatest value at the position. -/
def winner (rs : List (Run α)) (o : Int) : Option α :=
  ((rs.filter fun r => r.Covers o).map Run.value).max?

variable {rs : List (Run α)} {o : Int}

theorem covering_pos {value : α} :
    0 < covering rs o value ↔ ∃ r ∈ rs, r.value = value ∧ r.Covers o := by
  rw [covering, countP_pos_iff]
  simp

theorem winner_eq_some {value : α} :
    winner rs o = some value ↔
      0 < covering rs o value ∧ ∀ value', 0 < covering rs o value' → value' ≤ value := by
  rw [winner, max?_eq_some_iff]
  simp only [mem_map, mem_filter, decide_eq_true_eq, covering_pos]
  constructor
  · rintro ⟨⟨r, ⟨hr, hcov⟩, rfl⟩, hmax⟩
    refine ⟨⟨r, hr, rfl, hcov⟩, ?_⟩
    rintro value' ⟨r', hr', rfl, hcov'⟩
    exact hmax _ ⟨r', ⟨hr', hcov'⟩, rfl⟩
  · rintro ⟨⟨r, hr, rfl, hcov⟩, hmax⟩
    refine ⟨⟨r, ⟨hr, hcov⟩, rfl⟩, ?_⟩
    rintro value' ⟨r', ⟨hr', hcov'⟩, rfl⟩
    exact hmax _ ⟨r', hr', rfl, hcov'⟩

theorem covering_eq_zero : (∀ value, covering rs o value = 0) ↔ ∀ r ∈ rs, ¬ r.Covers o := by
  refine ⟨fun h r hr hcov => ?_, fun h value => ?_⟩
  · exact absurd (covering_pos.mpr ⟨r, hr, rfl, hcov⟩) (by simp [h])
  · simpa [covering] using fun r hr _ => h r hr

theorem winner_eq_none : winner rs o = none ↔ ∀ r ∈ rs, ¬ r.Covers o := by
  rw [winner, max?_eq_none_iff, map_eq_nil_iff, filter_eq_nil_iff]
  simp

theorem winner_congr {rs' : List (Run α)} {o' : Int}
    (h : ∀ value, covering rs o value = covering rs' o' value) : winner rs o = winner rs' o' := by
  cases hw : winner rs' o' with
  | none =>
    rw [winner_eq_none, ← covering_eq_zero] at hw ⊢
    exact fun value => (h value).trans (hw value)
  | some value =>
    rw [winner_eq_some] at hw ⊢
    simpa only [h] using hw

/-! ## The active values -/

def Active.Counts (active : Active α) (count : α → Nat) : Prop :=
  ∀ value, active.get? (.toDual value) = if count value = 0 then none else some (count value)

variable {active : Active α} {count : α → Nat}

theorem Active.Counts.getD (h : active.Counts count)
    (value : α) : (active.get? (.toDual value)).getD 0 = count value := by
  rw [h value]
  split
  · rename_i hzero
    exact hzero.symm
  · rfl

theorem Active.Counts.mem_keys (h : active.Counts count)
    (value : α) : OrderDual.toDual value ∈ active.keys ↔ 0 < count value := by
  rw [mem_keys_iff, contains, h value]
  split <;> simp <;> omega

theorem Active.Counts.first_eq
    (h : active.Counts (covering rs o)) : active.first = winner rs o := by
  have hmem := h.mem_keys
  cases hkeys : active.keys with
  | nil =>
    rw [Active.first, hkeys]
    refine (winner_eq_none.mpr (covering_eq_zero.mp fun value => ?_)).symm
    have hnone := (hmem value).not
    rw [hkeys] at hnone
    have := hnone.mp (by simp)
    omega
  | cons key keys =>
    rw [Active.first, hkeys]
    have hsorted : (key :: keys).Pairwise (· < ·) := hkeys ▸ active.sorted
    refine (winner_eq_some.mpr ⟨(hmem _).mp ?_, fun value hvalue => ?_⟩).symm
    · rw [hkeys]
      exact mem_cons_self
    · have hin := (hmem value).mpr hvalue
      rw [hkeys] at hin
      rcases mem_cons.mp hin with heq | hin
      · exact le_of_eq (congrArg OrderDual.ofDual heq)
      · exact le_of_lt ((pairwise_cons.mp hsorted).1 _ hin)

/-- The begins, or the ends, of a value in a group. -/
def tallied (group : List (Boundary α)) (isBegin : Bool) (value : α) : Nat :=
  group.countP fun e => e.isBegin = isBegin ∧ e.priority = value

theorem tallied_cons (e : Boundary α) (group : List (Boundary α)) (isBegin : Bool) (value : α) :
    tallied (e :: group) isBegin value =
      tallied group isBegin value + if e.isBegin = isBegin ∧ e.priority = value then 1 else 0 := by
  rw [tallied, countP_cons]
  simp [tallied]

theorem Active.Counts.bump (h : active.Counts count)
    (e : Boundary α) (hpos : e.isBegin = false → 0 < count e.priority) :
    (active.bump e).Counts fun value =>
      if value = e.priority then (if e.isBegin then count value + 1 else count value - 1)
      else count value := by
  intro value
  have hdual : ∀ a b : α, OrderDual.toDual a = OrderDual.toDual b ↔ a = b := fun a b => Iff.rfl
  unfold Active.bump
  by_cases hbegin : e.isBegin = true
  · rw [if_pos hbegin, get?_insert, h.getD, h value]
    simp only [hdual, hbegin, if_true]
    by_cases heq : value = e.priority
    · subst heq
      simp
    · simp [heq]
  · have hcount := hpos (by simpa using hbegin)
    rw [if_neg hbegin, h e.priority, if_neg (by omega)]
    dsimp only
    by_cases hone : count e.priority - 1 = 0
    · rw [if_pos hone, erase, get?_retain, h value]
      by_cases heq : value = e.priority
      · subst heq
        simp [hbegin, hone]
      · have hne : OrderDual.toDual value ≠ OrderDual.toDual e.priority := heq
        simp [heq, hne]
    · rw [if_neg hone, get?_insert, h value]
      by_cases heq : value = e.priority
      · subst heq
        simp [hbegin, hone]
      · have hne : OrderDual.toDual value ≠ OrderDual.toDual e.priority := heq
        simp [heq, hne]

theorem Active.Counts.foldl (h : active.Counts count)
    (group : List (Boundary α)) (hends : ∀ value, tallied group false value ≤ count value) :
    (group.foldl Active.bump active).Counts fun value =>
      count value + tallied group true value - tallied group false value := by
  induction group generalizing active count with
  | nil => simpa [tallied] using h
  | cons e group ih =>
    have hstep := h.bump e fun hend => by
      have hle := hends e.priority
      rw [tallied_cons, if_pos ⟨hend, rfl⟩] at hle
      omega
    have hrest := ih hstep fun value => by
      have hle := hends value
      rw [tallied_cons] at hle
      grind
    rw [foldl_cons]
    refine cast (congrArg (Active.Counts _) (funext fun value => ?_)) hrest
    have hle := hends value
    rw [tallied_cons] at hle
    rw [tallied_cons, tallied_cons]
    grind

/-! ## The boundaries -/

/-- The boundaries of one kind at the position. -/
def bounding (rs : List (Run α)) (y : Int) (isBegin : Bool) (value : α) : Nat :=
  tallied ((boundaries rs).filter fun e => e.offset = y) isBegin value

theorem bounding_cons (r : Run α) (rs : List (Run α)) (y : Int) (isBegin : Bool) (value : α) :
    bounding (r :: rs) y isBegin value = bounding rs y isBegin value +
      if (if isBegin then r.firstOffset else r.lastOffset + 1) = y ∧ r.value = value then 1
      else 0 := by
  have hcons : boundaries (r :: rs) =
      ⟨r.firstOffset, true, r.value⟩ :: ⟨r.lastOffset + 1, false, r.value⟩ :: boundaries rs := rfl
  rw [bounding, hcons, filter_cons, filter_cons, bounding]
  cases isBegin <;> by_cases h₁ : r.firstOffset = y <;> by_cases h₂ : r.lastOffset + 1 = y <;>
    simp [h₁, h₂, tallied_cons]

/-- No run begins or ends between the positions. -/
def Quiet (rs : List (Run α)) (x y : Int) : Prop :=
  ∀ e ∈ boundaries rs, e.offset ≤ x ∨ y ≤ e.offset

omit [LinearOrder α] in
theorem quiet_cons {r : Run α} {x y : Int} :
    Quiet (r :: rs) x y ↔ (r.firstOffset ≤ x ∨ y ≤ r.firstOffset) ∧
      (r.lastOffset + 1 ≤ x ∨ y ≤ r.lastOffset + 1) ∧ Quiet rs x y := by
  have hcons : boundaries (r :: rs) =
      ⟨r.firstOffset, true, r.value⟩ :: ⟨r.lastOffset + 1, false, r.value⟩ :: boundaries rs := rfl
  rw [Quiet, hcons, forall_mem_cons, forall_mem_cons, Quiet]

theorem covering_cons (r : Run α) (rs : List (Run α)) (o : Int) (value : α) :
    covering (r :: rs) o value =
      covering rs o value + if r.value = value ∧ r.Covers o then 1 else 0 := by
  rw [covering, countP_cons]
  simp [covering]

section

variable {rs : List (Run α)} {x y : Int}

theorem Quiet.covering_eq (h : Quiet rs x y) {o : Int} (hx : x ≤ o) (hy : o < y) (value : α) :
    covering rs o value = covering rs x value := by
  induction rs with
  | nil => rfl
  | cons r rs ih =>
    obtain ⟨hfirst, hlast, hrest⟩ := quiet_cons.mp h
    have hcov : r.Covers o ↔ r.Covers x := by
      constructor
      · rintro ⟨h₁, h₂⟩
        exact ⟨by omega, by omega⟩
      · rintro ⟨h₁, h₂⟩
        exact ⟨by omega, by omega⟩
    rw [covering_cons, covering_cons, ih hrest]
    simp only [hcov]

theorem Quiet.covering_next (h : Quiet rs x y) (hxy : x < y)
    (hne : ∀ r ∈ rs, r.firstOffset ≤ r.lastOffset) (value : α) :
    covering rs y value + bounding rs y false value =
        covering rs x value + bounding rs y true value ∧
      bounding rs y false value ≤ covering rs x value := by
  induction rs with
  | nil => simp [covering, bounding, tallied, boundaries]
  | cons r rs ih =>
    obtain ⟨hfirst, hlast, hrest⟩ := quiet_cons.mp h
    have hr := hne r mem_cons_self
    obtain ⟨heq, hle⟩ := ih hrest fun r' hr' => hne r' (mem_cons_of_mem r hr')
    rw [covering_cons, covering_cons, bounding_cons, bounding_cons]
    by_cases hvalue : r.value = value
    · simp only [hvalue, true_and, and_true, Covers, if_true, Bool.false_eq_true, if_false]
      split_ifs <;> omega
    · simp only [hvalue, false_and, and_false, if_false]
      omega

end

/-! ## The groups -/

/-- Groups of boundaries with one position each, in order. -/
def Grouped : List (List (Boundary α)) → Prop
  | [] => True
  | group :: groups =>
    (∃ y, group ≠ [] ∧ (∀ e ∈ group, e.offset = y) ∧ ∀ e ∈ groups.flatten, y < e.offset) ∧
      Grouped groups

omit [LinearOrder α] in
theorem grouped_of_chunks {groups : List (List (Boundary α))}
    (hsorted : groups.flatten.Pairwise fun a b => a.offset ≤ b.offset)
    (hne : ∀ group ∈ groups, group ≠ [])
    (hsame : ∀ group ∈ groups, group.IsChain fun a b => (a.offset == b.offset) = true)
    (hnext : groups.IsChain fun a b =>
      ∃ ha hb, ((a.getLast ha).offset == (b.head hb).offset) = false) : Grouped groups := by
  induction groups with
  | nil => trivial
  | cons group groups ih =>
    rw [flatten_cons, pairwise_append] at hsorted
    obtain ⟨hgroup, hrest, hle⟩ := hsorted
    have hgroups := ih hrest (fun g hg => hne g (mem_cons_of_mem _ hg))
      (fun g hg => hsame g (mem_cons_of_mem _ hg)) hnext.tail
    obtain ⟨e₀, tail, rfl⟩ := exists_cons_of_ne_nil (hne group mem_cons_self)
    -- The group has one position: its members are pairwise equal.
    have hconst : ∀ e ∈ e₀ :: tail, e.offset = e₀.offset := by
      have hchain : (e₀ :: tail).Pairwise fun a b => a.offset = b.offset := by
        have hc := (hsame _ mem_cons_self).imp fun a b h => (beq_iff_eq.mp h : a.offset = b.offset)
        exact isChain_iff_pairwise.mp hc
      intro e he
      rcases mem_cons.mp he with rfl | he
      · rfl
      · exact ((pairwise_cons.mp hchain).1 e he).symm
    refine ⟨⟨e₀.offset, by simp, hconst, fun e he => ?_⟩, hgroups⟩
    cases groups with
    | nil => simp at he
    | cons next groups =>
      obtain ⟨ha, hb, hneq⟩ := (isChain_cons_cons.mp hnext).1
      obtain ⟨e₁, rest, rfl⟩ := exists_cons_of_ne_nil hb
      have hlast := hconst _ (getLast_mem ha)
      have hlow := hle _ (getLast_mem ha) e₁ (by simp)
      have hhigh : e₁.offset ≤ e.offset := by
        rw [flatten_cons, cons_append] at he hrest
        rcases mem_cons.mp he with rfl | he
        · exact le_rfl
        · exact (pairwise_cons.mp hrest).1 e he
      simp only [head_cons, beq_eq_false_iff_ne, ne_eq] at hneq
      omega

omit [LinearOrder α] in
theorem sorted_boundaries (rs : List (Run α)) :
    ((boundaries rs).insertionSort Boundary.Le).Pairwise fun a b => a.offset ≤ b.offset := by
  have : Std.Total (α := Boundary α) Boundary.Le := ⟨fun a b => by
    rcases lt_trichotomy a.offset b.offset with h | h | h
    · exact .inl (.inl h)
    · rcases le_total a.isBegin b.isBegin with h' | h'
      · exact .inl (.inr ⟨h, h'⟩)
      · exact .inr (.inr ⟨h.symm, h'⟩)
    · exact .inr (.inl h)⟩
  have : IsTrans (Boundary α) Boundary.Le := ⟨fun a b c hab hbc => by
    rcases hab with h | ⟨h, h'⟩ <;> rcases hbc with k | ⟨k, k'⟩
    · exact .inl (h.trans k)
    · exact .inl (k ▸ h)
    · exact .inl (h ▸ k)
    · exact .inr ⟨h.trans k, h'.trans k'⟩⟩
  refine (pairwise_insertionSort Boundary.Le (boundaries rs)).imp fun h => ?_
  rcases h with h | h
  · exact le_of_lt h
  · exact le_of_eq h.1

/-! ## The result of a sweep -/

/-- Non-empty runs in order, which need not be adjacent. -/
def Ordered (rs : List (Run α)) : Prop :=
  rs.Pairwise (fun r r' => r.lastOffset < r'.firstOffset) ∧
    ∀ r ∈ rs, r.firstOffset ≤ r.lastOffset

omit [LinearOrder α] in
theorem Ordered.tiles {a b : Int} (h : Ordered rs) (hab : a ≤ b)
    (hdom : ∀ o, (lookup rs o).isSome ↔ a ≤ o ∧ o < b) : Tiles rs a b := by
  induction rs generalizing a with
  | nil =>
    by_contra hne
    have hsome := (hdom a).mpr ⟨le_refl a, lt_of_le_of_ne hab hne⟩
    exact absurd hsome (by simp [lookup])
  | cons r rs ih =>
    obtain ⟨hpairs, hne⟩ := h
    obtain ⟨hhead, hpairs⟩ := pairwise_cons.mp hpairs
    have hr := hne r mem_cons_self
    have hbehind : ∀ {o v}, lookup rs o = some v → r.lastOffset < o := by
      intro o v hv
      obtain ⟨r', hr', hcov, -⟩ := exists_of_lookup hv
      have := hhead r' hr'
      have := hcov.1
      omega
    have hlast := (hdom r.lastOffset).mp (by rw [lookup_of_covers ⟨hr, le_rfl⟩]; rfl)
    have hfirst : r.firstOffset = a := by
      have hge := (hdom r.firstOffset).mp (by rw [lookup_of_covers ⟨le_rfl, hr⟩]; rfl)
      by_contra hlt
      have hnot : ¬ r.Covers a := fun hcov => hlt (le_antisymm hcov.1 hge.1)
      have hsome := (hdom a).mpr ⟨le_refl a, by omega⟩
      rw [lookup_of_not hnot] at hsome
      obtain ⟨v, hv⟩ := Option.isSome_iff_exists.mp hsome
      have := hbehind hv
      omega
    refine ⟨hfirst, hr, ih ⟨hpairs, fun r' hr' => hne r' (mem_cons_of_mem r hr')⟩ (by omega)
      fun o => ⟨fun hsome => ?_, fun hin => ?_⟩⟩
    · obtain ⟨v, hv⟩ := Option.isSome_iff_exists.mp hsome
      have hgt := hbehind hv
      have hnot : ¬ r.Covers o := fun hcov => absurd hcov.2 (by omega)
      have hall := (hdom o).mp (by rw [lookup_of_not hnot, hv]; rfl)
      exact ⟨by omega, hall.2⟩
    · have hnot : ¬ r.Covers o := fun hcov => absurd hcov.2 (by omega)
      have hall := (hdom o).mpr ⟨by omega, hin.2⟩
      rwa [lookup_of_not hnot] at hall

section

variable {out : List (Run α)} {first last : Int} (value : α)

theorem appendCoalesced_cases (out : List (Run α)) (first last : Int) :
    appendCoalesced out first last value = out ++ [⟨first, last, value⟩] ∨
      ∃ init tail, out = init ++ [tail] ∧ tail.lastOffset + 1 = first ∧ tail.value = value ∧
        appendCoalesced out first last value = init ++ [{ tail with lastOffset := last }] := by
  rcases eq_nil_or_concat out with rfl | ⟨init, tail, hout⟩
  · exact .inl rfl
  · rw [concat_eq_append] at hout
    subst hout
    rw [appendCoalesced, getLast?_concat, dropLast_concat]
    dsimp only
    by_cases hfits : tail.lastOffset + 1 = first ∧ tail.value = value
    · rw [if_pos hfits]
      exact .inr ⟨init, tail, rfl, hfits.1, hfits.2, rfl⟩
    · rw [if_neg hfits]
      exact .inl rfl

theorem lookup_appendCoalesced (hbelow : ∀ r ∈ out, r.lastOffset < first) (hfl : first ≤ last)
    (hne : ∀ r ∈ out, r.firstOffset ≤ r.lastOffset) (o : Int) :
    lookup (appendCoalesced out first last value) o =
      if first ≤ o ∧ o ≤ last then some value else lookup out o := by
  have hnone : ∀ {rs : List (Run α)}, (∀ r ∈ rs, r.lastOffset < first) → first ≤ o →
      lookup rs o = none := by
    intro rs hrs ho
    refine lookup_eq_none.mpr fun r hr hcov => ?_
    have := hrs r hr
    have := hcov.2
    omega
  rcases appendCoalesced_cases value out first last with
    h | ⟨init, tail, rfl, hfirst, rfl, h⟩
  · rw [h, lookup_append]
    by_cases hin : first ≤ o ∧ o ≤ last
    · rw [if_pos hin, hnone hbelow hin.1, lookup_of_covers (r := ⟨first, last, value⟩) hin]
      rfl
    · rw [if_neg hin, lookup_of_not (r := ⟨first, last, value⟩) hin]
      simp [lookup]
  · have hinit := fun r hr => hbelow r (mem_append_left _ hr)
    have htail := hne tail (by simp)
    rw [h, lookup_append, lookup_append]
    by_cases hin : first ≤ o ∧ o ≤ last
    · have hcov : ({ tail with lastOffset := last } : Run α).Covers o :=
        ⟨by dsimp only; omega, hin.2⟩
      rw [if_pos hin, hnone hinit hin.1, lookup_of_covers hcov]
      rfl
    · have hcov : ({ tail with lastOffset := last } : Run α).Covers o ↔ tail.Covers o := by
        constructor
        · rintro ⟨h₁, h₂⟩
          exact ⟨h₁, by dsimp only at h₂; omega⟩
        · rintro ⟨h₁, h₂⟩
          exact ⟨h₁, by dsimp only; omega⟩
      rw [if_neg hin]
      simp only [lookup, hcov]

omit [LinearOrder α] in
theorem Ordered.concat {init : List (Run α)} {tail : Run α} (h : Ordered init)
    (hbelow : ∀ r ∈ init, r.lastOffset < tail.firstOffset)
    (hne : tail.firstOffset ≤ tail.lastOffset) :
    Ordered (init ++ [tail]) ∧ ∀ r ∈ init ++ [tail], r.lastOffset ≤ tail.lastOffset := by
  refine ⟨⟨pairwise_append.mpr ⟨h.1, by simp, by simpa using hbelow⟩, fun r hr => ?_⟩,
    fun r hr => ?_⟩
  · rcases mem_append.mp hr with hr | hr
    · exact h.2 r hr
    · rwa [mem_singleton.mp hr]
  · rcases mem_append.mp hr with hr | hr
    · have := hbelow r hr
      omega
    · rw [mem_singleton.mp hr]

theorem ordered_appendCoalesced (h : Ordered out) (hbelow : ∀ r ∈ out, r.lastOffset < first)
    (hfl : first ≤ last) :
    Ordered (appendCoalesced out first last value) ∧
      ∀ r ∈ appendCoalesced out first last value, r.lastOffset ≤ last := by
  rcases appendCoalesced_cases value out first last with
    h' | ⟨init, tail, rfl, hfirst, rfl, h'⟩ <;> rw [h']
  · exact h.concat hbelow hfl
  · obtain ⟨hinit, -, hacross⟩ := pairwise_append.mp h.1
    have htail := h.2 tail (by simp)
    exact Ordered.concat ⟨hinit, fun r hr => h.2 r (mem_append_left _ hr)⟩
      (fun r hr => hacross r hr tail (by simp)) (by dsimp only; omega)

end

/-- The state of the sweep of `rs` when the boundaries up to `x` are taken: what
lies below `x` is put out. -/
structure Swept (rs : List (Run α)) (x : Int) (s : SweepState α) : Prop where
  counts : s.active.Counts (covering rs x)
  current : s.openWinner = winner rs x
  openFrom : s.openWinner ≠ none → s.openFrom = x
  ordered : Ordered s.out
  below : ∀ r ∈ s.out, r.lastOffset < x
  lookup : ∀ o < x, lookup s.out o = winner rs o

section

variable {rs : List (Run α)} {x y : Int} {s : SweepState α}

theorem Swept.step (h : Swept rs x s) (hne : ∀ r ∈ rs, r.firstOffset ≤ r.lastOffset)
    (hxy : x < y) (hquiet : Quiet rs x y) {group : List (Boundary α)} (hgroup : group ≠ [])
    (hat : ∀ e ∈ group, e.offset = y)
    (hall : group.Perm ((boundaries rs).filter fun e => e.offset = y)) :
    Swept rs y (s.step group) := by
  obtain ⟨e, tail, rfl⟩ := exists_cons_of_ne_nil hgroup
  have he := hat e mem_cons_self
  have htally : ∀ isBegin value, tallied (e :: tail) isBegin value = bounding rs y isBegin value :=
    fun isBegin value => hall.countP_eq _
  have hnext := hquiet.covering_next hxy hne
  have hcounts : ((e :: tail).foldl Active.bump s.active).Counts (covering rs y) := by
    have hfold := h.counts.foldl (e :: tail) fun value => by
      rw [htally]
      exact (hnext value).2
    refine cast (congrArg (Active.Counts _) (funext fun value => ?_)) hfold
    have := (hnext value).1
    rw [htally, htally]
    omega
  -- From the last boundary up to this one the winner is the open one.
  have hwin : ∀ o, x ≤ o → o < y → winner rs o = s.openWinner := fun o hx hy =>
    (winner_congr (hquiet.covering_eq hx hy)).trans h.current.symm
  cases hopen : s.openWinner with
  | none =>
    have hout : (s.step (e :: tail)).out = s.out := by simp [SweepState.step, hopen]
    refine ⟨hcounts, hcounts.first_eq, fun _ => he, hout ▸ h.ordered, ?_, ?_⟩
    · rw [hout]
      exact fun r hr => (h.below r hr).trans hxy
    · intro o ho
      rw [hout]
      by_cases hlow : o < x
      · exact h.lookup o hlow
      · rw [hwin o (by omega) ho, hopen]
        refine lookup_eq_none.mpr fun r hr hcov => ?_
        have := h.below r hr
        have := hcov.2
        omega
  | some value =>
    have hfrom := h.openFrom (by simp [hopen])
    have hout : (s.step (e :: tail)).out = appendCoalesced s.out x (y - 1) value := by
      simp [SweepState.step, hopen, hfrom, he, hxy]
    obtain ⟨hordered, hbelow⟩ := ordered_appendCoalesced value h.ordered h.below
      (show x ≤ y - 1 by omega)
    refine ⟨hcounts, hcounts.first_eq, fun _ => he, hout ▸ hordered, ?_, ?_⟩
    · rw [hout]
      intro r hr
      have := hbelow r hr
      omega
    · intro o ho
      rw [hout, lookup_appendCoalesced value h.below (by omega) h.ordered.2]
      by_cases hlow : o < x
      · rw [if_neg (by omega)]
        exact h.lookup o hlow
      · rw [if_pos (by omega), hwin o (by omega) ho, hopen]

theorem Swept.foldl (h : Swept rs x s) (hne : ∀ r ∈ rs, r.firstOffset ≤ r.lastOffset)
    {groups : List (List (Boundary α))} (hgroups : Grouped groups)
    (hall : groups.flatten.Perm ((boundaries rs).filter fun e => x < e.offset)) :
    ∃ y, (∀ e ∈ boundaries rs, e.offset ≤ y) ∧ Swept rs y (groups.foldl SweepState.step s) := by
  induction groups generalizing x s with
  | nil =>
    refine ⟨x, fun e he => ?_, h⟩
    have hnil := filter_eq_nil_iff.mp hall.nil_eq.symm e he
    simpa using hnil
  | cons group groups ih =>
    obtain ⟨⟨y, hgroup, hat, hlater⟩, hrest⟩ := hgroups
    rw [flatten_cons] at hall
    obtain ⟨e₀, he₀⟩ := exists_mem_of_ne_nil group hgroup
    have hxy : x < y := by
      have hmem := hall.mem_iff.mp (mem_append_left _ he₀)
      have := (mem_filter.mp hmem).2
      rw [hat e₀ he₀] at this
      simpa using this
    have hquiet : Quiet rs x y := by
      intro e he
      by_cases hx : e.offset ≤ x
      · exact .inl hx
      · have hmem := hall.mem_iff.mpr (mem_filter.mpr ⟨he, by simpa using hx⟩)
        rcases mem_append.mp hmem with hmem | hmem
        · exact .inr (le_of_eq (hat e hmem).symm)
        · exact .inr (le_of_lt (hlater e hmem))
    -- Both parts of what remains are found by their positions.
    have hhere : group.Perm ((boundaries rs).filter fun e => e.offset = y) := by
      have hfilter := hall.filter fun e => e.offset = y
      rw [filter_append, filter_filter, filter_eq_self.mpr (by simpa using hat),
        filter_eq_nil_iff.mpr (by
          intro e he
          have := hlater e he
          simp only [decide_eq_true_eq]
          omega), append_nil] at hfilter
      refine hfilter.trans (List.Perm.of_eq (filter_congr fun e _ => ?_))
      by_cases heq : e.offset = y
      · simp [heq, hxy]
      · simp [heq]
    have hbehind : groups.flatten.Perm ((boundaries rs).filter fun e => y < e.offset) := by
      have hfilter := hall.filter fun e => y < e.offset
      rw [filter_append, filter_filter, filter_eq_nil_iff.mpr (by
          intro e he
          rw [hat e he]
          simp), nil_append, filter_eq_self.mpr (by simpa using hlater)] at hfilter
      refine hfilter.trans (List.Perm.of_eq (filter_congr fun e _ => ?_))
      by_cases hlt : y < e.offset
      · simp [hlt, hxy.trans hlt]
      · simp [hlt]
    exact ih (h.step hne hxy hquiet hgroup hat hhere) hrest hbehind

end

omit [LinearOrder α] in
theorem exists_before (es : List (Boundary α)) : ∃ x, ∀ e ∈ es, x < e.offset := by
  induction es with
  | nil => exact ⟨0, by simp⟩
  | cons e es ih =>
    obtain ⟨x, hx⟩ := ih
    refine ⟨min x (e.offset - 1), fun e' he' => ?_⟩
    rcases mem_cons.mp he' with rfl | he'
    · omega
    · have := hx e' he'
      omega

/-- **The sweep computes the winner** at every position, in ordered runs. -/
theorem merge_lookup (hne : ∀ r ∈ rs, r.firstOffset ≤ r.lastOffset) :
    Ordered (merge rs) ∧ ∀ o, lookup (merge rs) o = winner rs o := by
  obtain ⟨x, hx⟩ := exists_before (boundaries rs)
  have hfirst : ∀ r ∈ rs, x < r.firstOffset := fun r hr =>
    hx ⟨r.firstOffset, true, r.value⟩ (mem_flatMap.mpr ⟨r, hr, by simp⟩)
  have hempty : ∀ o ≤ x, ∀ r ∈ rs, ¬ r.Covers o := by
    intro o ho r hr hcov
    have := hfirst r hr
    have := hcov.1
    omega
  have hstart : Swept rs x ⟨.empty, [], -1, none⟩ := by
    refine ⟨fun value => ?_, (winner_eq_none.mpr (hempty x (le_refl x))).symm, by simp,
      ⟨.nil, by simp⟩, by simp, fun o ho => ?_⟩
    · rw [if_pos (covering_eq_zero.mpr (hempty x (le_refl x)) value)]
      rfl
    · rw [winner_eq_none.mpr (hempty o (le_of_lt ho))]
      rfl
  have hgroups : Grouped (((boundaries rs).insertionSort Boundary.Le).splitBy
      fun a b => a.offset == b.offset) := by
    refine grouped_of_chunks ?_ (fun group hgroup => ne_nil_of_mem_splitBy hgroup)
      (fun group hgroup => isChain_of_mem_splitBy hgroup)
      (isChain_getLast_head_splitBy (fun a b : Boundary α => a.offset == b.offset) _)
    rw [flatten_splitBy]
    exact sorted_boundaries rs
  obtain ⟨y, hy, hswept⟩ := hstart.foldl hne hgroups (by
    rw [flatten_splitBy, filter_eq_self.mpr (by simpa using hx)]
    exact perm_insertionSort _ _)
  refine ⟨hswept.ordered, fun o => ?_⟩
  by_cases ho : o < y
  · exact hswept.lookup o ho
  -- Behind the last boundary nothing is put out and nothing covers.
  · rw [winner_eq_none.mpr fun r hr hcov => ?_, lookup_eq_none]
    · intro r hr hcov
      have := hswept.below r hr
      have := hcov.2
      omega
    · have hend : r.lastOffset + 1 ≤ y :=
        hy ⟨r.lastOffset + 1, false, r.value⟩ (mem_flatMap.mpr ⟨r, hr, by simp⟩)
      have := hcov.2
      omega

/-! ## Two lists of runs -/

section

variable {β : Type} {x : Run β} {xs ys : List (Run β)} {o : Int}

theorem Ordered.tail (h : Ordered (x :: xs)) : Ordered xs :=
  ⟨(pairwise_cons.mp h.1).2, fun r hr => h.2 r (mem_cons_of_mem x hr)⟩

theorem Ordered.le_of_lookup {v : β} (h : Ordered (x :: xs))
    (hv : lookup (x :: xs) o = some v) : x.firstOffset ≤ o := by
  obtain ⟨r, hr, hcov, -⟩ := exists_of_lookup hv
  rcases mem_cons.mp hr with rfl | hr
  · exact hcov.1
  · have hlt := (pairwise_cons.mp h.1).1 r hr
    have hne := h.2 x mem_cons_self
    have hlow := hcov.1
    omega

theorem Ordered.lookup_tail (h : Ordered (x :: xs)) (hcov : x.Covers o) : lookup xs o = none := by
  refine lookup_eq_none.mpr fun r hr hcov' => ?_
  have hlt := (pairwise_cons.mp h.1).1 r hr
  have hlow := hcov'.1
  have hhigh := hcov.2
  omega

/-- No two adjacent runs have the same value. -/
def Merged (rs : List (Run β)) : Prop :=
  rs.IsChain fun r r' => r.lastOffset + 1 = r'.firstOffset → r.value ≠ r'.value

theorem Merged.lookup_ne (h : Merged (x :: xs))
    (hx : Ordered (x :: xs)) : lookup (x :: xs) (x.lastOffset + 1) ≠ some x.value := by
  intro hv
  have hnot : ¬ x.Covers (x.lastOffset + 1) := fun hcov => absurd hcov.2 (by omega)
  rw [lookup_of_not hnot] at hv
  cases xs with
  | nil => cases hv
  | cons y ys =>
    have hfirst := hx.tail.le_of_lookup hv
    have hlt := (pairwise_cons.mp hx.1).1 y mem_cons_self
    have hne := hx.2 y (by simp)
    rw [lookup_of_covers ⟨hfirst, by omega⟩] at hv
    exact (isChain_cons_cons.mp h).1 (by omega) (Option.some.inj hv).symm

theorem Ordered.ext (hx : Ordered xs) (hy : Ordered ys) (hmx : Merged xs)
    (hmy : Merged ys) (h : ∀ o, lookup xs o = lookup ys o) : xs = ys := by
  have hhead : ∀ (x : Run β) (xs : List (Run β)), Ordered (x :: xs) →
      lookup (x :: xs) x.firstOffset = some x.value := fun x xs hx =>
    lookup_of_covers ⟨le_rfl, hx.2 x mem_cons_self⟩ xs
  induction xs generalizing ys with
  | nil =>
    cases ys with
    | nil => rfl
    | cons y ys => cases (h y.firstOffset).trans (hhead y ys hy)
  | cons x xs ih =>
    cases ys with
    | nil => cases (h x.firstOffset).symm.trans (hhead x xs hx)
    | cons y ys =>
      have hfirst : x.firstOffset = y.firstOffset := le_antisymm
        (hx.le_of_lookup ((h _).trans (hhead y ys hy)))
        (hy.le_of_lookup ((h _).symm.trans (hhead x xs hx)))
      have hvalue : x.value = y.value := by
        have hat := h x.firstOffset
        rw [hhead x xs hx, hfirst, hhead y ys hy] at hat
        exact Option.some.inj hat
      have hxne := hx.2 x mem_cons_self
      have hyne := hy.2 y mem_cons_self
      -- the shorter of the two would go on with the same value
      have hlast : x.lastOffset = y.lastOffset := by
        rcases lt_trichotomy x.lastOffset y.lastOffset with hlt | heq | hlt
        · refine absurd ?_ (hmx.lookup_ne hx)
          rw [h, hvalue]
          exact lookup_of_covers ⟨by omega, by omega⟩ ys
        · exact heq
        · refine absurd ?_ (hmy.lookup_ne hy)
          rw [← h, ← hvalue]
          exact lookup_of_covers ⟨by omega, by omega⟩ xs
      obtain rfl : x = y := by
        cases x
        cases y
        simp_all
      refine congrArg _ (ih hx.tail hy.tail hmx.tail hmy.tail fun o => ?_)
      by_cases hcov : x.Covers o
      · rw [hx.lookup_tail hcov, hy.lookup_tail hcov]
      · rw [← lookup_of_not hcov, h, lookup_of_not hcov]
end

omit [LinearOrder α] in
theorem Ordered.values_at (h : Ordered rs) (o : Int) :
    (rs.filter fun r => r.Covers o).map Run.value = (lookup rs o).toList := by
  induction rs with
  | nil => rfl
  | cons r rs ih =>
    obtain ⟨hhead, hpairs⟩ := pairwise_cons.mp h.1
    by_cases hcov : r.Covers o
    · have hnil : rs.filter (fun r => r.Covers o) = [] := by
        refine filter_eq_nil_iff.mpr fun r' hr' => ?_
        have := hhead r' hr'
        have := hcov.2
        simp only [decide_eq_true_eq]
        exact fun hcov' => absurd hcov'.1 (by omega)
      rw [lookup_of_covers hcov, filter_cons_of_pos (by simpa using hcov), hnil]
      rfl
    · rw [lookup_of_not hcov, filter_cons_of_neg (by simpa using hcov), ih h.tail]

omit [LinearOrder α] in
theorem Tiles.ordered {a b : Int} (h : Tiles rs a b) : Ordered rs := by
  induction rs generalizing a with
  | nil => exact ⟨.nil, by simp⟩
  | cons r rs ih =>
    obtain ⟨-, hne, hrest⟩ := h
    obtain ⟨hpairs, hrne⟩ := ih hrest
    refine ⟨pairwise_cons.mpr ⟨fun r' hr' => ?_, hpairs⟩, forall_mem_cons.mpr ⟨hne, hrne⟩⟩
    have hv := hrest.lookup_of_mem hr' ⟨le_rfl, hrne r' hr'⟩
    have := (hrest.lookup_bounds hv).1
    omega

theorem max?_append (xs ys : List α) : (xs ++ ys).max? = xs.max?.merge max ys.max? := by
  induction xs with
  | nil => simp
  | cons x xs ih =>
    rw [cons_append, max?_cons, max?_cons, ih]
    cases xs.max? <;> cases ys.max? <;> simp [max_assoc]

theorem winner_append (xs ys : List (Run α)) (o : Int) :
    winner (xs ++ ys) o = (winner xs o).merge max (winner ys o) := by
  rw [winner, filter_append, map_append, max?_append]
  rfl

theorem Ordered.winner_eq (h : Ordered rs) (o : Int) : winner rs o = lookup rs o := by
  rw [winner, h.values_at]
  cases lookup rs o <;> rfl

theorem merged_appendCoalesced {out : List (Run α)} (h : Merged out)
    (first last : Int) (value : α) :
    Merged (appendCoalesced out first last value) := by
  unfold Merged at *
  unfold appendCoalesced
  rcases eq_nil_or_concat out with rfl | ⟨init, tail, rfl⟩
  · exact .singleton _
  · rw [concat_eq_append] at h ⊢
    rw [getLast?_concat, dropLast_concat]
    dsimp only
    obtain ⟨hinit, -, hacross⟩ := isChain_append.mp h
    split
    · refine isChain_append.mpr ⟨hinit, .singleton _, ?_⟩
      simpa using hacross
    · rename_i hfits
      refine isChain_append.mpr ⟨h, .singleton _, ?_⟩
      simpa using hfits

theorem merge_merged (rs : List (Run α)) : Merged (merge rs) := by
  have hstep : ∀ (groups : List (List (Boundary α))) (s : SweepState α), Merged s.out →
      Merged (groups.foldl SweepState.step s).out := by
    intro groups
    induction groups with
    | nil => exact fun s h => h
    | cons group groups ih =>
      intro s h
      refine ih _ ?_
      unfold SweepState.step
      split
      · exact h
      dsimp only
      split
      · split
        · exact merged_appendCoalesced h ..
        · exact h
      · exact h
  exact hstep _ _ .nil

end Run

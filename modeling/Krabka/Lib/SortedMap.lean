import Mathlib.Algebra.Group.Int.Defs
import Mathlib.Data.Finset.Card
import Mathlib.Data.List.Nodup
import Mathlib.Data.List.Sort
import Mathlib.Order.Lattice

/-!
# Maps kept in key order

`SortedMap κ υ` is a finite map held as the list of its entries in strictly
increasing key order, which is what iterating an ordered map shows.  The
order is a field of the structure, so a map with a repeated key or with two
keys out of order cannot be built, and two maps with the same entries are the
same value.

The operations are those of an ordered map: `get?`, `insert`, `erase`,
`retain`, `modify` and `orDefault`.  Each one carries the order through, and
`get?` reads each of them back in one lemma.
-/

/-- A finite map, held as its entries in increasing key order. -/
@[ext]
structure SortedMap (κ υ : Type) [LinearOrder κ] where
  entries : List (κ × υ)
  sorted : (entries.map Prod.fst).Pairwise (· < ·)
  deriving DecidableEq

namespace SortedMap

open List

variable {κ υ : Type} [LinearOrder κ]

/-! ## Lists of entries -/

/-- Put `(k, v)` at its place in the key order, in place of the entry that
holds the key `k`. -/
def insertEntry (k : κ) (v : υ) : List (κ × υ) → List (κ × υ)
  | [] => [(k, v)]
  | e :: es =>
    if k < e.1 then (k, v) :: e :: es
    else if k = e.1 then (k, v) :: es
    else e :: insertEntry k v es

variable {k : κ} {v : υ} {es : List (κ × υ)}

theorem key_mem_insertEntry {a : κ} :
    a ∈ (insertEntry k v es).map Prod.fst ↔ a = k ∨ a ∈ es.map Prod.fst := by
  induction es with
  | nil => simp [insertEntry]
  | cons e es ih =>
    rw [insertEntry]
    split_ifs with hlt heq
    · simp
    · simp [heq]
    · simp only [map_cons, mem_cons, ih]
      tauto

theorem mem_insertEntry {a : κ × υ} (h : a ∈ insertEntry k v es) : a = (k, v) ∨ a ∈ es := by
  induction es with
  | nil => simpa [insertEntry] using h
  | cons e es ih =>
    rw [insertEntry] at h
    split_ifs at h with hlt heq
    · simpa using h
    · rcases mem_cons.mp h with h | h
      · exact .inl h
      · exact .inr (mem_cons_of_mem e h)
    · rcases mem_cons.mp h with rfl | h
      · exact .inr mem_cons_self
      · rcases ih h with h | h
        · exact .inl h
        · exact .inr (mem_cons_of_mem e h)

theorem insertEntry_sorted (k : κ) (v : υ) (h : (es.map Prod.fst).Pairwise (· < ·)) :
    ((insertEntry k v es).map Prod.fst).Pairwise (· < ·) := by
  induction es with
  | nil => simp [insertEntry]
  | cons e es ih =>
    rw [map_cons, pairwise_cons] at h
    obtain ⟨hhead, htail⟩ := h
    rw [insertEntry]
    split_ifs with hlt heq
    · simp only [map_cons, pairwise_cons]
      refine ⟨?_, hhead, htail⟩
      intro a ha
      rcases mem_cons.mp ha with rfl | ha
      · exact hlt
      · exact hlt.trans (hhead a ha)
    · simp only [map_cons, pairwise_cons]
      exact ⟨fun a ha => heq ▸ hhead a ha, htail⟩
    · rw [map_cons, pairwise_cons]
      refine ⟨?_, ih htail⟩
      intro a ha
      rcases key_mem_insertEntry.mp ha with rfl | ha
      · exact lt_of_le_of_ne (not_lt.mp hlt) (Ne.symm heq)
      · exact hhead a ha

def getEntry (k : κ) (es : List (κ × υ)) : Option υ :=
  (es.find? (fun e => e.1 = k)).map Prod.snd

@[simp] theorem getEntry_nil (k : κ) : getEntry k ([] : List (κ × υ)) = none := rfl

theorem getEntry_cons (k : κ) (e : κ × υ) (es : List (κ × υ)) :
    getEntry k (e :: es) = if e.1 = k then some e.2 else getEntry k es := by
  unfold getEntry
  by_cases h : e.1 = k <;> simp [h]

theorem getEntry_insertEntry (k : κ) (v : υ) (es : List (κ × υ)) (a : κ) :
    getEntry a (insertEntry k v es) = if a = k then some v else getEntry a es := by
  induction es with
  | nil => simp [insertEntry, getEntry_cons, eq_comm]
  | cons e es ih =>
    rw [insertEntry]
    by_cases hlt : k < e.1
    · rw [if_pos hlt, getEntry_cons]
      simp only [eq_comm]
    rw [if_neg hlt]
    by_cases heq : k = e.1
    · rw [if_pos heq, getEntry_cons, getEntry_cons, ← heq]
      by_cases hak : a = k
      · simp [hak]
      · simp [hak, Ne.symm hak]
    rw [if_neg heq, getEntry_cons, getEntry_cons, ih]
    by_cases hak : a = k
    · subst hak
      simp [Ne.symm heq]
    · simp [hak]

theorem getEntry_isSome_iff (k : κ) (es : List (κ × υ)) :
    (getEntry k es).isSome ↔ k ∈ es.map Prod.fst := by
  induction es with
  | nil => simp
  | cons e es ih =>
    rw [getEntry_cons]
    split_ifs with h
    · simp [h]
    · simp only [ih, map_cons, mem_cons, Ne.symm h, false_or]

/-! ## Maps -/

def empty : SortedMap κ υ := ⟨[], List.Pairwise.nil⟩

instance : Inhabited (SortedMap κ υ) := ⟨empty⟩

variable (m : SortedMap κ υ)

def get? (k : κ) : Option υ := getEntry k m.entries

def keys : List κ := m.entries.map Prod.fst

def values : List υ := m.entries.map Prod.snd

def contains (k : κ) : Bool := (m.get? k).isSome

def insert (k : κ) (v : υ) : SortedMap κ υ :=
  ⟨insertEntry k v m.entries, insertEntry_sorted k v m.sorted⟩

def retain (p : κ → Bool) : SortedMap κ υ :=
  ⟨m.entries.filter (fun e => p e.1),
    m.sorted.sublist (filter_sublist.map Prod.fst)⟩

def keepValues (p : υ → Bool) : SortedMap κ υ :=
  ⟨m.entries.filter (fun e => p e.2),
    m.sorted.sublist (filter_sublist.map Prod.fst)⟩

def erase (k : κ) : SortedMap κ υ := m.retain (fun a => a ≠ k)

def modify (k : κ) (f : υ → υ) : SortedMap κ υ :=
  match m.get? k with
  | some v => m.insert k (f v)
  | none => m

def orInsert (k : κ) (d : υ) : SortedMap κ υ :=
  if m.contains k then m else m.insert k d

theorem keys_nodup : m.keys.Nodup :=
  m.sorted.imp ne_of_lt

theorem mem_keys_iff (k : κ) : k ∈ m.keys ↔ m.contains k :=
  (getEntry_isSome_iff k m.entries).symm

@[simp] theorem get?_insert (k : κ) (v : υ) (a : κ) :
    (m.insert k v).get? a = if a = k then some v else m.get? a :=
  getEntry_insertEntry k v m.entries a

@[simp] theorem contains_insert (k : κ) (v : υ) (a : κ) :
    (m.insert k v).contains a = (decide (a = k) || m.contains a) := by
  unfold contains
  by_cases h : a = k <;> simp [h]

theorem get?_modify (k : κ) (f : υ → υ) (a : κ) :
    (m.modify k f).get? a = if a = k then (m.get? a).map f else m.get? a := by
  unfold modify
  by_cases ha : a = k
  · subst ha
    cases h : m.get? a with
    | none => simp [h]
    | some v => simp
  · cases m.get? k with
    | none | some v => simp [ha]

theorem modify_of_get? {m : SortedMap κ υ} (h : m.get? k = some v) (f : υ → υ) :
    m.modify k f = m.insert k (f v) := by
  rw [modify, h]

theorem get?_of_mem {e : κ × υ} (he : e ∈ m.entries) : m.get? e.1 = some e.2 := by
  obtain ⟨es, hs⟩ := m
  unfold get?
  induction es with
  | nil => cases he
  | cons a es ih =>
    rw [map_cons, pairwise_cons] at hs
    rw [getEntry_cons]
    rcases mem_cons.mp he with rfl | he
    · rw [if_pos rfl]
    · rw [if_neg (ne_of_lt (hs.1 e.1 (mem_map_of_mem he))), ih hs.2 he]

theorem mem_of_get? (h : m.get? k = some v) : (k, v) ∈ m.entries := by
  obtain ⟨e, hfind, rfl⟩ := Option.map_eq_some_iff.mp h
  have hkey : e.1 = k := by simpa using find?_some hfind
  rw [← hkey]
  exact mem_of_find?_eq_some hfind

theorem mem_values_iff {m : SortedMap κ υ} : v ∈ m.values ↔ ∃ k, m.get? k = some v := by
  constructor
  · intro h
    obtain ⟨⟨k, _⟩, he, rfl⟩ := mem_map.mp h
    exact ⟨k, m.get?_of_mem he⟩
  · rintro ⟨k, h⟩
    exact mem_map.mpr ⟨(k, v), m.mem_of_get? h, rfl⟩

theorem ext_get? {m n : SortedMap κ υ} (h : ∀ k, m.get? k = n.get? k) : m = n := by
  have hpairs : ∀ p : SortedMap κ υ, p.entries.Pairwise fun e f => e.1 < f.1 :=
    fun p => pairwise_map.mp p.sorted
  have hirrefl : Std.Irrefl fun e f : κ × υ => e.1 < f.1 := ⟨fun e => lt_irrefl e.1⟩
  have hantisymm : Std.Antisymm fun e f : κ × υ => e.1 < f.1 :=
    ⟨fun e f hef hfe => absurd hef hfe.asymm⟩
  apply SortedMap.ext
  apply (hpairs m).eq_of_mem_iff (hpairs n)
  rintro ⟨k, v⟩
  constructor
  · intro he
    exact n.mem_of_get? (by rw [← h, m.get?_of_mem he])
  · intro he
    exact m.mem_of_get? (by rw [h, n.get?_of_mem he])

@[simp] theorem insert_insert (k : κ) (v w : υ) : (m.insert k v).insert k w = m.insert k w := by
  refine ext_get? fun a => ?_
  by_cases h : a = k <;> simp [h]

@[simp] theorem get?_empty (k : κ) : (empty : SortedMap κ υ).get? k = none := rfl

@[simp] theorem get?_orInsert (k : κ) (d : υ) (a : κ) :
    (m.orInsert k d).get? a = if a = k then some ((m.get? a).getD d) else m.get? a := by
  unfold orInsert contains
  cases hk : m.get? k with
  | none | some v =>
    by_cases ha : a = k
    · subst ha
      simp [hk]
    · simp [ha]

theorem countP_values (p : υ → Bool) :
    m.values.countP p = ((m.entries.filter (fun e => p e.2)).map Prod.fst).toFinset.card := by
  have hnodup : ((m.entries.filter (fun e => p e.2)).map Prod.fst).Nodup :=
    m.keys_nodup.sublist (filter_sublist.map Prod.fst)
  rw [toFinset_card_of_nodup hnodup, length_map, ← countP_eq_length_filter]
  exact countP_map

@[simp] theorem get?_retain (p : κ → Bool) (a : κ) :
    (m.retain p).get? a = if p a then m.get? a else none := by
  obtain ⟨es, hs⟩ := m
  unfold retain get?
  dsimp only
  clear hs
  induction es with
  | nil => simp
  | cons e es ih =>
    rw [filter_cons]
    by_cases hp : p e.1 <;> by_cases hk : e.1 = a
    · subst hk
      simp [hp, getEntry_cons]
    · simp [hp, getEntry_cons, hk, ih]
    · subst hk
      simp only [hp, Bool.false_eq_true, if_false] at ih ⊢
      exact ih
    · simp [hp, getEntry_cons, hk, ih]

theorem retain_retain {p q : κ → Bool} (h : ∀ k, q k = true → p k = true) :
    (m.retain p).retain q = m.retain q := by
  refine ext_get? fun k => ?_
  by_cases hq : q k
  · simp [hq, h k hq]
  · simp [hq]

@[simp] theorem get?_erase (k a : κ) : (m.erase k).get? a = if a = k then none else m.get? a := by
  unfold erase
  by_cases h : a = k <;> simp [h]

theorem get?_keepValues (p : υ → Bool) (a : κ) : (m.keepValues p).get? a = (m.get? a).filter p := by
  have hmem : ∀ v, (m.keepValues p).get? a = some v ↔ m.get? a = some v ∧ p v := by
    intro v
    constructor
    · intro h
      have he := mem_filter.mp ((m.keepValues p).mem_of_get? h)
      exact ⟨m.get?_of_mem he.1, he.2⟩
    · rintro ⟨h, hp⟩
      have he : (a, v) ∈ (m.keepValues p).entries := mem_filter.mpr ⟨m.mem_of_get? h, hp⟩
      exact (m.keepValues p).get?_of_mem he
  ext v
  rw [hmem, Option.filter_eq_some_iff]

@[simp] theorem contains_retain (p : κ → Bool) (a : κ) :
    (m.retain p).contains a = (p a && m.contains a) := by
  unfold contains
  by_cases h : p a <;> simp [h]

/-! ## Folding the entries of one map into another -/

theorem getEntry_eq_none_of_lt (h : ∀ a ∈ es.map Prod.fst, k < a) : getEntry k es = none := by
  rw [← Option.not_isSome_iff_eq_none, getEntry_isSome_iff]
  exact fun hmem => lt_irrefl k (h k hmem)

theorem foldl_entries_read {σ γ : Type} {step : σ → κ × υ → σ} {r : σ → γ} {g : υ → γ → γ} (x : κ)
    (hstep : ∀ s e, r (step s e) = if e.1 = x then g e.2 (r s) else r s)
    (m : SortedMap κ υ) (s : σ) :
    r (m.entries.foldl step s) =
      match m.get? x with
      | some v => g v (r s)
      | none => r s := by
  obtain ⟨es, hs⟩ := m
  unfold get?
  induction es generalizing s with
  | nil => rfl
  | cons e es ih =>
    rw [map_cons, pairwise_cons] at hs
    rw [foldl_cons, ih _ hs.2, hstep, getEntry_cons]
    by_cases hx : e.1 = x
    · subst hx
      simp [getEntry_eq_none_of_lt hs.1]
    · simp [hx]

theorem get?_foldl_insert_entries {ω : Type} (f : κ → υ → ω) (m : SortedMap κ υ)
    (acc : SortedMap κ ω) (x : κ) :
    (m.entries.foldl (fun acc e => acc.insert e.1 (f e.1 e.2)) acc).get? x =
      ((m.get? x).map (f x)).or (acc.get? x) := by
  refine (foldl_entries_read x (r := (·.get? x)) (g := fun v _ => some (f x v)) ?_ m acc).trans ?_
  · intro acc e
    by_cases hx : e.1 = x
    · simp [hx]
    · simp [hx, Ne.symm hx]
  · cases m.get? x <;> rfl

theorem get?_foldl_modify_entries {ω : Type} (f : υ → ω → ω) (m : SortedMap κ υ)
    (acc : SortedMap κ ω) (x : κ) :
    (m.entries.foldl (fun acc e => acc.modify e.1 (f e.2)) acc).get? x =
      match m.get? x with
      | some v => (acc.get? x).map (f v)
      | none => acc.get? x := by
  refine foldl_entries_read x (r := (·.get? x)) (g := fun v a => a.map (f v)) ?_ m acc
  intro acc e
  simp only [get?_modify, eq_comm]

end SortedMap

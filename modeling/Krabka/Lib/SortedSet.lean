import Krabka.Lib.SortedMap

/-!
# Sets kept in order

`SortedSet α` is a finite set held as its elements in increasing order, that
is a `SortedMap` with no values.  Two sets with the same elements are the same
value, so that equality of sets is decided by comparing them.

`toMap` gives every element of a set a value, and `SortedMap.keySet` goes back.
`SortedMap.patch` applies a list of writes and removals to a map; a list whose
writes all agree with one function reads back that function on the keys it
names.
-/

/-- A finite set, held as its elements in increasing order. -/
def SortedSet (α : Type) [LinearOrder α] : Type := SortedMap α Unit

open SortedMap List

namespace SortedSet

variable {α : Type} [LinearOrder α]

instance : DecidableEq (SortedSet α) := inferInstanceAs (DecidableEq (SortedMap α Unit))

instance : EmptyCollection (SortedSet α) := ⟨(SortedMap.empty : SortedMap α Unit)⟩

instance : Inhabited (SortedSet α) := ⟨∅⟩

instance : Membership α (SortedSet α) := ⟨fun s a => SortedMap.contains s a = true⟩

instance (a : α) (s : SortedSet α) : Decidable (a ∈ s) :=
  inferInstanceAs (Decidable (SortedMap.contains s a = true))

def elems (s : SortedSet α) : List α := SortedMap.keys s

def insert (s : SortedSet α) (a : α) : SortedSet α := SortedMap.insert s a ()

def filter (s : SortedSet α) (p : α → Bool) : SortedSet α := SortedMap.retain s p

def ofList (l : List α) : SortedSet α := l.foldl insert ∅

instance : Union (SortedSet α) := ⟨fun s t => t.elems.foldl insert s⟩

@[simp] theorem notMem_empty (a : α) : a ∉ (∅ : SortedSet α) := Bool.false_ne_true

variable {s : SortedSet α} {a : α}

theorem mem_elems : a ∈ s.elems ↔ a ∈ s := mem_keys_iff s a

@[simp] theorem mem_insert {b : α} : b ∈ s.insert a ↔ b = a ∨ b ∈ s := by
  have h := contains_insert s a () b
  change SortedMap.contains (SortedMap.insert s a ()) b = true ↔
    b = a ∨ SortedMap.contains s b = true
  simp [h]

@[simp] theorem mem_filter {p : α → Bool} : a ∈ s.filter p ↔ a ∈ s ∧ p a := by
  have h := contains_retain s p a
  change SortedMap.contains (SortedMap.retain s p) a = true ↔
    SortedMap.contains s a = true ∧ p a = true
  simp [h, and_comm]

theorem mem_foldl_insert {l : List α} : a ∈ l.foldl insert s ↔ a ∈ l ∨ a ∈ s := by
  induction l generalizing s with
  | nil => simp
  | cons b l ih =>
    rw [foldl_cons, ih, mem_insert, mem_cons]
    tauto

@[simp] theorem mem_ofList {l : List α} : a ∈ ofList l ↔ a ∈ l := by
  simp [ofList, mem_foldl_insert]

@[simp] theorem mem_union {t : SortedSet α} : a ∈ s ∪ t ↔ a ∈ s ∨ a ∈ t := by
  change a ∈ t.elems.foldl insert s ↔ _
  rw [mem_foldl_insert, mem_elems, or_comm]

theorem ext_mem {t : SortedSet α} (h : ∀ a, a ∈ s ↔ a ∈ t) : s = t := by
  refine ext_get? (m := s) (n := t) fun a => ?_
  have ha : (SortedMap.get? s a).isSome = true ↔ (SortedMap.get? t a).isSome = true := h a
  cases hs : SortedMap.get? s a with
  | none =>
    cases ht : SortedMap.get? t a with
    | none => rfl
    | some u => simp [hs, ht] at ha
  | some u =>
    cases ht : SortedMap.get? t a with
    | none => simp [hs, ht] at ha
    | some v => rfl

end SortedSet

namespace SortedMap

variable {κ υ : Type} [LinearOrder κ]

variable (m : SortedMap κ υ)

def keySet : SortedSet κ := SortedSet.ofList m.keys

@[simp] theorem mem_keySet {m : SortedMap κ υ} {k : κ} : k ∈ m.keySet ↔ (m.get? k).isSome := by
  rw [keySet, SortedSet.mem_ofList, mem_keys_iff, contains]

def write (u : κ × Option υ) : SortedMap κ υ :=
  match u.2 with
  | some v => m.insert u.1 v
  | none => m.erase u.1

def patch (us : List (κ × Option υ)) : SortedMap κ υ := us.foldl write m

theorem get?_write (u : κ × Option υ) (a : κ) :
    (m.write u).get? a = if a = u.1 then u.2 else m.get? a := by
  unfold write
  cases hu : u.2 with
  | none => simp
  | some v => simp

@[simp] theorem patch_nil : m.patch [] = m := rfl

theorem get?_patch {f : κ → Option υ} {us : List (κ × Option υ)} (m : SortedMap κ υ)
    (hus : ∀ u ∈ us, u.2 = f u.1) (a : κ) :
    (m.patch us).get? a = if a ∈ us.map Prod.fst then f a else m.get? a := by
  induction us generalizing m with
  | nil => simp
  | cons u us ih =>
    have hhead : u.2 = f u.1 := hus u mem_cons_self
    have hrest := ih (m.write u) fun v hv => hus v (mem_cons_of_mem u hv)
    change ((m.write u).patch us).get? a = _
    rw [hrest, get?_write, hhead]
    by_cases hau : a = u.1
    · subst hau
      simp
    · simp only [hau, if_false, map_cons, mem_cons, false_or]

theorem erase_of_get? {m : SortedMap κ υ} {k : κ} (h : m.get? k = none) : m.erase k = m := by
  refine ext_get? fun a => ?_
  rw [get?_erase]
  split_ifs with ha
  · rw [ha, h]
  · rfl

theorem get?_foldl_erase (ks : List κ) (m : SortedMap κ υ) (a : κ) :
    (ks.foldl erase m).get? a = if a ∈ ks then none else m.get? a := by
  induction ks generalizing m with
  | nil => simp
  | cons k ks ih =>
    rw [foldl_cons, ih, get?_erase]
    by_cases ha : a = k <;> simp [ha]

theorem patch_foldl_erase {f : κ → Option υ} {us : List (κ × Option υ)} (m : SortedMap κ υ)
    (hus : ∀ u ∈ us, u.2 = f u.1) {ks : List κ} (hks : ∀ k ∈ ks, (k, none) ∈ us) :
    (ks.foldl erase m).patch (us.filter fun u => !(decide (u.1 ∈ ks) && u.2.isNone)) =
      m.patch us := by
  refine ext_get? fun a => ?_
  rw [get?_patch _ fun u hu => hus u (mem_filter.mp hu).1, get?_patch m hus,
    get?_foldl_erase]
  by_cases ha : a ∈ ks
  · have hnone : f a = none := (hus _ (hks a ha)).symm
    have hkey : a ∈ us.map Prod.fst := mem_map.mpr ⟨_, hks a ha, rfl⟩
    simp only [ha, if_true, hkey, hnone, ite_self]
  · have hkeys : a ∈ (us.filter fun u => !(decide (u.1 ∈ ks) && u.2.isNone)).map Prod.fst ↔
        a ∈ us.map Prod.fst := by
      constructor
      · intro hin
        obtain ⟨u, hu, rfl⟩ := mem_map.mp hin
        exact mem_map.mpr ⟨u, (mem_filter.mp hu).1, rfl⟩
      · intro hin
        obtain ⟨u, hu, rfl⟩ := mem_map.mp hin
        exact mem_map.mpr ⟨u, mem_filter.mpr ⟨hu, by simp [ha]⟩, rfl⟩
    simp only [hkeys, ha, if_false]

end SortedMap

namespace SortedSet

variable {α : Type} [LinearOrder α] {υ : Type}

/-- Every element with its value under `f`. -/
def toMap (s : SortedSet α) (f : α → υ) : SortedMap α υ :=
  s.elems.foldl (fun m a => m.insert a (f a)) SortedMap.empty

theorem get?_foldl_insert (f : α → υ) (l : List α) (m : SortedMap α υ) (a : α) :
    (l.foldl (fun m b => m.insert b (f b)) m).get? a = if a ∈ l then some (f a) else m.get? a := by
  induction l generalizing m with
  | nil => simp
  | cons b l ih =>
    rw [foldl_cons, ih, get?_insert]
    by_cases hab : a = b
    · subst hab
      simp
    · simp [hab]

@[simp] theorem get?_toMap (s : SortedSet α) (f : α → υ) (a : α) :
    (s.toMap f).get? a = if a ∈ s then some (f a) else none := by
  rw [toMap, get?_foldl_insert, get?_empty]
  simp only [mem_elems]

@[simp] theorem keySet_toMap (s : SortedSet α) (f : α → υ) : (s.toMap f).keySet = s := by
  refine ext_mem fun a => ?_
  rw [mem_keySet, get?_toMap]
  by_cases ha : a ∈ s <;> simp [ha]

end SortedSet

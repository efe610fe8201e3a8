import Mathlib.Data.Finset.Card
import Mathlib.Order.Basic

/-!
# Ballots and majorities

`Ballots ν ε κ` records which candidate each voter has voted for in each
epoch, at most one.  The order `b ≤ b'` says that `b'` keeps every vote of
`b`: ballots are the ghost that grows along a run of an election protocol.

A candidate is `Elected` in an epoch when a majority of the voters has voted
for it.  `Elected.unique` is the reason elections are safe: two majorities
share a voter, and a voter votes once.  `Elected.mono` keeps a win forever.
-/

/-- A majority of the finite set `V`. -/
def IsMajority {α : Type*} (V Q : Finset α) : Prop :=
  Q ⊆ V ∧ V.card < 2 * Q.card

theorem IsMajority.inter_nonempty {α : Type*} [DecidableEq α] {V Q Q' : Finset α}
    (h : IsMajority V Q) (h' : IsMajority V Q') : (Q ∩ Q').Nonempty := by
  have h1 := h.2
  have h2 := h'.2
  exact Finset.inter_nonempty_of_card_lt_card_add_card h.1 h'.1 (by omega)

/-- The votes cast so far: at most one for each voter and epoch. -/
def Ballots (ν ε κ : Type*) := ν → ε → Option κ

namespace Ballots

variable {ν ε κ : Type*}

instance : Preorder (Ballots ν ε κ) where
  le b b' := ∀ v e c, b v e = some c → b' v e = some c
  le_refl _ _ _ _ h := h
  le_trans _ _ _ h h' v e c hb := h' v e c (h v e c hb)

def blank : Ballots ν ε κ := fun _ _ => none

variable [DecidableEq ν] [DecidableEq ε]

def cast (b : Ballots ν ε κ) (v : ν) (e : ε) (c : κ) : Ballots ν ε κ :=
  fun v' e' => if v' = v ∧ e' = e then some c else b v' e'

variable {b b' : Ballots ν ε κ} {v : ν} {e : ε} {c c' : κ}

@[simp] theorem cast_self : b.cast v e c v e = some c := by
  simp [cast]

theorem cast_of_ne {v' : ν} {e' : ε} (h : ¬(v' = v ∧ e' = e)) : b.cast v e c v' e' = b v' e' := by
  simp [cast, h]

theorem le_cast (h : ∀ c', b v e = some c' → c' = c) : b ≤ b.cast v e c := by
  intro v' e' c' hb
  by_cases hv : v' = v ∧ e' = e
  · obtain ⟨rfl, rfl⟩ := hv
    rw [cast_self, h c' hb]
  · rw [cast_of_ne hv]
    exact hb

omit [DecidableEq ε] in
/-- A majority of `V` has voted for `c` in `e`. -/
def Elected (b : Ballots ν ε κ) (V : Finset ν) (e : ε) (c : κ) : Prop :=
  ∃ Q, IsMajority V Q ∧ ∀ v ∈ Q, b v e = some c

omit [DecidableEq ν] [DecidableEq ε] in
theorem Elected.mono {V : Finset ν} (h : b.Elected V e c) (hle : b ≤ b') : b'.Elected V e c := by
  obtain ⟨Q, hQ, hvotes⟩ := h
  exact ⟨Q, hQ, fun v hv => hle v e c (hvotes v hv)⟩

omit [DecidableEq ε] in
/-- One winner for each epoch. -/
theorem Elected.unique {V : Finset ν} (h : b.Elected V e c) (h' : b.Elected V e c') : c = c' := by
  obtain ⟨Q, hQ, hvotes⟩ := h
  obtain ⟨Q', hQ', hvotes'⟩ := h'
  obtain ⟨v, hv⟩ := hQ.inter_nonempty hQ'
  rw [Finset.mem_inter] at hv
  have hc := hvotes v hv.1
  rw [hvotes' v hv.2] at hc
  exact (Option.some.inj hc).symm

end Ballots

import Mathlib.Order.Basic

/-!
# Transition systems and their invariants

A `TransitionSystem` has initial states and labelled steps.  `Reachable` is
what its runs visit, and `Leads` relates an earlier state of a run to a later
one.  `restrict` keeps the steps that satisfy a condition, which is how "every
run whose steps all meet the condition" is said.

There are two rules.  `Reachable.invariant` proves a property of the states.
`Leads.ghost` proves one with a ghost value beside the state, which may only
grow along the run; what the ghost has recorded at an earlier state is then
known at every later one.
-/

theorem Except.eq_ok_of_toOption {ε α : Type*} {e : Except ε α} {a : α}
    (h : e.toOption = some a) : e = .ok a := by
  cases e with
  | error _ => cases h
  | ok _ => exact congrArg Except.ok (Option.some.inj h)

/-- Initial states and labelled steps. -/
structure TransitionSystem (σ α : Type*) where
  init : σ → Prop
  step : σ → α → σ → Prop

namespace TransitionSystem

variable {σ α : Type*} {S : TransitionSystem σ α}

/-- The states that the runs visit. -/
inductive Reachable (S : TransitionSystem σ α) : σ → Prop
  | init {s} (h : S.init s) : Reachable S s
  | step {s a s'} (h : Reachable S s) (hstep : S.step s a s') : Reachable S s'

/-- A run leads from the first state to the second. -/
inductive Leads (S : TransitionSystem σ α) : σ → σ → Prop
  | refl {s} : Leads S s s
  | tail {s s' a s''} (h : Leads S s s') (hstep : S.step s' a s'') : Leads S s s''

/-- The steps that satisfy `ok` only. -/
def restrict (S : TransitionSystem σ α) (ok : σ → α → σ → Prop) : TransitionSystem σ α where
  init := S.init
  step s a s' := S.step s a s' ∧ ok s a s'

variable {s : σ}

/-- A run under a condition is a run. -/
theorem Reachable.of_restrict {ok : σ → α → σ → Prop} (h : (S.restrict ok).Reachable s) :
    S.Reachable s := by
  induction h with
  | init h => exact .init h
  | step _ hstep ih => exact .step ih hstep.1

/-- The system of a function that takes one operation at a time. -/
def ofFun (start : σ → Prop) (f : σ → α → σ) : TransitionSystem σ α where
  init := start
  step s a s' := s' = f s a

/-- Every operation of the sequence is allowed where it is taken. -/
def Allowed (f : σ → α → σ) (ok : σ → α → σ → Prop) : σ → List α → Prop
  | _, [] => True
  | s, a :: as => ok s a (f s a) ∧ Allowed f ok (f s a) as

instance decidableAllowed (f : σ → α → σ) (ok : σ → α → σ → Prop)
    [∀ s a s', Decidable (ok s a s')] : ∀ s as, Decidable (Allowed f ok s as)
  | _, [] => .isTrue trivial
  | s, a :: as =>
    have := decidableAllowed f ok (f s a) as
    inferInstanceAs (Decidable (_ ∧ _))

variable {as : List α}

/-- A sequence of operations from a reachable state, each of them a step where
it is taken, reaches its result. -/
theorem Reachable.foldl {f : σ → α → σ} (ok : σ → α → σ → Prop)
    (h : S.Reachable s) (hstep : ∀ s a, ok s a (f s a) → S.step s a (f s a))
    (hok : Allowed f ok s as) : S.Reachable (as.foldl f s) := by
  induction as generalizing s with
  | nil => exact h
  | cons a as ih => exact ih (.step h (hstep s a hok.1)) hok.2

/-- A sequence of steps of a partial function. -/
theorem Reachable.foldlM {f : σ → α → Option σ} {s' : σ} (h : S.Reachable s)
    (hstep : ∀ s a s', f s a = some s' → S.step s a s') (hfold : as.foldlM f s = some s') :
    S.Reachable s' := by
  induction as generalizing s with
  | nil => exact Option.some.inj hfold ▸ h
  | cons a as ih =>
    rw [List.foldlM_cons] at hfold
    obtain ⟨t, ht, hrest⟩ := Option.bind_eq_some_iff.mp hfold
    exact ih (.step h (hstep s a t ht)) hrest

/-- The state after a sequence of steps of a partial function, each of them where it
is allowed, and `s` if one of them is not made. -/
def runAll (f : σ → α → Option σ) (ok : σ → α → Prop) [∀ s a, Decidable (ok s a)]
    (s : σ) (as : List α) : σ :=
  (as.foldlM (fun s a => if ok s a then f s a else none) s).getD s

theorem Reachable.runAll {f : σ → α → Option σ} {ok : σ → α → Prop}
    [∀ s a, Decidable (ok s a)] (h : S.Reachable s)
    (hstep : ∀ s a s', f s a = some s' → ok s a → S.step s a s') :
    S.Reachable (runAll f ok s as) := by
  unfold TransitionSystem.runAll
  cases hfold : as.foldlM (fun s a => if ok s a then f s a else none) s with
  | none => exact h
  | some s' =>
    refine h.foldlM ?_ hfold
    intro s a s' hs
    split at hs
    · exact hstep s a s' hs ‹_›
    · cases hs

theorem Leads.foldl {f : σ → α → σ} (ok : σ → α → σ → Prop) {s₀ : σ}
    (h : S.Leads s₀ s) (hstep : ∀ s a, ok s a (f s a) → S.step s a (f s a))
    (hok : Allowed f ok s as) : S.Leads s₀ (as.foldl f s) := by
  induction as generalizing s with
  | nil => exact h
  | cons a as ih => exact ih (.tail h (hstep s a hok.1)) hok.2

/-- The rule for invariants: true initially and kept by every step. -/
theorem Reachable.invariant {P : σ → Prop} (hinit : ∀ s, S.init s → P s)
    (hstep : ∀ s a s', P s → S.step s a s' → P s') (h : S.Reachable s) : P s := by
  induction h with
  | init h => exact hinit _ h
  | step _ hs ih => exact hstep _ _ _ ih hs

theorem Leads.invariant {P : σ → Prop} (hstep : ∀ s a s', P s → S.step s a s' → P s') {s' : σ}
    (h : S.Leads s s') (hs : P s) : P s' := by
  induction h with
  | refl => exact hs
  | tail _ hlast ih => exact hstep _ _ _ ih hlast

/-- The rule for invariants with a ghost that grows along the run. -/
theorem Leads.ghost {γ : Type*} [Preorder γ] {P : γ → σ → Prop}
    (hstep : ∀ g s a s', P g s → S.step s a s' → ∃ g', g ≤ g' ∧ P g' s')
    {s' : σ} (h : S.Leads s s') {g : γ} (hs : P g s) : ∃ g', g ≤ g' ∧ P g' s' := by
  induction h with
  | refl => exact ⟨g, le_refl g, hs⟩
  | tail _ hlast ih =>
    obtain ⟨g₁, hle, h₁⟩ := ih
    obtain ⟨g₂, hle', h₂⟩ := hstep g₁ _ _ _ h₁ hlast
    exact ⟨g₂, hle.trans hle', h₂⟩

theorem Reachable.ghost {γ : Type*} [Preorder γ] {P : γ → σ → Prop}
    (hinit : ∀ s, S.init s → ∃ g, P g s)
    (hstep : ∀ g s a s', P g s → S.step s a s' → ∃ g', g ≤ g' ∧ P g' s')
    (h : S.Reachable s) : ∃ g, P g s := by
  induction h with
  | init h => exact hinit _ h
  | step _ hs ih =>
    obtain ⟨g, hg⟩ := ih
    obtain ⟨g', _, hg'⟩ := hstep g _ _ _ hg hs
    exact ⟨g', hg'⟩

end TransitionSystem

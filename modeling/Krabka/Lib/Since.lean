import Krabka.Lib.Transition

/-!
# Runs with their history, and what has held since

`Run` is a run with the states and operations that it went through, the latest
first.  `Since` is the temporal operator on such a history for a fact about a
key that may be handed over from key to key along the run: the fact holds of
the key now, and it held of the key's predecessor in every earlier state back
to one in which the start condition was met.

`Run.since` proves it from single steps: a claim that some condition `Q` is
enough is traced back one step at a time.
-/

namespace TransitionSystem

variable {σ α κ : Type*} {S : TransitionSystem σ α}

/-- A run that is in the state now, with every earlier state and the operation
taken in it. -/
inductive Run (S : TransitionSystem σ α) : σ → List (σ × α) → Prop
  | start {s} (h : S.init s) : Run S s []
  | next {s a s' past} (h : Run S s past) (hstep : S.step s a s') : Run S s' ((s, a) :: past)

theorem Run.reachable {s : σ} {past : List (σ × α)} (h : S.Run s past) : S.Reachable s := by
  induction h with
  | start h => exact .init h
  | next _ hstep ih => exact .step ih hstep

/-- `holds` is true of the key in this state and of its predecessors in the
earlier states, back to a state in which `start` is true of it. -/
inductive Since (holds start : σ → κ → Prop) (link : σ → α → κ → κ → Prop) :
    σ → List (σ × α) → κ → Prop
  | here {s past k} (hnow : holds s k) (hstart : start s k) : Since holds start link s past k
  | back {s s' a past k k'} (hnow : holds s' k') (hlink : link s a k k')
      (hpast : Since holds start link s past k) : Since holds start link s' ((s, a) :: past) k'

/-- What holds wherever `Q` does has held since the start condition, if `Q`
comes from a predecessor whenever the start condition is not met. -/
theorem Run.since {holds start : σ → κ → Prop} {link : σ → α → κ → κ → Prop} {Q : σ → κ → Prop}
    (hholds : ∀ s k, S.Reachable s → Q s k → holds s k)
    (hinit : ∀ s k, S.init s → Q s k → start s k)
    (hstep : ∀ s a s' k', S.Reachable s → S.step s a s' → Q s' k' →
      start s' k' ∨ ∃ k, link s a k k' ∧ Q s k)
    {s : σ} {past : List (σ × α)} (h : S.Run s past) {k : κ} (hk : Q s k) :
    Since holds start link s past k := by
  induction h generalizing k with
  | start h => exact .here (hholds _ k (.init h) hk) (hinit _ k h hk)
  | next h hs ih =>
    have hnow := hholds _ k (.step h.reachable hs) hk
    rcases hstep _ _ _ k h.reachable hs hk with hstart | ⟨j, hlink, hj⟩
    · exact .here hnow hstart
    · exact .back hnow hlink (ih hj)

end TransitionSystem

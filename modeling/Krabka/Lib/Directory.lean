import Krabka.Lib.Transition
import Mathlib.Logic.Function.Basic

/-!
# Directories whose changes become durable at a sync

An operation on a directory assigns names: a rename unbinds one name and binds
another, a create binds one, an unlink unbinds one.  The assignments of one
operation are an `Effect` and reach the disk together.  Effects reach it in
any order until the directory is synced, so a power loss leaves the durable
entries with any part of the unsynced effects applied (`Directory.Image`).

A program is a list of operations, and `Follows` is the judgement that says it
may be interrupted anywhere.  An `Assertion` speaks of every image of the
directory and of its live entries.  Each operation takes one assertion to the
next (`Action.Takes`), and every assertion on the way satisfies `K`, which is
what a recovery may rely on.

`Machine` runs a program, loses power or is killed at any point, and recovers
by a program planned from the live entries, any number of times.  The rule is
`Guarded.of_reachable`: if the first program and every planned recovery follow
from `K`, then every state of every run is guarded.
-/

namespace Durable

open List

/-- What the names of a directory name. -/
abbrev Entries (ν φ : Type) := ν → Option φ

/-- The names that one operation assigns. -/
abbrev Effect (ν φ : Type) := List (ν × Option φ)

namespace Effect

variable {ν φ : Type} [DecidableEq ν]

def apply (f : Effect ν φ) (e : Entries ν φ) : Entries ν φ :=
  f.foldl (fun e a => Function.update e a.1 a.2) e

@[simp] theorem apply_nil (e : Entries ν φ) : apply [] e = e := rfl

@[simp] theorem apply_cons (a : ν × Option φ) (f : Effect ν φ) (e : Entries ν φ) :
    apply (a :: f) e = apply f (Function.update e a.1 a.2) := rfl

theorem apply_of_ne {f : Effect ν φ} {n : ν} (h : ∀ a ∈ f, a.1 ≠ n) (e : Entries ν φ) :
    f.apply e n = e n := by
  induction f generalizing e with
  | nil => rfl
  | cons a f ih =>
    rw [apply_cons, ih (fun b hb => h b (mem_cons_of_mem a hb))]
    exact Function.update_of_ne (h a mem_cons_self).symm _ _

end Effect

/-- The durable entries and the effects since the last sync. -/
structure Directory (ν φ : Type) where
  durable : Entries ν φ
  unsynced : List (Effect ν φ)

namespace Directory

variable {ν φ : Type} [DecidableEq ν]

def replay (fs : List (Effect ν φ)) (e : Entries ν φ) : Entries ν φ :=
  fs.foldl (fun e f => f.apply e) e

theorem replay_of_ne {fs : List (Effect ν φ)} {n : ν} (h : ∀ f ∈ fs, ∀ a ∈ f, a.1 ≠ n)
    (e : Entries ν φ) : replay fs e n = e n := by
  induction fs generalizing e with
  | nil => rfl
  | cons f fs ih =>
    have hrest := ih (fun f' hf' => h f' (mem_cons_of_mem f hf')) (f.apply e)
    exact hrest.trans (Effect.apply_of_ne (h f mem_cons_self) e)

variable {e : Entries ν φ}

theorem replay_eq_none {fs : List (Effect ν φ)} {n : ν}
    (h : ∀ f ∈ fs, ∀ a ∈ f, a.1 = n → a.2 = none) (he : e n = none) : replay fs e n = none := by
  have happly : ∀ (f : Effect ν φ) (e : Entries ν φ), (∀ a ∈ f, a.1 = n → a.2 = none) →
      e n = none → f.apply e n = none := by
    intro f
    induction f with
    | nil => exact fun e _ he => he
    | cons a f ih =>
      intro e hf he
      refine ih _ (fun b hb => hf b (mem_cons_of_mem a hb)) ?_
      show Function.update e a.1 a.2 n = none
      rw [Function.update_apply]
      split
      · exact hf a mem_cons_self (Eq.symm ‹n = a.1›)
      · exact he
  induction fs generalizing e with
  | nil => exact he
  | cons f fs ih =>
    exact ih (fun f' hf' => h f' (mem_cons_of_mem f hf'))
      (happly f e (h f mem_cons_self) he)

variable (d : Directory ν φ)

def live : Entries ν φ := replay d.unsynced d.durable

def issue (f : Effect ν φ) : Directory ν φ :=
  { d with unsynced := d.unsynced ++ [f] }

/-- Everything in it is durable. -/
def settled (e : Entries ν φ) : Directory ν φ := ⟨e, []⟩

/-- What a power loss may leave. -/
def Image (e : Entries ν φ) : Prop :=
  ∃ kept, kept.Sublist d.unsynced ∧ e = replay kept d.durable

theorem image_live : d.Image d.live :=
  ⟨d.unsynced, List.Sublist.refl _, rfl⟩

theorem image_settled {i : Entries ν φ} (h : (settled e).Image i) : i = e := by
  obtain ⟨kept, hkept, rfl⟩ := h
  rw [sublist_nil.mp hkept]
  rfl

@[simp] theorem live_settled (e : Entries ν φ) : (settled e).live = e := rfl

theorem live_issue (f : Effect ν φ) : (d.issue f).live = f.apply d.live := by
  simp [live, issue, replay]

theorem image_issue {d : Directory ν φ} {f : Effect ν φ}
    (h : (d.issue f).Image e) : d.Image e ∨ ∃ i, d.Image i ∧ e = f.apply i := by
  obtain ⟨kept, hkept, rfl⟩ := h
  obtain ⟨xs, ys, rfl, hxs, hys⟩ := sublist_append_iff.mp hkept
  rcases sublist_cons_iff.mp hys with hnil | ⟨zs, rfl, hnil⟩ <;>
    obtain rfl := sublist_nil.mp hnil
  · exact .inl ⟨xs, hxs, by rw [append_nil]; rfl⟩
  · exact .inr ⟨replay xs d.durable, ⟨xs, hxs, rfl⟩, by simp [replay, issue]⟩

end Directory

/-- What an operation does where it is taken: it issues an effect, or fails, or
it syncs the directory. -/
inductive Action (ν φ : Type) where
  | issue (f : Entries ν φ → Option (Effect ν φ))
  | sync

/-- What a program may rely on: of every image and of the live entries. -/
structure Assertion (ν φ : Type) where
  image : Entries ν φ → Prop
  live : Entries ν φ → Prop

namespace Action

variable {ν φ : Type} [DecidableEq ν]

def run : Action ν φ → Entries ν φ → Option (Entries ν φ)
  | .issue f, e => (f e).map (fun eff => eff.apply e)
  | .sync, e => some e

def Takes : Action ν φ → Assertion ν φ → Assertion ν φ → Prop
  | .issue f, A, B => ∀ e, A.image e → A.live e → ∀ eff, f e = some eff →
      B.live (eff.apply e) ∧ ∀ i, A.image i → B.image i ∧ B.image (eff.apply i)
  | .sync, A, B => ∀ e, A.image e → A.live e → B.image e ∧ B.live e

end Action

namespace Directory

variable {ν φ : Type} [DecidableEq ν]

def perform (d : Directory ν φ) : Action ν φ → Option (Directory ν φ)
  | .issue f => (f d.live).map d.issue
  | .sync => some (settled d.live)

theorem run_live {d d' : Directory ν φ} {a : Action ν φ} (h : d.perform a = some d') :
    a.run d.live = some d'.live := by
  cases a with
  | issue f =>
    obtain ⟨eff, heff, rfl⟩ := Option.map_eq_some_iff.mp h
    simp [Action.run, heff, live_issue]
  | sync =>
    cases h
    rfl

def Meets (d : Directory ν φ) (A : Assertion ν φ) : Prop :=
  (∀ e, d.Image e → A.image e) ∧ A.live d.live

theorem Meets.perform {d d' : Directory ν φ} {A B : Assertion ν φ} {a : Action ν φ}
    (h : d.Meets A) (ht : a.Takes A B) (hp : d.perform a = some d') : d'.Meets B := by
  cases a with
  | issue f =>
    obtain ⟨eff, heff, rfl⟩ := Option.map_eq_some_iff.mp hp
    obtain ⟨hlive, himage⟩ := ht d.live (h.1 _ d.image_live) h.2 eff heff
    refine ⟨fun e he => ?_, live_issue d eff ▸ hlive⟩
    rcases image_issue he with hold | ⟨i, hi, rfl⟩
    · exact (himage e (h.1 e hold)).1
    · exact (himage i (h.1 i hi)).2
  | sync =>
    cases hp
    obtain ⟨himage, hlive⟩ := ht d.live (h.1 _ d.image_live) h.2
    exact ⟨fun e he => image_settled he ▸ himage, hlive⟩

theorem meets_settled {A : Assertion ν φ} {e : Entries ν φ} (himage : A.image e)
    (hlive : A.live e) :
    (settled e).Meets A :=
  ⟨fun _ hi => image_settled hi ▸ himage, hlive⟩

end Directory

section Program

variable {ω ν φ : Type} [DecidableEq ν] (sem : ω → Action ν φ)

def runAll (ops : List ω) (e : Entries ν φ) : Option (Entries ν φ) :=
  ops.foldlM (fun e op => (sem op).run e) e

/-- The operations may be interrupted anywhere: `K` holds on the way, each of
them is taken under its guard, and the goal holds at the end. -/
def Follows (K : Assertion ν φ → Prop) (guard : ω → Entries ν φ → Prop)
    (goal : Entries ν φ → Prop) :
    List ω → Assertion ν φ → Prop
  | [], A => K A ∧ ∀ e, A.image e → A.live e → goal e
  | op :: ops, A => K A ∧ (∀ e, A.image e → guard op e) ∧
      ∃ B, (sem op).Takes A B ∧ Follows K guard goal ops B

variable {sem} {K : Assertion ν φ → Prop} {guard : ω → Entries ν φ → Prop}
  {goal : Entries ν φ → Prop}

variable {ops : List ω} {A : Assertion ν φ}

theorem Follows.keeps (h : Follows sem K guard goal ops A) : K A := by
  cases ops with
  | nil => exact h.1
  | cons op ops => exact h.1

theorem Follows.append_of_stable {rest : List ω}
    (hstable : ∀ op ∈ ops, (sem op).Takes A A) (hguard : ∀ op ∈ ops, ∀ e, A.image e → guard op e)
    (h : Follows sem K guard goal rest A) : Follows sem K guard goal (ops ++ rest) A := by
  induction ops with
  | nil => exact h
  | cons op ops ih =>
    exact ⟨h.keeps, hguard op mem_cons_self, A, hstable op mem_cons_self,
      ih (fun o ho => hstable o (mem_cons_of_mem op ho))
        (fun o ho => hguard o (mem_cons_of_mem op ho))⟩

theorem runAll_of_keeps {P : Entries ν φ → Prop} {e e' : Entries ν φ}
    (hkeep : ∀ op ∈ ops, ∀ e e', (sem op).run e = some e' → P e → P e')
    (hrun : runAll sem ops e = some e')
    (h : P e ∨ ∃ op ∈ ops, ∀ e e', (sem op).run e = some e' → P e') : P e' := by
  induction ops generalizing e with
  | nil =>
    cases hrun
    rcases h with h | ⟨op, hop, -⟩
    · exact h
    · exact nomatch hop
  | cons op ops ih =>
    rw [runAll, foldlM_cons] at hrun
    obtain ⟨e₁, he₁, hrest⟩ := Option.bind_eq_some_iff.mp hrun
    refine ih (fun o ho => hkeep o (mem_cons_of_mem op ho)) hrest ?_
    rcases h with h | ⟨o, ho, hset⟩
    · exact .inl (hkeep op mem_cons_self e e₁ he₁ h)
    · rcases mem_cons.mp ho with rfl | ho
      · exact .inl (hset e e₁ he₁)
      · exact .inr ⟨o, ho, hset⟩

theorem Follows.completes {d : Directory ν φ}
    (hrun : ∀ op e, guard op e → ((sem op).run e).isSome) (h : Follows sem K guard goal ops A)
    (hmeets : d.Meets A) :
    ∃ d' : Directory ν φ, ops.foldlM (fun d op => d.perform (sem op)) d = some d' ∧
      goal d'.live := by
  induction ops generalizing A d with
  | nil => exact ⟨d, rfl, h.2 _ (hmeets.1 _ d.image_live) hmeets.2⟩
  | cons op ops ih =>
    obtain ⟨-, hguard, B, htakes, hrest⟩ := h
    have hsome : (d.perform (sem op)).isSome := by
      have hr := hrun op _ (hguard _ (hmeets.1 _ d.image_live))
      cases hact : sem op with
      | issue f =>
        rw [hact] at hr
        simpa [Directory.perform, Action.run] using hr
      | sync => rfl
    obtain ⟨d₁, hd₁⟩ := Option.isSome_iff_exists.mp hsome
    obtain ⟨d', hd', hgoal⟩ := ih hrest (hmeets.perform htakes hd₁)
    exact ⟨d', by rw [foldlM_cons, hd₁]; exact hd', hgoal⟩

end Program

/-! ## Crashes and recoveries -/

inductive Stage where
  | working
  | down
  | recovering
  | recovered
  deriving DecidableEq

/-- A directory and the program that still has to run on it. -/
structure Machine (ω ν φ : Type) where
  dir : Directory ν φ
  todo : List ω
  stage : Stage

/-- A kill stops the program and leaves the unsynced effects pending; a power
loss drops a part of them. -/
inductive Event where
  | perform
  | powerLoss
  | kill
  | recover
  | finish

section Machine

variable {ω ν φ : Type} [DecidableEq ν] (sem : ω → Action ν φ)
  (start : Machine ω ν φ → Prop) (plan : Entries ν φ → List ω → Prop)

def crashSystem : TransitionSystem (Machine ω ν φ) Event where
  init := start
  step m a m' := match a with
    | .perform => ∃ op rest d, m.todo = op :: rest ∧ m.dir.perform (sem op) = some d ∧
        m' = { m with dir := d, todo := rest }
    | .powerLoss => ∃ e, m.dir.Image e ∧ m' = ⟨.settled e, [], .down⟩
    | .kill => m' = { m with todo := [], stage := .down }
    | .recover => ∃ ops, m.stage = .down ∧ plan m.dir.live ops ∧
        m' = { m with todo := ops, stage := .recovering }
    | .finish => m.stage = .recovering ∧ m.todo = [] ∧ m' = { m with stage := .recovered }

variable {d : Directory ν φ}

theorem reachable_performAll {S : TransitionSystem (Machine ω ν φ) Event}
    (hS : ∀ m m', (crashSystem sem start plan).step m .perform m' → S.step m .perform m')
    {ops rest : List ω} {d' : Directory ν φ} {stage : Stage}
    (h : S.Reachable ⟨d, ops ++ rest, stage⟩)
    (hrun : ops.foldlM (fun d op => d.perform (sem op)) d = some d') :
    S.Reachable ⟨d', rest, stage⟩ := by
  induction ops generalizing d with
  | nil => exact Option.some.inj hrun ▸ h
  | cons op ops ih =>
    rw [foldlM_cons] at hrun
    obtain ⟨d₁, hd₁, hrest⟩ := Option.bind_eq_some_iff.mp hrun
    have hstep : (crashSystem sem start plan).step ⟨d, op :: ops ++ rest, stage⟩ .perform
        ⟨d₁, ops ++ rest, stage⟩ := ⟨op, ops ++ rest, d₁, rfl, hd₁, rfl⟩
    exact ih (.step h (hS _ _ hstep)) hrest

/-- What is known of a machine between two events. -/
structure Guarded (K : Assertion ν φ → Prop) (guard : ω → Entries ν φ → Prop)
    (goal : Entries ν φ → Prop) (m : Machine ω ν φ) : Prop where
  meets : ∃ A, K A ∧ m.dir.Meets A ∧
    (m.stage = .working → Follows sem K (fun _ _ => True) (fun _ => True) m.todo A) ∧
    (m.stage = .recovering → Follows sem K guard goal m.todo A)
  recovering : m.stage = .recovering →
    ∃ e ops, (∃ A, K A ∧ A.image e) ∧ plan e (ops ++ m.todo) ∧ runAll sem ops e = some m.dir.live
  recovered : m.stage = .recovered →
    goal m.dir.live ∧
      ∃ e ops, (∃ A, K A ∧ A.image e) ∧ plan e ops ∧ runAll sem ops e = some m.dir.live
  idle : m.stage = .down ∨ m.stage = .recovered → m.todo = []

variable {sem start plan} {K : Assertion ν φ → Prop} {guard : ω → Entries ν φ → Prop}
  {goal : Entries ν φ → Prop} {ok : Directory ν φ → Prop}

theorem Guarded.down {A : Assertion ν φ} (hK : K A) (hmeets : d.Meets A) :
    Guarded sem plan K guard goal ⟨d, [], .down⟩ :=
  ⟨⟨A, hK, hmeets, nofun, nofun⟩, nofun, nofun, fun _ => rfl⟩

theorem Guarded.perform {m : Machine ω ν φ} {op : ω} {rest : List ω}
    (h : Guarded sem plan K guard goal m) (htodo : m.todo = op :: rest)
    (hd : m.dir.perform (sem op) = some d) :
    Guarded sem plan K guard goal { m with dir := d, todo := rest } := by
  obtain ⟨A, hK, hmeets, hwork, hrec⟩ := h.meets
  have hnext : ∀ {guard' : ω → Entries ν φ → Prop} {goal' : Entries ν φ → Prop},
      Follows sem K guard' goal' m.todo A →
      ∃ B, (sem op).Takes A B ∧ Follows sem K guard' goal' rest B := by
    intro guard' goal' hf
    rw [htodo] at hf
    exact hf.2.2
  have hbusy : ¬ (m.stage = .down ∨ m.stage = .recovered) := by
    intro hidle
    rw [h.idle hidle] at htodo
    exact nomatch htodo
  cases hstage : m.stage with
  | down => exact absurd (.inl hstage) hbusy
  | recovered => exact absurd (.inr hstage) hbusy
  | working =>
    obtain ⟨B, htakes, hrest⟩ := hnext (hwork hstage)
    exact ⟨⟨B, hrest.keeps, hmeets.perform htakes hd, fun _ => hrest, nofun⟩, nofun, nofun, nofun⟩
  | recovering =>
    obtain ⟨B, htakes, hrest⟩ := hnext (hrec hstage)
    obtain ⟨e, ops, hfrom, hplan, hrun⟩ := h.recovering hstage
    refine ⟨⟨B, hrest.keeps, hmeets.perform htakes hd, nofun, fun _ => hrest⟩, fun _ => ?_, nofun,
      nofun⟩
    refine ⟨e, ops ++ [op], hfrom, ?_, ?_⟩
    · rw [htodo] at hplan
      simpa using hplan
    · simp only [runAll, foldlM_append] at hrun ⊢
      rw [hrun]
      simp [Directory.run_live hd]

/-- The rule for programs that crash and recover. -/
theorem Guarded.of_reachable (hstart : ∀ m, start m → m.stage = .working ∧ ∃ A, m.dir.Meets A ∧
      Follows sem K (fun _ _ => True) (fun _ => True) m.todo A)
    (hloss : ∀ (d : Directory ν φ) A e, K A → d.Meets A → d.Image e →
      ∃ B, K B ∧ (Directory.settled e).Meets B)
    (hrecover : ∀ (d : Directory ν φ) A ops, K A → d.Meets A → ok d → plan d.live ops →
      ∃ B, d.Meets B ∧ Follows sem K guard goal ops B)
    {m : Machine ω ν φ}
    (h : ((crashSystem sem start plan).restrict
      (fun m a _ => a = .recover → ok m.dir)).Reachable m) :
    Guarded sem plan K guard goal m := by
  refine h.invariant (fun m hm => ?_) (fun m a m' hg hstep => ?_)
  · obtain ⟨hstage, A, hmeets, hf⟩ := hstart m hm
    refine ⟨⟨A, hf.keeps, hmeets, fun _ => hf, fun hs => ?_⟩, fun hs => ?_, fun hs => ?_,
      fun hs => ?_⟩ <;> simp [hstage] at hs
  · obtain ⟨hs, hok⟩ := hstep
    obtain ⟨A, hK, hmeets, -, hrec⟩ := hg.meets
    cases a with
    | perform =>
      obtain ⟨op, rest, d, htodo, hd, rfl⟩ := hs
      exact hg.perform htodo hd
    | powerLoss =>
      obtain ⟨e, he, rfl⟩ := hs
      obtain ⟨B, hB, hsettled⟩ := hloss m.dir A e hK hmeets he
      exact .down hB hsettled
    | kill =>
      cases hs
      exact .down hK hmeets
    | recover =>
      obtain ⟨ops, hdown, hplan, rfl⟩ := hs
      obtain ⟨B, hB, hf⟩ := hrecover m.dir A ops hK hmeets (hok rfl) hplan
      refine ⟨⟨B, hf.keeps, hB, nofun, fun _ => hf⟩, fun _ => ?_, nofun, nofun⟩
      exact ⟨m.dir.live, [], ⟨A, hK, hmeets.1 _ m.dir.image_live⟩, hplan, rfl⟩
    | finish =>
      obtain ⟨hstage, htodo, rfl⟩ := hs
      have hf := hrec hstage
      rw [htodo] at hf
      obtain ⟨e, ops, hfrom, hplan, hrun⟩ := hg.recovering hstage
      rw [htodo, append_nil] at hplan
      exact ⟨⟨A, hK, hmeets, nofun, nofun⟩, nofun,
        fun _ => ⟨hf.2 _ (hmeets.1 _ m.dir.image_live) hmeets.2, e, ops, hfrom, hplan, hrun⟩,
        fun _ => htodo⟩

end Machine

end Durable

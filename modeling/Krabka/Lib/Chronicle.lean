import Krabka.Lib.Ballots
import Mathlib.Data.List.Infix

/-!
# Logs that follow elected leaders

Replicas keep logs of records, every record belongs to an epoch, and in every
epoch at most one elected leader appends records of that epoch to its own log.
The other replicas copy the log of the leader of their epoch: they drop what
the leader does not have and take what they lack.

A `Chronicle` is the ghost of such a run.  It remembers for every epoch the log
the leader began with, the leader's log so far, who elected it, and for every
replica how much of the epoch's log it has held while in that epoch.

`LogInv` is the invariant, and it has one rule for each thing that happens to a
replica: its epoch grows (`raise`), it leads and appends (`append`), it copies
its leader (`follow`), it is elected (`elect`).  The result is
`LogInv.complete`: what a majority has held in an epoch is in the log that any
leader of a later epoch begins with.
-/

/-- What is remembered about the leaders and the logs of a run. -/
structure Chronicle (ι R : Type*) where
  /-- The log with which the leader of the epoch began. -/
  start : ℕ → Option (List R)
  /-- The log of that leader so far. -/
  log : ℕ → List R
  leader : ℕ → ι
  electors : ℕ → Finset ι
  /-- How much of the epoch's log the replica has held in that epoch. -/
  held : ι → ℕ → ℕ

open Chronicle List

open Function

namespace Chronicle

variable {ι R : Type*} {H H' : Chronicle ι R}

/-- A chronicle is only added to. -/
instance : Preorder (Chronicle ι R) where
  le H H' := (∀ e s, H.start e = some s → H'.start e = some s) ∧
    (∀ e, H.log e <+: H'.log e) ∧
    (∀ e s, H.start e = some s → H'.leader e = H.leader e ∧ H'.electors e = H.electors e) ∧
    ∀ x e, H.held x e ≤ H'.held x e
  le_refl H := ⟨fun _ _ h => h, fun _ => prefix_refl _, fun _ _ _ => ⟨rfl, rfl⟩,
    fun _ _ => le_rfl⟩
  le_trans H₁ H₂ H₃ h₁ h₂ := by
    obtain ⟨hs₁, hl₁, hr₁, hh₁⟩ := h₁
    obtain ⟨hs₂, hl₂, hr₂, hh₂⟩ := h₂
    refine ⟨fun e s h => hs₂ e s (hs₁ e s h), fun e => (hl₁ e).trans (hl₂ e), ?_,
      fun x e => (hh₁ x e).trans (hh₂ x e)⟩
    intro e s h
    obtain ⟨hleader, helectors⟩ := hr₂ e s (hs₁ e s h)
    exact ⟨hleader.trans (hr₁ e s h).1, helectors.trans (hr₁ e s h).2⟩

def blank [Inhabited ι] : Chronicle ι R :=
  ⟨fun _ => none, fun _ => [], fun _ => default, fun _ => ∅, fun _ _ => 0⟩

theorem start_mono (h : H ≤ H') {e : ℕ} {s : List R} (hs : H.start e = some s) :
    H'.start e = some s := h.1 e s hs

theorem log_mono (h : H ≤ H') (e : ℕ) : H.log e <+: H'.log e := h.2.1 e

theorem held_mono (h : H ≤ H') (x : ι) (e : ℕ) : H.held x e ≤ H'.held x e := h.2.2.2 x e

theorem take_log_of_le (h : H ≤ H') {e n : ℕ} (hn : n ≤ (H.log e).length) :
    (H'.log e).take n = (H.log e).take n := by
  obtain ⟨t, ht⟩ := log_mono h e
  rw [← ht, take_append_of_le_length hn]

/-- The first `n` records of an epoch's log reach the records of that epoch. -/
def Reaches (H : Chronicle ι R) (e n : ℕ) : Prop := ∃ s, H.start e = some s ∧ s.length < n

/-- The leader of `e'` began without the first `n` records of the log of `e`. -/
def Loses (H : Chronicle ι R) (e n e' : ℕ) : Prop :=
  ∃ s, H.start e' = some s ∧ ¬(H.log e).take n <+: s

theorem Loses.mono (h : H ≤ H') {e n e' : ℕ} (hn : n ≤ (H.log e).length)
    (hl : H.Loses e n e') : H'.Loses e n e' := by
  obtain ⟨s, hs, hnot⟩ := hl
  refine ⟨s, start_mono h hs, ?_⟩
  rwa [take_log_of_le h hn]

end Chronicle

section

variable {ι R : Type*} (ep : R → ℕ) {H H' : Chronicle ι R}

/-- Every record of the log stands where the leader of its epoch put it, after
the same records. -/
def Backed (H : Chronicle ι R) (l : List R) : Prop :=
  ∀ p r, p ++ [r] <+: l → p ++ [r] <+: H.log (ep r)

/-- The epoch of the last record, 0 in an empty log. -/
def lastEpoch (l : List R) : ℕ := (l.getLast?.map ep).getD 0

@[simp] theorem lastEpoch_concat (p : List R) (r : R) : lastEpoch ep (p ++ [r]) = ep r := by
  simp [lastEpoch]

variable {l : List R} {n : ℕ}

theorem lastEpoch_le (h : ∀ r ∈ l, ep r ≤ n) : lastEpoch ep l ≤ n := by
  rcases eq_nil_or_concat l with rfl | ⟨p, r, rfl⟩
  · exact Nat.zero_le n
  · rw [concat_eq_append] at h ⊢
    rw [lastEpoch_concat]
    exact h r (by simp)

/-- The comparison of logs before a vote. -/
def UpToDate (cand own : List R) : Prop :=
  lastEpoch ep own < lastEpoch ep cand ∨
    lastEpoch ep cand = lastEpoch ep own ∧ own.length ≤ cand.length

/-- The log ends at or after the first `n` records of the epoch `e`. -/
def Dominates (l : List R) (e n : ℕ) : Prop :=
  ∃ p r, l = p ++ [r] ∧ (e < ep r ∨ ep r = e ∧ n ≤ l.length)

/-- What `x` held before `e'` is dominated by the log `l`, unless a leader of
an epoch up to `e'` began without it. -/
def Supports (H : Chronicle ι R) (x : ι) (l : List R) (e' : ℕ) : Prop :=
  ∀ e n, e < e' → H.Reaches e n → n ≤ H.held x e →
    Dominates ep l e n ∨ ∃ e'', e < e'' ∧ e'' ≤ e' ∧ H.Loses e n e''

/-- A chronicle of leaders that only append records of their own epoch. -/
structure Chronicle.Valid (H : Chronicle ι R) : Prop where
  unborn : ∀ e, H.start e = none → H.log e = [] ∧ ∀ x, H.held x e = 0
  own : ∀ e s, H.start e = some s →
    ∃ t, H.log e = s ++ t ∧ (∀ r ∈ s, ep r < e) ∧ ∀ r ∈ t, ep r = e
  backed : ∀ e, Backed ep H (H.log e)
  held_le : ∀ x e, H.held x e ≤ (H.log e).length

variable {ep}

theorem Backed.of_isPrefix {l' : List R} (h : Backed ep H l) (hp : l' <+: l) : Backed ep H l' :=
  fun p r hpr => h p r (hpr.trans hp)

theorem Backed.mono (h : Backed ep H l) (hle : H ≤ H') : Backed ep H' l :=
  fun p r hpr => (h p r hpr).trans (log_mono hle _)

theorem Backed.take_eq {l' : List R} {r r' : R} (h : Backed ep H l) (h' : Backed ep H l')
    (hr : l[n]? = some r) (hr' : l'[n]? = some r') (he : ep r = ep r') :
    l.take (n + 1) = l'.take (n + 1) := by
  have hplace : ∀ {k : List R} {q : R}, Backed ep H k → k[n]? = some q →
      k.take (n + 1) <+: H.log (ep q) ∧ (k.take (n + 1)).length = n + 1 := by
    intro k q hk hq
    have hlt : n < k.length := (List.getElem?_eq_some_iff.mp hq).1
    have htake : k.take (n + 1) = k.take n ++ [q] := by simp [take_add_one, hq]
    exact ⟨htake ▸ hk _ _ (htake ▸ take_prefix _ _), by simp; omega⟩
  obtain ⟨hp, hlen⟩ := hplace h hr
  obtain ⟨hp', hlen'⟩ := hplace h' hr'
  exact (prefix_of_prefix_length_le hp (he ▸ hp') (by omega)).eq_of_length (by omega)

theorem take_prefix_of_length_le {l' : List R} (h : l <+: l') (hn : n ≤ l.length) :
    l'.take n <+: l := by
  obtain ⟨t, rfl⟩ := h
  rw [take_append_of_le_length hn]
  exact take_prefix n l

namespace Chronicle.Valid

variable {e n : ℕ} {x : ι}

theorem start_of_log (h : H.Valid ep) (hne : H.log e ≠ []) : ∃ s, H.start e = some s := by
  cases hs : H.start e with
  | none => exact absurd (h.unborn e hs).1 hne
  | some s => exact ⟨s, rfl⟩

theorem start_isPrefix (h : H.Valid ep) {s : List R} (hs : H.start e = some s) : s <+: H.log e := by
  obtain ⟨t, ht, -⟩ := h.own e s hs
  exact ⟨t, ht.symm⟩

theorem epoch_le (h : H.Valid ep) {r : R} (hr : r ∈ H.log e) : ep r ≤ e := by
  obtain ⟨s, hs⟩ := h.start_of_log (ne_nil_of_mem hr)
  obtain ⟨t, ht, hlt, heq⟩ := h.own e s hs
  rw [ht, mem_append] at hr
  rcases hr with hr | hr
  · exact (hlt r hr).le
  · exact (heq r hr).le

theorem le_last (h : H.Valid ep) {p : List R} {r q : R} (hb : Backed ep H (p ++ [r]))
    (hq : q ∈ p) : ep q ≤ ep r :=
  h.epoch_le ((hb p r (prefix_refl _)).subset (mem_append_left _ hq))

theorem le_lastEpoch (h : H.Valid ep) {l : List R} {q : R} (hb : Backed ep H l) (hq : q ∈ l) :
    ep q ≤ lastEpoch ep l := by
  rcases eq_nil_or_concat l with rfl | ⟨p, r, rfl⟩
  · cases hq
  rw [concat_eq_append] at hb hq ⊢
  rw [lastEpoch_concat]
  rcases mem_append.mp hq with hq | hq
  · exact h.le_last hb hq
  · rw [mem_singleton.mp hq]

theorem pairwise (h : H.Valid ep) {l : List R} (hb : Backed ep H l) :
    (l.map ep).Pairwise (· ≤ ·) := by
  induction l using reverseRecOn with
  | nil => simp
  | append_singleton p r ih =>
    rw [map_append, pairwise_append]
    refine ⟨ih (hb.of_isPrefix (prefix_append _ _)), by simp, ?_⟩
    intro a ha b' hb'
    obtain ⟨q, hq, rfl⟩ := mem_map.mp ha
    obtain ⟨r', hr', rfl⟩ := mem_map.mp hb'
    rw [mem_singleton.mp hr']
    exact h.le_last hb hq

theorem take_reaches (h : H.Valid ep) (hr : H.Reaches e n) (hn : n ≤ (H.log e).length) :
    ∃ p r, (H.log e).take n = p ++ [r] ∧ ep r = e := by
  obtain ⟨s, hs, hlt⟩ := hr
  obtain ⟨t, ht, -, heq⟩ := h.own e s hs
  have hne : (H.log e).take n ≠ [] := by
    intro hnil
    have := congrArg length hnil
    rw [length_take, length_nil] at this
    omega
  rcases eq_nil_or_concat ((H.log e).take n) with hnil | ⟨p, r, hpr⟩
  · exact absurd hnil hne
  rw [concat_eq_append] at hpr
  refine ⟨p, r, hpr, heq r ?_⟩
  -- The record at `n - 1` lies behind the log the leader began with.
  have hlen : p.length + 1 = n := by
    have := congrArg length hpr
    rw [length_take, length_append, length_singleton] at this
    omega
  have hget : (H.log e)[p.length]? = some r := by
    have : ((H.log e).take n)[p.length]? = some r := by rw [hpr]; simp
    rwa [getElem?_take_of_lt (by omega)] at this
  rw [ht, getElem?_append_right (by omega)] at hget
  exact mem_of_getElem? hget

theorem reaches_of_le (h : H.Valid ep) (hle : H ≤ H') (hr : H'.Reaches e n)
    (hn : n ≤ H.held x e) : H.Reaches e n := by
  obtain ⟨s, hs, hlt⟩ := hr
  cases hs' : H.start e with
  | none =>
    have := (h.unborn e hs').2 x
    omega
  | some s' =>
    rw [start_mono hle hs'] at hs
    exact ⟨s', hs', Option.some.inj hs ▸ hlt⟩

end Chronicle.Valid

variable {x : ι} {e' : ℕ}

theorem Supports.mono (h : Supports ep H x l e')
    (hv : H.Valid ep) (hle : H ≤ H') (hheld : ∀ e, e < e' → H'.held x e = H.held x e) :
    Supports ep H' x l e' := by
  intro e n hlt hr hn
  rw [hheld e hlt] at hn
  rcases h e n hlt (hv.reaches_of_le hle hr hn) hn with hdom | ⟨e'', h₁, h₂, hl⟩
  · exact .inl hdom
  · exact .inr ⟨e'', h₁, h₂, hl.mono hle (hn.trans (hv.held_le x e))⟩

/-! ## The invariant -/

variable (ep) in
/-- The logs of the replicas, each in its epoch, follow the chronicle. -/
structure LogInv (V : Finset ι) (H : Chronicle ι R) (epoch : ι → ℕ) (logs : ι → List R) : Prop where
  valid : H.Valid ep
  backed : ∀ x, Backed ep H (logs x)
  bound : ∀ x, ∀ r ∈ logs x, ep r ≤ epoch x
  held_bound : ∀ x e, epoch x < e → H.held x e = 0
  held_log : ∀ x p r, logs x = p ++ [r] → ep r = epoch x →
    (logs x).length ≤ H.held x (epoch x)
  keeps : ∀ x e n, H.Reaches e n → n ≤ H.held x e →
    (H.log e).take n <+: logs x ∨ ∃ e', e < e' ∧ e' ≤ epoch x ∧ H.Loses e n e'
  majority : ∀ e s, H.start e = some s → IsMajority V (H.electors e)
  elected : ∀ e' s, H.start e' = some s → ∀ y ∈ H.electors e', e' ≤ epoch y ∧
    ∀ e n, e < e' → H.Reaches e n → n ≤ H.held y e →
      Dominates ep s e n ∨ ∃ e'', e < e'' ∧ e'' < e' ∧ H.Loses e n e''

namespace LogInv

variable {V : Finset ι} {epoch epoch' : ι → ℕ} {logs : ι → List R}

/-- **Leader completeness.**  What a majority has held of the log of `e` is in
the log with which a leader of a later epoch begins. -/
theorem complete [DecidableEq ι] (h : LogInv ep V H epoch logs) {e n : ℕ} {M : Finset ι}
    (hM : IsMajority V M) (hheld : ∀ x ∈ M, n ≤ H.held x e) (hr : H.Reaches e n) {e' : ℕ}
    {s : List R} (hlt : e < e') (hs : H.start e' = some s) : (H.log e).take n <+: s := by
  -- Strong induction on the later epoch: the leaders between are complete.
  induction e' using Nat.strong_induction_on generalizing s with
  | _ e' ih =>
    obtain ⟨y, hy⟩ := hM.inter_nonempty (h.majority e' s hs)
    rw [Finset.mem_inter] at hy
    have hny := hheld y hy.1
    have hn : n ≤ (H.log e).length := hny.trans (h.valid.held_le y e)
    rcases (h.elected e' s hs y hy.2).2 e n hlt hr hny with
      ⟨p, r, rfl, hlast⟩ | ⟨e'', h₁, h₂, s'', hs'', hnot⟩
    · have hsp : p ++ [r] <+: H.log e' := h.valid.start_isPrefix hs
      have hb : p ++ [r] <+: H.log (ep r) := h.valid.backed e' p r hsp
      rcases hlast with hlater | ⟨rfl, hlen⟩
      · -- The last record is of a leader between `e` and `e'`.
        obtain ⟨s₁, hs₁⟩ := h.valid.start_of_log (e := ep r)
          (ne_nil_of_mem (hb.subset (mem_append_right _ (mem_singleton_self r))))
        obtain ⟨t', ht', hlt', -⟩ := h.valid.own e' _ hs
        have hrlt : ep r < e' := hlt' r (by simp)
        have hP := ih (ep r) hrlt hlater hs₁
        refine hP.trans (prefix_of_prefix_length_le (h.valid.start_isPrefix hs₁) hb ?_)
        obtain ⟨t₁, ht₁, hlt₁, -⟩ := h.valid.own (ep r) s₁ hs₁
        by_contra hshort
        rw [not_le] at hshort
        have hin : p ++ [r] <+: s₁ :=
          prefix_of_prefix_length_le hb (h.valid.start_isPrefix hs₁) hshort.le
        exact absurd (hlt₁ r (hin.subset (by simp))) (lt_irrefl _)
      · exact take_prefix_of_length_le hb hlen
    · exact absurd (ih e'' h₂ h₁ hs'') hnot

theorem holds [DecidableEq ι] (h : LogInv ep V H epoch logs) {e n : ℕ} {M : Finset ι}
    (hM : IsMajority V M) (hheld : ∀ x ∈ M, n ≤ H.held x e) (hr : H.Reaches e n)
    (hx : n ≤ H.held x e) : (H.log e).take n <+: logs x := by
  rcases h.keeps x e n hr hx with hp | ⟨e', hlt, -, s, hs, hnot⟩
  · exact hp
  · exact absurd (h.complete hM hheld hr hlt hs) hnot

theorem init [Inhabited ι] (h : ∀ x, logs x = []) :
    LogInv ep V (.blank : Chronicle ι R) epoch logs where
  valid :=
    { unborn := fun _ _ => ⟨rfl, fun _ => rfl⟩
      own := fun _ _ hs => by cases hs
      backed := fun _ p r hp => by simp [Chronicle.blank] at hp
      held_le := fun _ _ => Nat.zero_le _ }
  backed x p r hp := by simp [h x] at hp
  bound x r hr := by simp [h x] at hr
  held_bound _ _ _ := rfl
  held_log x p r hl := by simp [h x] at hl
  keeps _ _ _ hr := by
    obtain ⟨s, hs, -⟩ := hr
    cases hs
  majority _ _ hs := by cases hs
  elected _ _ hs := by cases hs

theorem raise (h : LogInv ep V H epoch logs) (hle : ∀ x, epoch x ≤ epoch' x) :
    LogInv ep V H epoch' logs where
  valid := h.valid
  backed := h.backed
  bound x r hr := (h.bound x r hr).trans (hle x)
  held_bound x e he := h.held_bound x e (lt_of_le_of_lt (hle x) he)
  held_log x p r hl hr := by
    have hb := h.bound x r (by rw [hl]; simp)
    have heq : epoch' x = epoch x := le_antisymm (hr ▸ hb) (hle x)
    rw [heq] at hr ⊢
    exact h.held_log x p r hl hr
  keeps x e n hr hn := by
    rcases h.keeps x e n hr hn with hp | ⟨e', h₁, h₂, hl⟩
    · exact .inl hp
    · exact .inr ⟨e', h₁, h₂.trans (hle x), hl⟩
  majority := h.majority
  elected e' s hs y hy := by
    obtain ⟨he, hdom⟩ := h.elected e' s hs y hy
    exact ⟨he.trans (hle y), hdom⟩

theorem keeps_of_le (h : LogInv ep V H epoch logs) (hle : H ≤ H') {e n : ℕ}
    (hr : H'.Reaches e n) (hn : n ≤ H.held x e) :
    (H'.log e).take n <+: logs x ∨ ∃ e', e < e' ∧ e' ≤ epoch x ∧ H'.Loses e n e' := by
  have hlen := hn.trans (h.valid.held_le x e)
  rw [take_log_of_le hle hlen]
  rcases h.keeps x e n (h.valid.reaches_of_le hle hr hn) hn with hp | ⟨e', h₁, h₂, hl⟩
  · exact .inl hp
  · exact .inr ⟨e', h₁, h₂, hl.mono hle hlen⟩

theorem supports (h : LogInv ep V H epoch logs) {l : List R} {e' : ℕ}
    (hup : UpToDate ep l (logs x)) (hle : epoch x ≤ e') : Supports ep H x l e' := by
  intro e n hlt hr hn
  rcases h.keeps x e n hr hn with hp | ⟨e'', h₁, h₂, hl⟩
  · refine .inl ?_
    have hnl := hn.trans (h.valid.held_le x e)
    obtain ⟨p, r, hpr, hepr⟩ := h.valid.take_reaches hr hnl
    have hlen : n ≤ (logs x).length := by
      have := hp.length_le
      rw [length_take] at this
      omega
    have hpos : 0 < n := by
      obtain ⟨s, -, hs⟩ := hr
      omega
    have hlast : e ≤ lastEpoch ep (logs x) := by
      rw [← hepr]
      exact h.valid.le_lastEpoch (h.backed x) (hp.subset (by rw [hpr]; simp))
    rcases eq_nil_or_concat l with rfl | ⟨p', r', rfl⟩
    · rcases hup with hlt' | ⟨-, hlen'⟩
      · simp [lastEpoch] at hlt'
      · rw [length_nil] at hlen'
        omega
    · rw [concat_eq_append] at hup ⊢
      rw [UpToDate, lastEpoch_concat] at hup
      refine ⟨p', r', rfl, ?_⟩
      rcases hup with hlt' | ⟨heq, hlen'⟩
      · exact .inl (lt_of_le_of_lt hlast hlt')
      · rcases Nat.lt_or_eq_of_le (heq ▸ hlast) with hlt' | heq'
        · exact .inl hlt'
        · exact .inr ⟨heq'.symm, hlen.trans hlen'⟩
  · exact .inr ⟨e'', h₁, h₂.trans hle, hl⟩

theorem update [DecidableEq ι] (h : LogInv ep V H epoch logs) {l : List R}
    (hle : H ≤ H') (hv : H'.Valid ep) (hstart : ∀ e, H'.start e = H.start e)
    (helectors : ∀ e, H'.electors e = H.electors e)
    (hheld : ∀ y e, ¬(y = x ∧ e = epoch x) → H'.held y e = H.held y e)
    (hb : Backed ep H' l) (hbound : ∀ r ∈ l, ep r ≤ epoch x)
    (hlog : ∀ p r, l = p ++ [r] → ep r = epoch x → l.length ≤ H'.held x (epoch x))
    (hkeeps : ∀ e n, H'.Reaches e n → n ≤ H'.held x e →
      (H'.log e).take n <+: l ∨ ∃ e', e < e' ∧ e' ≤ epoch x ∧ H'.Loses e n e') :
    LogInv ep V H' epoch (Function.update logs x l) := by
  refine ⟨hv, ?_, ?_, ?_, ?_, ?_, ?_, ?_⟩
  · intro y
    by_cases hy : y = x
    · subst hy
      rwa [update_self]
    · rw [update_of_ne hy]
      exact (h.backed y).mono hle
  · intro y
    by_cases hy : y = x
    · subst hy
      rwa [update_self]
    · rw [update_of_ne hy]
      exact h.bound y
  · intro y e he
    rw [hheld y e (fun hx => by
      obtain ⟨rfl, rfl⟩ := hx
      exact lt_irrefl _ he)]
    exact h.held_bound y e he
  · intro y p r hl hr
    by_cases hy : y = x
    · subst hy
      rw [update_self] at hl ⊢
      exact hlog p r hl hr
    · rw [update_of_ne hy] at hl ⊢
      exact (h.held_log y p r hl hr).trans (held_mono hle _ _)
  · intro y e n hr hn
    by_cases hy : y = x
    · subst hy
      rw [update_self]
      exact hkeeps e n hr hn
    · rw [update_of_ne hy]
      rw [hheld y e (fun hx => hy hx.1)] at hn
      exact h.keeps_of_le hle hr hn
  · intro e s hs
    rw [helectors]
    exact h.majority e s (hstart e ▸ hs)
  · intro e' s hs y hy
    rw [helectors] at hy
    obtain ⟨he, hdom⟩ := h.elected e' s (hstart e' ▸ hs) y hy
    refine ⟨he, fun e n hlt hr hn => ?_⟩
    -- What an elector held before its vote is not added to.
    rw [hheld y e (fun hx => by
      obtain ⟨rfl, rfl⟩ := hx
      omega)] at hn
    rcases hdom e n hlt (h.valid.reaches_of_le hle hr hn) hn with hd | ⟨e'', h₁, h₂, hl⟩
    · exact .inl hd
    · exact .inr ⟨e'', h₁, h₂, hl.mono hle (hn.trans (h.valid.held_le y e))⟩

end LogInv

/-! ## A leader appends -/

section Copy

variable [DecidableEq ι] {V : Finset ι} {epoch : ι → ℕ} {logs : ι → List R}

/-- `x`, the leader of `e`, appends records. -/
def Chronicle.append (H : Chronicle ι R) (x : ι) (e : ℕ) (recs : List R) : Chronicle ι R :=
  { H with
    log := Function.update H.log e (H.log e ++ recs)
    held := fun y e' =>
      if y = x ∧ e' = e then (H.log e ++ recs).length else H.held y e' }

theorem Chronicle.append_log_self (x : ι) (e : ℕ) (recs : List R) :
    (H.append x e recs).log e = H.log e ++ recs := update_self ..

variable {e : ℕ}

theorem Chronicle.append_log_of_ne (x : ι) (recs : List R)
    (he : e' ≠ e) : (H.append x e recs).log e' = H.log e' := update_of_ne he ..

theorem Chronicle.append_held_self (x : ι) (e : ℕ) (recs : List R) :
    (H.append x e recs).held x e = (H.log e ++ recs).length := if_pos ⟨rfl, rfl⟩

theorem Chronicle.append_held_of_ne {y : ι} (recs : List R)
    (hne : ¬(y = x ∧ e' = e)) : (H.append x e recs).held y e' = H.held y e' := if_neg hne

theorem Chronicle.Valid.le_append (h : H.Valid ep) (x : ι) (e : ℕ)
    (recs : List R) : H ≤ H.append x e recs := by
  refine ⟨fun _ _ hs => hs, fun e' => ?_, fun _ _ _ => ⟨rfl, rfl⟩, fun y e' => ?_⟩
  · by_cases he : e' = e
    · subst he
      rw [append_log_self]
      exact prefix_append _ _
    · rw [append_log_of_ne x recs he]
  · by_cases hye : y = x ∧ e' = e
    · obtain ⟨rfl, rfl⟩ := hye
      rw [append_held_self, length_append]
      exact (h.held_le y e').trans (Nat.le_add_right _ _)
    · rw [append_held_of_ne recs hye]

variable {s : List R}

theorem Chronicle.Valid.append (h : H.Valid ep) {recs : List R}
    (hs : H.start e = some s) (hrecs : ∀ r ∈ recs, ep r = e) : (H.append x e recs).Valid ep := by
  have hle := h.le_append x e recs
  constructor
  · intro e' hnone
    have hne : e' ≠ e := by
      rintro rfl
      rw [show (H.append x e' recs).start e' = H.start e' from rfl, hs] at hnone
      cases hnone
    rw [append_log_of_ne x recs hne]
    refine ⟨(h.unborn e' hnone).1, fun y => ?_⟩
    rw [append_held_of_ne recs (fun hy => hne hy.2)]
    exact (h.unborn e' hnone).2 y
  · intro e' s' hs'
    obtain ⟨t, ht, hlt, heq⟩ := h.own e' s' hs'
    by_cases he : e' = e
    · subst he
      refine ⟨t ++ recs, by rw [append_log_self, ht, append_assoc], hlt, ?_⟩
      intro r hr
      rcases mem_append.mp hr with hr | hr
      exacts [heq r hr, hrecs r hr]
    · exact ⟨t, by rw [append_log_of_ne x recs he, ht], hlt, heq⟩
  · intro e' p r hp
    by_cases he : e' = e
    · subst he
      rw [append_log_self] at hp
      -- Either the record was there before, or it is one of the new ones.
      rcases Nat.lt_or_ge (H.log e').length (p ++ [r]).length with hnew | hold
      · have hr : r ∈ recs := by
          obtain ⟨t, ht⟩ := hp
          have hget : (H.log e' ++ recs)[p.length]? = some r := by rw [← ht]; simp
          rw [length_append, length_singleton] at hnew
          rw [getElem?_append_right (by omega)] at hget
          exact mem_of_getElem? hget
        rw [hrecs r hr, append_log_self]
        exact hp
      · have hp' := prefix_of_prefix_length_le hp (prefix_append _ _) hold
        exact (h.backed e' p r hp').trans (log_mono hle _)
    · rw [append_log_of_ne x recs he] at hp
      exact (h.backed e' p r hp).trans (log_mono hle _)
  · intro y e'
    by_cases hye : y = x ∧ e' = e
    · obtain ⟨rfl, rfl⟩ := hye
      rw [append_held_self, append_log_self]
    · rw [append_held_of_ne recs hye]
      exact (h.held_le y e').trans (log_mono hle e').length_le

/-- **The leader of an epoch appends records of that epoch.** -/
theorem LogInv.append (h : LogInv ep V H epoch logs) {recs : List R}
    (hs : H.start (epoch x) = some s)
    (hlog : logs x = H.log (epoch x)) (hrecs : ∀ r ∈ recs, ep r = epoch x) :
    LogInv ep V (H.append x (epoch x) recs) epoch (Function.update logs x (logs x ++ recs)) := by
  have hle := h.valid.le_append x (epoch x) recs
  have hv : (H.append x (epoch x) recs).Valid ep := h.valid.append hs hrecs
  have hnew : (H.append x (epoch x) recs).log (epoch x) = logs x ++ recs := by
    rw [hlog, append_log_self]
  refine h.update hle hv (fun _ => rfl) (fun _ => rfl)
    (fun y e hne => append_held_of_ne recs hne) ?_ ?_ ?_ ?_
  · rw [← hnew]
    exact hv.backed _
  · intro r hr
    rw [← hnew] at hr
    exact hv.epoch_le hr
  · intro p r _ _
    rw [append_held_self, hlog]
  · intro e n hr hn
    by_cases he : e = epoch x
    · subst he
      rw [hnew]
      exact .inl <| take_prefix _ _
    · have hn' : n ≤ H.held x e := by
        rwa [append_held_of_ne recs (fun hx => he hx.2)] at hn
      exact (h.keeps_of_le hle hr hn').imp_left fun hp => hp.trans (prefix_append _ _)

/-! ## A replica copies its leader -/

/-- `x` has the log `l` in the epoch `e`. -/
def Chronicle.hold (ep : R → ℕ) (H : Chronicle ι R) (x : ι) (e : ℕ) (l : List R) : Chronicle ι R :=
  { H with
    held := fun y e' =>
      if y = x ∧ e' = e ∧ l ≠ [] ∧ lastEpoch ep l = e then max (H.held x e) l.length
      else H.held y e' }

theorem Chronicle.hold_held_of_ne {y : ι} (l : List R)
    (hne : ¬(y = x ∧ e' = e)) : (H.hold ep x e l).held y e' = H.held y e' :=
  if_neg (fun h => hne ⟨h.1, h.2.1⟩)

theorem Chronicle.le_hold (x : ι) (e : ℕ) (l : List R) : H ≤ H.hold ep x e l := by
  refine ⟨fun _ _ hs => hs, fun _ => prefix_refl _, fun _ _ _ => ⟨rfl, rfl⟩, ?_⟩
  intro y e'
  unfold Chronicle.hold
  dsimp only
  split_ifs with hye
  · obtain ⟨rfl, rfl, -⟩ := hye
    exact le_max_left _ _
  · exact le_rfl

theorem Chronicle.hold_held
    (hb : Backed ep H l) (hn : n ≤ (H.hold ep x e l).held x e) :
    n ≤ H.held x e ∨ l <+: H.log e ∧ n ≤ l.length := by
  unfold Chronicle.hold at hn
  dsimp only at hn
  split_ifs at hn with hl
  · obtain ⟨-, -, hne, hlast⟩ := hl
    rcases le_max_iff.mp hn with hold | hnew
    · exact .inl hold
    · rcases eq_nil_or_concat l with rfl | ⟨p, r, rfl⟩
      · exact absurd rfl hne
      · rw [concat_eq_append] at hb hlast hnew ⊢
        rw [lastEpoch_concat] at hlast
        subst hlast
        exact .inr ⟨hb p r (prefix_refl _), hnew⟩
  · exact .inl hn

/-- **A replica copies its leader.**  It drops nothing that it shares with the
leader of its epoch, and it takes records from logs of leaders only. -/
theorem LogInv.follow (h : LogInv ep V H epoch logs) (hs : H.start (epoch x) = some s)
    (hb : Backed ep H l) (hbound : ∀ r ∈ l, ep r ≤ epoch x)
    (hkeep : ∀ P, P <+: logs x → P <+: H.log (epoch x) → P <+: l) :
    LogInv ep V (H.hold ep x (epoch x) l) epoch (Function.update logs x l) := by
  have hle : H ≤ H.hold ep x (epoch x) l := le_hold x _ l
  have hv : (H.hold ep x (epoch x) l).Valid ep := by
    refine ⟨fun e hnone => ⟨(h.valid.unborn e hnone).1, fun y => ?_⟩, h.valid.own,
      fun e => (h.valid.backed e).mono hle, fun y e => ?_⟩
    · rw [hold_held_of_ne l (fun hy => by
        rw [← hy.2, show H.start e = none from hnone] at hs
        cases hs)]
      exact (h.valid.unborn e hnone).2 y
    · by_cases hye : y = x ∧ e = epoch x
      · obtain ⟨rfl, rfl⟩ := hye
        rcases hold_held hb (le_refl ((H.hold ep y (epoch y) l).held y (epoch y))) with
          hn | ⟨hp, hn⟩
        · exact hn.trans (h.valid.held_le y _)
        · exact hn.trans hp.length_le
      · rw [hold_held_of_ne l hye]
        exact h.valid.held_le y e
  refine h.update hle hv (fun _ => rfl) (fun _ => rfl)
    (fun y e hne => hold_held_of_ne l hne) (hb.mono hle) hbound ?_ ?_
  · intro p r hl hr
    subst hl
    have hheld : (H.hold ep x (epoch x) (p ++ [r])).held x (epoch x) =
        max (H.held x (epoch x)) (p ++ [r]).length :=
      if_pos ⟨rfl, rfl, by simp, by rw [lastEpoch_concat, hr]⟩
    rw [hheld]
    exact le_max_right _ _
  · intro e n hr hn
    have hold : n ≤ H.held x e → (H.log e).take n <+: l ∨
        ∃ e', e < e' ∧ e' ≤ epoch x ∧ H.Loses e n e' := by
      intro hn
      rcases h.keeps x e n hr hn with hp | hlost
      · by_cases hpl : (H.log e).take n <+: H.log (epoch x)
        · exact .inl (hkeep _ hp hpl)
        · -- The leader of this epoch does not have it: it began without it.
          refine .inr ⟨epoch x, ?_, le_rfl, s, hs, fun hps =>
            hpl (hps.trans (h.valid.start_isPrefix hs))⟩
          by_contra hge
          rcases Nat.eq_or_lt_of_le (not_lt.mp hge) with heq | hlt
          · rw [heq] at hpl
            exact hpl <| take_prefix _ _
          · have := h.held_bound x e hlt
            obtain ⟨s', -, hs'⟩ := hr
            omega
      · exact .inr hlost
    by_cases he : e = epoch x
    · subst he
      rcases hold_held hb hn with hn | ⟨hp, hn⟩
      · exact hold hn
      · exact .inl (take_prefix_of_length_le hp hn)
    · rw [hold_held_of_ne l (fun hx => he hx.2)] at hn
      exact hold hn

end Copy

/-! ## An election -/

/-- `c` is elected in `e'` by `Q` and begins with the log `l`. -/
def Chronicle.elect (H : Chronicle ι R) (c : ι) (e' : ℕ) (Q : Finset ι) (l : List R) :
    Chronicle ι R :=
  { H with
    start := Function.update H.start e' (some l)
    log := Function.update H.log e' l
    leader := Function.update H.leader e' c
    electors := Function.update H.electors e' Q }

section Elect

variable {c : ι} {e e' : ℕ} {Q : Finset ι} {l : List R}

theorem Chronicle.elect_start_self : (H.elect c e' Q l).start e' = some l :=
  update_self ..

theorem Chronicle.elect_start_of_ne (he : e ≠ e') : (H.elect c e' Q l).start e = H.start e :=
  update_of_ne he ..

theorem Chronicle.elect_log_self : (H.elect c e' Q l).log e' = l := update_self ..

theorem Chronicle.elect_log_of_ne (he : e ≠ e') : (H.elect c e' Q l).log e = H.log e :=
  update_of_ne he ..

theorem Chronicle.elect_leader_self : (H.elect c e' Q l).leader e' = c := update_self ..

theorem Chronicle.elect_leader_of_ne (he : e ≠ e') :
    (H.elect c e' Q l).leader e = H.leader e := update_of_ne he ..

theorem Chronicle.elect_electors_self : (H.elect c e' Q l).electors e' = Q :=
  update_self ..

theorem Chronicle.elect_electors_of_ne (he : e ≠ e') :
    (H.elect c e' Q l).electors e = H.electors e := update_of_ne he ..

theorem Chronicle.Valid.le_elect (h : H.Valid ep) (hnone : H.start e' = none) (c : ι)
    (Q : Finset ι) (l : List R) : H ≤ H.elect c e' Q l := by
  have hne : ∀ e s, H.start e = some s → e ≠ e' := by
    rintro e s hs rfl
    rw [hnone] at hs
    cases hs
  refine ⟨fun e s hs => ?_, fun e => ?_, fun e s hs => ?_, fun _ _ => le_rfl⟩
  · rw [elect_start_of_ne (hne e s hs), hs]
  · by_cases he : e = e'
    · subst he
      rw [(h.unborn e hnone).1]
      exact nil_prefix
    · rw [elect_log_of_ne he]
  · exact ⟨update_of_ne (hne e s hs) .., update_of_ne (hne e s hs) ..⟩

theorem Chronicle.Valid.elect (h : H.Valid ep) (hnone : H.start e' = none) (hb : Backed ep H l)
    (hlt : ∀ r ∈ l, ep r < e') : (H.elect c e' Q l).Valid ep := by
  have hle := h.le_elect hnone c Q l
  constructor
  · intro e hn
    have he : e ≠ e' := by
      rintro rfl
      rw [elect_start_self] at hn
      cases hn
    rw [elect_start_of_ne he] at hn
    rw [elect_log_of_ne he]
    exact h.unborn e hn
  · intro e s hs
    by_cases he : e = e'
    · subst he
      rw [elect_start_self, Option.some.injEq] at hs
      subst hs
      exact ⟨[], by rw [elect_log_self, append_nil], hlt, by simp⟩
    · rw [elect_start_of_ne he] at hs
      rw [elect_log_of_ne he]
      exact h.own e s hs
  · intro e
    by_cases he : e = e'
    · subst he
      rw [elect_log_self]
      exact hb.mono hle
    · rw [elect_log_of_ne he]
      exact (h.backed e).mono hle
  · intro y e
    exact (h.held_le y e).trans (log_mono hle e).length_le

theorem Backed.epoch_ne (hb : Backed ep H l) (h : H.Valid ep) (hnone : H.start e' = none) {r : R}
    (hr : r ∈ l) : ep r ≠ e' := by
  rintro rfl
  obtain ⟨p, t, rfl⟩ := append_of_mem hr
  have hp := hb p r ⟨t, by simp⟩
  rw [(h.unborn _ hnone).1] at hp
  simp at hp

/-- **A majority elects a leader whose log all its voters support.** -/
theorem LogInv.elect {V : Finset ι} {epoch : ι → ℕ} {logs : ι → List R}
    (h : LogInv ep V H epoch logs) (hnone : H.start e' = none)
    (hQ : IsMajority V Q) (hepoch : ∀ y ∈ Q, e' ≤ epoch y)
    (hsup : ∀ y ∈ Q, Supports ep H y (logs c) e') (hbound : ∀ r ∈ logs c, ep r ≤ e') :
    LogInv ep V (H.elect c e' Q (logs c)) epoch logs := by
  have hle := h.valid.le_elect hnone c Q (logs c)
  have hv : (H.elect c e' Q (logs c)).Valid ep := h.valid.elect hnone (h.backed c) fun r hr =>
    lt_of_le_of_ne (hbound r hr) ((h.backed c).epoch_ne h.valid hnone hr)
  refine ⟨hv, fun x => (h.backed x).mono hle, h.bound, h.held_bound, h.held_log,
    fun x e n hr hn => h.keeps_of_le hle hr hn, ?_, ?_⟩
  · intro e s hs
    by_cases he : e = e'
    · subst he
      rwa [elect_electors_self]
    · rw [elect_electors_of_ne he]
      rw [elect_start_of_ne he] at hs
      exact h.majority e s hs
  · intro e₁ s hs y hy
    by_cases he : e₁ = e'
    · subst he
      rw [elect_start_self, Option.some.injEq] at hs
      rw [elect_electors_self] at hy
      subst hs
      refine ⟨hepoch y hy, fun e n hlt hr hn => ?_⟩
      rcases hsup y hy e n hlt (h.valid.reaches_of_le hle hr hn) hn with hd | ⟨e'', h₁, h₂, hl⟩
      · exact .inl hd
      · refine .inr ⟨e'', h₁, lt_of_le_of_ne h₂ ?_, hl.mono hle (hn.trans (h.valid.held_le y e))⟩
        rintro rfl
        obtain ⟨s, hs, -⟩ := hl
        rw [hnone] at hs
        cases hs
    · rw [elect_start_of_ne he] at hs
      rw [elect_electors_of_ne he] at hy
      obtain ⟨hep, hdom⟩ := h.elected e₁ s hs y hy
      refine ⟨hep, fun e n hlt hr hn => ?_⟩
      rcases hdom e n hlt (h.valid.reaches_of_le hle hr hn) hn with hd | ⟨e'', h₁, h₂, hl⟩
      · exact .inl hd
      · exact .inr ⟨e'', h₁, h₂, hl.mono hle (hn.trans (h.valid.held_le y e))⟩

end Elect

end

import Krabka.BreakGlass.Gate
import Krabka.Lib.Transition

/-!
# Two people, spent once

Brokers propose and approve on copies of the metadata image that may be old, and
gated requests spend what was approved: a queued transition commits in one append
with the record that spends its proposal, and a local action starts when that
record has committed.  `TwoPersonRule` is what the gate promises of all of them.

An election request does both.  It keeps one set of spent proposals for its append
and for its local actions, and a proposal enters the set when its record is queued.
-/

namespace Krabka.BreakGlass

open List

/-- The brokers with their settings, what each request is for, and the image's own
check of a proposal record. -/
structure Cluster where
  config : Nat → Config
  keys : Nat → OperatorKeys
  /-- The broker that handles a request. -/
  broker : Nat → Nat
  action : Nat → Action
  validate : Image → Proposal → Bool
  /-- A consumed or withdrawn proposal does not change. -/
  validate_settled : ∀ {image : Image} {p stored : Proposal}, validate image p = true →
    image.get? p.proposalId = some stored →
    stored.consumedAtMs ≠ 0 ∨ stored.withdrawn = true → p = stored

/-- One gated action: what it is on, the proposal it spends and the clock when it was
authorized, and then when it was committed or started. -/
structure Act where
  target : List Char
  proposalId : Nat
  nowMs : Int
  deriving DecidableEq

/-- What an attempt of a request accumulates over the image it read. -/
structure GatedBatch where
  image : Image := .empty
  /-- The consumed proposals at the front of the append. -/
  records : List Proposal := []
  spent : List Nat := []
  /-- The transitions of the append. -/
  applied : List Act := []

def GatedBatch.spend (batch : GatedBatch) (consumed : Proposal) : GatedBatch :=
  if consumed.proposalId ∈ batch.spent then batch
  else { batch with
    spent := consumed.proposalId :: batch.spent, records := consumed :: batch.records }

structure World where
  /-- The committed images, the last one first. -/
  images : List Image
  batch : Nat → GatedBatch
  /-- The proposals as they were stored when a request consumed them. -/
  spends : List (Nat × Proposal)
  /-- The actions that were committed or started. -/
  acts : List (Nat × Act)

namespace World

def copy (w : World) (k : Nat) : Image := w.images.getD k .empty

def setBatch (w : World) (r : Nat) (batch : GatedBatch) : World :=
  { w with batch := Function.update w.batch r batch }

def record (w : World) (r : Nat) (acts : List Act) : World :=
  { w with acts := acts.map (Prod.mk r) ++ w.acts }

def push (w : World) (image : Image) (spends : List (Nat × Proposal)) : World :=
  { w with images := image :: w.images, spends := spends ++ w.spends }

/-- The stored proposals that the records consume for a request. -/
def consumes (w : World) (r : Nat) (records : List Proposal) : List (Nat × Proposal) :=
  records.filterMap fun q => ((w.copy 0).get? q.proposalId).map (Prod.mk r)

end World

inductive Step where
  | propose (broker : Nat) (request : ProposalRequest)
  | approve (broker copy id : Nat) (attempt : Attempt)
  /-- An attempt of the request starts on a copy of the image. -/
  | attempt (r copy : Nat)
  | queue (r : Nat) (target : List Char) (nowMs : Int)
  /-- The append of the request commits, at this time. -/
  | submit (r : Nat) (nowMs : Int)
  /-- A local action and when it starts; the answer to its consume may be lost. -/
  | act (r : Nat) (target : List Char) (nowMs startMs : Int) (answered : Bool)

namespace Cluster

variable (C : Cluster)

/-- `submit_change` of proposal records, all or none. -/
def append (image : Image) (records : List Proposal) : Option Image :=
  if records.all fun p => C.validate image p && (p.consumedAtMs = 0 || admitsConsume image p) then
    some (records.foldl (fun image p => image.insert p.proposalId p) image)
  else none

def authorized (w : World) (r : Nat) (target : List Char) (nowMs : Int) :
    Except DenialReason Proposal :=
  authorize (w.batch r).image (C.config (C.broker r)) (C.action r) target nowMs

/-- `spend_before_local_action` on the proposals the request has spent, and the
action. -/
def actLocally (w : World) (r : Nat) (consumed : Proposal) (act : Act) (answered : Bool) :
    Option World :=
  let batch := w.batch r
  if actionDecision true (some consumed) (C.action r) act.target
      (consumed.proposalId ∈ batch.spent) false then
    some (w.record r [act])
  else do
    let image ← C.append (w.copy 0) [consumed]
    let w := w.push image (w.consumes r [consumed])
    if answered then
      return (w.setBatch r { batch with spent := consumed.proposalId :: batch.spent }).record r
        [act]
    else return w

/-- A step; an append that is refused or lost is none. -/
def step (w : World) : Step → Option World
  | .propose broker request => do
    let p ← (decideProposal (C.config broker) request).toOption
    return w.push (← C.append (w.copy 0) [p]) []
  | .approve broker copy id attempt => do
    let stored ← (w.copy copy).get? id
    let p ← (decideApproval (C.config broker) (C.keys broker) stored attempt).toOption
    return w.push (← C.append (w.copy 0) [p]) []
  | .attempt r copy => some (w.setBatch r { image := w.copy copy })
  | .queue r target nowMs => do
    let consumed ← (C.authorized w r target nowMs).toOption
    let batch := (w.batch r).spend consumed
    return w.setBatch r
      { batch with applied := ⟨target, consumed.proposalId, nowMs⟩ :: batch.applied }
  | .submit r nowMs => do
    let batch := w.batch r
    let image ← C.append (w.copy 0) batch.records
    let acts := batch.applied.map fun act => { act with nowMs }
    return ((w.push image (w.consumes r batch.records)).record r acts).setBatch r {}
  | .act r target nowMs startMs answered => do
    let consumed ← (C.authorized w r target nowMs).toOption
    C.actLocally w r consumed ⟨target, consumed.proposalId, startMs⟩ answered

def start : World := ⟨[], fun _ => {}, [], []⟩

def system : TransitionSystem World Step where
  init w := w = start
  step w a w' := C.step w a = some w'

/-- The proposal of a local action does not wait in the request's own append. -/
def settled (w : World) : Step → Bool
  | .act r target nowMs _ _ => ((C.authorized w r target nowMs).toOption).all fun consumed =>
      (w.batch r).records.all (·.proposalId ≠ consumed.proposalId)
  | _ => true

/-- No proposal expires between the authorization and the commit or the start. -/
def prompt (w : World) : Step → Bool
  | .submit r nowMs => (w.batch r).applied.all fun act =>
      ((w.batch r).image.get? act.proposalId).all (nowMs < ·.expiresAtMs)
  | .act r target nowMs startMs _ =>
    ((C.authorized w r target nowMs).toOption).all (startMs < ·.expiresAtMs)
  | _ => true

/-! ## The rule -/

/-- Each approval was accepted by some broker: of a second person, who was an
approver, before expiry, with its signature verified where it has one. -/
def Approved (p : Proposal) : Prop :=
  ∀ a ∈ p.approvals, a.principal ≠ p.proposer ∧ a.approvedAtMs < p.expiresAtMs ∧
    ∃ b, (C.config b).isApprover a.principal = true ∧ a.Checked (C.keys b) p

/-- The pending proposal authorizes the action of the request. -/
structure Authorizes (r : Nat) (p : Proposal) (act : Act) : Prop where
  names : p.proposalId = act.proposalId ∧ p.action = C.action r
  covers : covers p.target act.target (C.action r) = true
  pending : p.withdrawn = false ∧ p.consumedAtMs = 0
  unexpired : act.nowMs < p.expiresAtMs
  enough : (C.config (C.broker r)).requiredApprovals ≤
    (p.approvals.map Approval.principal).toFinset.card
  approved : C.Approved p
  signed : (C.config (C.broker r)).needsSignature (C.action r) = true →
    ∀ a ∈ p.approvals, a.keyId ≠ "" ∧ a.signature ≠ []

def Spent (image : Image) (id : Nat) : Prop :=
  ∃ stored, image.get? id = some stored ∧ stored.consumedAtMs ≠ 0

structure TwoPersonRule (w : World) : Prop where
  /-- An action spends a proposal that authorizes it, and the consumption has
  committed. -/
  acts : ∀ e ∈ w.acts, ∃ p, (e.1, p) ∈ w.spends ∧ C.Authorizes e.1 p e.2
  consumed : ∀ e ∈ w.spends, Spent (w.copy 0) e.2.proposalId
  /-- No two requests spend one proposal. -/
  once : ∀ e ∈ w.spends, ∀ e' ∈ w.spends, e.2.proposalId = e'.2.proposalId → e.1 = e'.1

/-! ## The invariant -/

/-- A record is stored under its id, with approvals that were accepted. -/
def Sound (image : Image) : Prop :=
  ∀ id p, image.get? id = some p → p.proposalId = id ∧ C.Approved p

/-- The record spends the pending proposal of the image. -/
def Consumes (image : Image) (q p : Proposal) : Prop :=
  image.get? q.proposalId = some p ∧ p.consumedAtMs = 0 ∧
    ∃ stamp : Int, 0 < stamp ∧ q = { p with consumedAtMs := stamp }

/-- What a request has accumulated comes from the image it read. -/
structure Backed (spends : List (Nat × Proposal)) (r : Nat) (batch : GatedBatch) : Prop where
  image : C.Sound batch.image
  records : ∀ q ∈ batch.records, ∃ p, Consumes batch.image q p
  spent : ∀ id ∈ batch.spent, (∃ q ∈ batch.records, q.proposalId = id) ∨
    ∃ p, batch.image.get? id = some p ∧ (r, p) ∈ spends
  applied : ∀ act ∈ batch.applied, act.proposalId ∈ batch.spent ∧
    ∃ p, batch.image.get? act.proposalId = some p ∧ C.Authorizes r p act

structure Inv (w : World) : Prop where
  copies : ∀ k, C.Sound (w.copy k)
  rule : C.TwoPersonRule w
  batches : ∀ r, C.Backed w.spends r (w.batch r)

variable {C} {w : World} {r : Nat} {image image' : Image} {records : List Proposal}
  {p q : Proposal} {target : List Char} {nowMs : Int} {id : Nat}

theorem Backed.mono {spends spends' : List (Nat × Proposal)} {batch : GatedBatch}
    (h : C.Backed spends r batch) (hsub : spends ⊆ spends') : C.Backed spends' r batch :=
  { h with spent := fun id hid => (h.spent id hid).imp_right fun ⟨p, hp, hmem⟩ =>
      ⟨p, hp, hsub hmem⟩ }

/-- The proposal still authorizes the action at a later time before it expires. -/
theorem Authorizes.at {act : Act} (h : C.Authorizes r p act) (hnow : nowMs < p.expiresAtMs) :
    C.Authorizes r p { act with nowMs } :=
  ⟨h.names, h.covers, h.pending, hnow, h.enough, h.approved, h.signed⟩

theorem Sound.empty : C.Sound .empty := by
  intro id p h
  cases h

theorem authorize_spec (himage : C.Sound image)
    (h : authorize image (C.config (C.broker r)) (C.action r) target nowMs = .ok q) :
    ∃ p, Consumes image q p ∧ C.Authorizes r p ⟨target, q.proposalId, nowMs⟩ := by
  obtain ⟨id, p, hget, rfl, haction, hcovers, husable⟩ := authorize_eq_ok h
  obtain ⟨rfl, happroved⟩ := himage id p hget
  obtain ⟨hwithdrawn, hconsumed, hexpires, henough, hsigned⟩ := unusableBecause_eq_none husable
  exact ⟨p, ⟨hget, hconsumed, max nowMs 1, by omega, rfl⟩, ⟨rfl, haction⟩, hcovers,
    ⟨hwithdrawn, hconsumed⟩, hexpires, henough, happroved, haction ▸ hsigned⟩

theorem append_get (h : C.append image records = some image') :
    image'.get? id = (records.reverse.find? (·.proposalId = id)).or (image.get? id) := by
  unfold append at h
  split_ifs at h with hall
  cases h
  clear hall
  induction records using reverseRecOn with
  | nil => rfl
  | append_singleton records p ih =>
    rw [foldl_concat, SortedMap.get?_insert, ih, reverse_concat]
    by_cases hid : id = p.proposalId
    · simp [hid]
    · simp [hid, Ne.symm hid]

theorem append_admits (h : C.append image records = some image') (hp : p ∈ records) :
    C.validate image p = true ∧ (p.consumedAtMs ≠ 0 → admitsConsume image p = true) := by
  unfold append at h
  split_ifs at h with hall
  have hadmits := all_eq_true.mp hall p hp
  simp only [Bool.and_eq_true, Bool.or_eq_true, decide_eq_true_eq] at hadmits
  exact ⟨hadmits.1, hadmits.2.resolve_left⟩

theorem append_spent (h : C.append image records = some image') (hid : Spent image id) :
    Spent image' id := by
  obtain ⟨stored, hget, hconsumed⟩ := hid
  unfold Spent
  rw [append_get h]
  cases hfound : records.reverse.find? (·.proposalId = id) with
  | none => exact ⟨stored, hget, hconsumed⟩
  | some p =>
    obtain rfl : p.proposalId = id := by simpa using find?_some hfound
    have hmem := mem_reverse.mp (mem_of_find?_eq_some hfound)
    obtain rfl := C.validate_settled (append_admits h hmem).1 hget (.inl hconsumed)
    exact ⟨p, rfl, hconsumed⟩

theorem append_sound (h : C.append image records = some image') (himage : C.Sound image)
    (hrecords : ∀ p ∈ records, C.Approved p) : C.Sound image' := by
  intro id p hget
  rw [append_get h] at hget
  rcases Option.or_eq_some_iff.mp hget with hfound | ⟨-, hget⟩
  · exact ⟨by simpa using find?_some hfound,
      hrecords p (mem_reverse.mp (mem_of_find?_eq_some hfound))⟩
  · exact himage id p hget

theorem Inv.push (h : C.Inv w) (happend : C.append (w.copy 0) records = some image)
    (hrecords : ∀ p ∈ records, C.Approved p) {spends : List (Nat × Proposal)}
    (hspends : ∀ e ∈ spends, e.1 = r ∧ Spent image e.2.proposalId ∧
      ¬ Spent (w.copy 0) e.2.proposalId) : C.Inv (w.push image spends) where
  copies
    | 0 => append_sound happend (h.copies 0) hrecords
    | k + 1 => h.copies k
  rule := {
    acts := fun e he => by
      obtain ⟨p, hp, hauthorizes⟩ := h.rule.acts e he
      exact ⟨p, mem_append_right _ hp, hauthorizes⟩
    consumed := fun e he => (mem_append.mp he).elim (fun hnew => (hspends e hnew).2.1)
      fun hold => append_spent happend (h.rule.consumed e hold)
    once := fun e he e' he' heq => by
      rcases mem_append.mp he with hnew | hold <;>
        rcases mem_append.mp he' with hnew' | hold'
      · rw [(hspends e hnew).1, (hspends e' hnew').1]
      · exact absurd (heq ▸ h.rule.consumed e' hold') (hspends e hnew).2.2
      · exact absurd (heq ▸ h.rule.consumed e hold) (hspends e' hnew').2.2
      · exact h.rule.once e hold e' hold' heq }
  batches r := (h.batches r).mono (subset_append_right ..)

theorem Consumes.stored (h : Consumes image q p) (hq : q ∈ records)
    (happend : C.append (w.copy 0) records = some image') :
    q.consumedAtMs ≠ 0 ∧ q.proposalId = p.proposalId ∧
      (w.copy 0).get? q.proposalId = some p := by
  obtain ⟨-, hpending, stamp, hstamp, rfl⟩ := h
  exact ⟨hstamp.ne', rfl, admitsConsume_stored hpending
    ((append_admits happend hq).2 hstamp.ne')⟩

theorem Inv.consume (h : C.Inv w) (himage : C.Sound image)
    (hrecords : ∀ q ∈ records, ∃ p, Consumes image q p)
    (happend : C.append (w.copy 0) records = some image') :
    C.Inv (w.push image' (w.consumes r records)) := by
  refine h.push happend (fun q hq => ?_) (r := r) fun e he => ?_
  · obtain ⟨p, hget, -, stamp, -, rfl⟩ := hrecords q hq
    exact (himage _ _ hget).2
  · obtain ⟨q, hq, he⟩ := mem_filterMap.mp he
    obtain ⟨p, hp⟩ := hrecords q hq
    obtain ⟨-, hid, hstored⟩ := hp.stored hq happend
    rw [hstored] at he
    cases he
    refine ⟨rfl, ?_, ?_⟩
    · unfold Spent
      rw [append_get happend]
      cases hfound : records.reverse.find? (·.proposalId = p.proposalId) with
      | none =>
        exact absurd hid (by simpa using find?_eq_none.mp hfound q (mem_reverse.mpr hq))
      | some q' =>
        have hq' := mem_reverse.mp (mem_of_find?_eq_some hfound)
        obtain ⟨p', hp'⟩ := hrecords q' hq'
        exact ⟨q', rfl, (hp'.stored hq' happend).1⟩
    · rintro ⟨stored, hget, hconsumed⟩
      rw [← hid, hstored] at hget
      exact hconsumed (Option.some.inj hget ▸ hp.2.1)

theorem Inv.setBatch (h : C.Inv w) {batch : GatedBatch} (hbatch : C.Backed w.spends r batch) :
    C.Inv (w.setBatch r batch) where
  copies := h.copies
  rule := ⟨h.rule.acts, h.rule.consumed, h.rule.once⟩
  batches r' := by
    change C.Backed w.spends r' (Function.update w.batch r batch r')
    by_cases hr : r' = r
    · subst hr
      rwa [Function.update_self]
    · rw [Function.update_of_ne hr]
      exact h.batches r'

theorem Inv.record (h : C.Inv w) {acts : List Act}
    (hacts : ∀ act ∈ acts, ∃ p, (r, p) ∈ w.spends ∧ C.Authorizes r p act) :
    C.Inv (w.record r acts) where
  copies := h.copies
  rule := ⟨fun e he => by
    rcases mem_append.mp he with hnew | hold
    · obtain ⟨act, hact, rfl⟩ := mem_map.mp hnew
      exact hacts act hact
    · exact h.rule.acts e hold, h.rule.consumed, h.rule.once⟩
  batches := h.batches

/-! ## One lemma per step -/

theorem decideApproval_approved {b : Nat} {attempt : Attempt}
    (hstored : C.Approved p)
    (h : decideApproval (C.config b) (C.keys b) p attempt = .ok q) : C.Approved q := by
  obtain rfl | ⟨a, rfl, hexpires, happrover, hproposer, hchecked⟩ := decideApproval_cases h
  · exact hstored
  · intro a' ha'
    rcases mem_append.mp ha' with hold | hnew
    · exact hstored a' hold
    · obtain rfl := mem_singleton.mp hnew
      exact ⟨hproposer, hexpires, b, happrover, hchecked⟩

theorem Backed.queue {spends : List (Nat × Proposal)} {batch : GatedBatch}
    (h : C.Backed spends r batch) (hq : Consumes batch.image q p)
    (hauthorizes : C.Authorizes r p ⟨target, q.proposalId, nowMs⟩) :
    C.Backed spends r { batch.spend q with
      applied := ⟨target, q.proposalId, nowMs⟩ :: (batch.spend q).applied } := by
  unfold GatedBatch.spend
  split_ifs with hspent
  · exact { h with
      applied := forall_mem_cons.mpr ⟨⟨hspent, p, hq.1, hauthorizes⟩, h.applied⟩ }
  · exact {
      image := h.image
      records := forall_mem_cons.mpr ⟨⟨p, hq⟩, h.records⟩
      spent := forall_mem_cons.mpr ⟨.inl ⟨q, mem_cons_self, rfl⟩, fun id hid =>
        (h.spent id hid).imp_left fun ⟨q', hq', heq⟩ => ⟨q', mem_cons_of_mem _ hq', heq⟩⟩
      applied := forall_mem_cons.mpr ⟨⟨mem_cons_self, p, hq.1, hauthorizes⟩,
        fun act hact => (h.applied act hact).imp_left (mem_cons_of_mem _)⟩ }

/-- The append of a batch: each of its transitions has its proposal spent. -/
theorem Inv.submit (h : C.Inv w) (hprompt : C.prompt w (.submit r nowMs) = true)
    (happend : C.append (w.copy 0) (w.batch r).records = some image) :
    C.Inv (((w.push image (w.consumes r (w.batch r).records)).record r
      ((w.batch r).applied.map fun act => { act with nowMs })).setBatch r {}) := by
  have hbatch := h.batches r
  refine Inv.setBatch (Inv.record (h.consume hbatch.image hbatch.records happend) ?_)
    ⟨.empty, nofun, nofun, nofun⟩
  intro act' hact'
  obtain ⟨act, hact, rfl⟩ := mem_map.mp hact'
  obtain ⟨hspent, p, hget, hauthorizes⟩ := hbatch.applied act hact
  have hunexpired := all_eq_true.mp hprompt act hact
  rw [hget] at hunexpired
  refine ⟨p, ?_, hauthorizes.at (of_decide_eq_true hunexpired)⟩
  rcases hbatch.spent _ hspent with ⟨q, hq, hid⟩ | ⟨p', hget', hmem⟩
  · obtain ⟨p', hp'⟩ := hbatch.records q hq
    obtain rfl : p' = p := by
      rw [← hid, hp'.1] at hget
      exact Option.some.inj hget
    refine mem_append_left _ (mem_filterMap.mpr ⟨q, hq, ?_⟩)
    rw [(hp'.stored hq happend).2.2]
    rfl
  · obtain rfl := Option.some.inj (hget.symm.trans hget')
    exact mem_append_right _ hmem

theorem Inv.actLocally (h : C.Inv w) {w' : World} {answered : Bool}
    (hq : Consumes (w.batch r).image q p)
    (hauthorizes : C.Authorizes r p ⟨target, q.proposalId, nowMs⟩)
    (hsettled : ∀ q' ∈ (w.batch r).records, q'.proposalId ≠ q.proposalId)
    (hstep : C.actLocally w r q ⟨target, q.proposalId, nowMs⟩ answered = some w') : C.Inv w' := by
  have hbatch := h.batches r
  unfold Cluster.actLocally at hstep
  dsimp only at hstep
  split at hstep
  · -- The proposal is spent, and not by a record that still waits.
    cases hstep
    rename_i hdecision
    have hspent : q.proposalId ∈ (w.batch r).spent := by
      simpa [actionDecision] using And.right (by simpa [actionDecision] using hdecision)
    refine h.record (forall_mem_singleton.mpr ⟨p, ?_, hauthorizes⟩)
    rcases hbatch.spent _ hspent with ⟨q', hq', hid⟩ | ⟨p', hget, hmem⟩
    · exact absurd hid (hsettled q' hq')
    · exact Option.some.inj (hq.1.symm.trans hget) ▸ hmem
  · obtain ⟨image, happend, hstep⟩ := Option.bind_eq_some_iff.mp hstep
    have hpush := h.consume (r := r) hbatch.image (forall_mem_singleton.mpr ⟨p, hq⟩) happend
    have hmem : (r, p) ∈ (w.push image (w.consumes r [q])).spends := by
      refine mem_append_left _ (mem_filterMap.mpr ⟨q, mem_singleton_self q, ?_⟩)
      rw [(hq.stored (mem_singleton_self q) happend).2.2]
      rfl
    have hbatch := hpush.batches r
    split_ifs at hstep
    · cases hstep
      refine Inv.record (hpush.setBatch ?_) (forall_mem_singleton.mpr ⟨p, hmem, hauthorizes⟩)
      exact ⟨hbatch.image, hbatch.records, forall_mem_cons.mpr ⟨.inr ⟨p, hq.1, hmem⟩,
        hbatch.spent⟩, fun act hact =>
          (hbatch.applied act hact).imp_left (mem_cons_of_mem _)⟩
    · cases hstep
      exact hpush

theorem Inv.step {w' : World} {a : Step} (h : C.Inv w) (hok : C.settled w a = true)
    (hprompt : C.prompt w a = true) (hstep : C.step w a = some w') : C.Inv w' := by
  cases a with
  | propose b request =>
    obtain ⟨p, hp, hstep⟩ := Option.bind_eq_some_iff.mp hstep
    obtain ⟨image, happend, hstep⟩ := Option.bind_eq_some_iff.mp hstep
    cases hstep
    have happroved : C.Approved p := by
      have hnone : p.approvals = [] := by
        unfold decideProposal at hp
        split_ifs at hp <;> cases hp
        rfl
      rw [Approved, hnone]
      nofun
    exact h.push happend (forall_mem_singleton.mpr happroved) (r := 0) nofun
  | approve b k id attempt =>
    obtain ⟨stored, hget, hstep⟩ := Option.bind_eq_some_iff.mp hstep
    obtain ⟨p, hp, hstep⟩ := Option.bind_eq_some_iff.mp hstep
    obtain ⟨image, happend, hstep⟩ := Option.bind_eq_some_iff.mp hstep
    cases hstep
    have happroved := decideApproval_approved (h.copies k id stored hget).2
      (Except.eq_ok_of_toOption hp)
    exact h.push happend (forall_mem_singleton.mpr happroved) (r := 0) nofun
  | attempt r k =>
    cases hstep
    exact h.setBatch ⟨h.copies k, nofun, nofun, nofun⟩
  | queue r target nowMs =>
    obtain ⟨q, hq, hstep⟩ := Option.bind_eq_some_iff.mp hstep
    cases hstep
    obtain ⟨p, hp, hauthorizes⟩ :=
      authorize_spec (h.batches r).image (Except.eq_ok_of_toOption hq)
    exact h.setBatch ((h.batches r).queue hp hauthorizes)
  | submit r nowMs =>
    obtain ⟨image, happend, hstep⟩ := Option.bind_eq_some_iff.mp hstep
    cases hstep
    exact h.submit hprompt happend
  | act r target nowMs startMs answered =>
    obtain ⟨q, hq, hstep⟩ := Option.bind_eq_some_iff.mp hstep
    obtain ⟨p, hp, hauthorizes⟩ :=
      authorize_spec (h.batches r).image (Except.eq_ok_of_toOption hq)
    have hstart : startMs < p.expiresAtMs := by
      obtain ⟨-, -, stamp, -, rfl⟩ := hp
      simpa [prompt, hq] using hprompt
    exact h.actLocally hp (hauthorizes.at hstart) (by simpa [settled, hq] using hok) hstep

def elections : Cluster where
  config _ := ⟨["alice", "bob"], 1, 100, []⟩
  keys _ _ _ _ _ := false
  broker _ := 0
  action _ := .uncleanElectLeaders
  validate image p := (image.get? p.proposalId).all fun stored =>
    stored = p || stored.consumedAtMs = 0 && !stored.withdrawn
  validate_settled := by
    intro image p stored hvalid hget hsettled
    rw [hget] at hvalid
    grind

/-- A proposal of one person, approved by the other, which expires at 110. -/
def approvedProposal (id : Nat) (target : String) : List Step :=
  [.propose 0 ⟨.uncleanElectLeaders, target.toList, "", 0, "alice", id, 10⟩,
    .approve 0 0 id ⟨"bob", "", [], false, 11⟩]

def after (ok : World → Step → Prop) [∀ w a, Decidable (ok w a)] (steps : List Step) : World :=
  TransitionSystem.runAll elections.step ok start steps

theorem after_reachable (ok : World → Step → Prop) [∀ w a, Decidable (ok w a)]
    (steps : List Step) :
    (elections.system.restrict fun w a _ => ok w a).Reachable (after ok steps) :=
  .runAll (.init rfl) fun _ _ _ hstep hok => ⟨hstep, hok⟩

end Cluster

end Krabka.BreakGlass

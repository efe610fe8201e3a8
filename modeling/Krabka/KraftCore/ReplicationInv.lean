import Krabka.KraftCore.ElectionSafety
import Krabka.KraftCore.EpochLookup
import Krabka.KraftCore.LeaderProgress
import Krabka.KraftCore.Replication
import Krabka.Lib.Chronicle

/-!
# The invariant of replication

The logs of a cluster follow a `Chronicle`, and the messages in flight say
something true about it for as long as they can matter:

* a Fetch describes a log that its sender had in the epoch of the Fetch, and
  what the sender has now, in the same epoch, is at least as close to the
  leader's log (`FetchSound`);
* an answer without divergence goes to a replica whose log is a prefix of the
  leader's, and a point of divergence separates the records that both can have
  from those of the leader alone (`AnswerSound`);
* a vote supports the candidate it was given to (`ballot`), because the request
  names the log end that the candidate has had since its candidacy began
  (`request`).

The lemmas of this file are the single changes a step is made of: the log of a
follower or of the leader changes, a Fetch is sent, an event takes place, a
replica restarts.
-/

namespace Krabka.KraftCore

open QuorumStateMachine Chronicle Function Record List

variable {V : VoterSet} {b b' : Ballots NodeId Nat NodeId} {H H' : Chronicle NodeId Record}

/-- The cluster once the replica `id` has gone to `m'` and has sent the messages
of `done`. -/
def LogCluster.after (c : LogCluster) (id : NodeId) (m' : QuorumStateMachine)
    (done : List Action) : LogCluster :=
  { c with cluster := c.cluster.after id m' (logView (c.logs id)) done }

/-! ## The view of a log -/

theorem logView_lastEpoch (log : List Record) : (logView log).lastEpoch = lastEpoch epoch log := by
  simp [logView, LogView.ofEpochs, lastEpoch, getLast?_map]

theorem logView_endOffset (log : List Record) : (logView log).endOffset = log.length := by
  simp [logView, LogView.ofEpochs]

def logEndOf (log : List Record) : LogEnd := ⟨(logView log).lastEpoch, (logView log).endOffset⟩

theorem upToDate_of_logUpToDate {own cand : List Record}
    (h : logUpToDate (logView own) (logEndOf cand) = true) : UpToDate epoch cand own := by
  simp only [logUpToDate, logIsUpToDate, logEndOf, logView_lastEpoch, logView_endOffset,
    Bool.or_eq_true, decide_eq_true_eq, Bool.and_eq_true, beq_iff_eq, Int.ofNat_le] at h
  exact h

/-! ## What the messages say -/

/-- What the leader `x` of `e` with the log `log` keeps in its role. -/
structure LeaderSound (V : VoterSet) (H : Chronicle NodeId Record) (x : NodeId) (e : Nat)
    (log : List Record) (f : LeaderFields) : Prop where
  leads : H.leader e = x
  log_eq : log = H.log e
  start : ∃ s, H.start e = some s ∧ f.epochStartOffset = s.length
  progress : ∀ y p, f.replicas.get? y = some p → V.contains y = true ∧ y ≠ x ∧
    (f.epochStartOffset < p.fetchOffset → p.fetchOffset ≤ H.held y e)

/-- A Fetch of a replica that is now in `epoch` with the log `log`. -/
def FetchSound (H : Chronicle NodeId Record) (epoch : Nat) (log : List Record) (f : Fetch) : Prop :=
  f.currentLeaderEpoch ≤ epoch ∧
    ∃ l, Backed Record.epoch H l ∧ l.length = f.fetchOffset ∧
      lastEpoch Record.epoch l = f.fetchEpoch ∧
      (l ≠ [] → f.fetchEpoch = f.currentLeaderEpoch →
        l.length ≤ H.held f.fromId f.currentLeaderEpoch) ∧
      (epoch = f.currentLeaderEpoch → log = l ∨ (∃ s, H.start epoch = some s) ∧
        (l <+: H.log epoch → log <+: H.log epoch))

/-- The answer of a leader to a replica that is now in `epoch` with the log
`log`. -/
structure AnswerSound (H : Chronicle NodeId Record) (epoch : Nat) (log : List Record)
    (a : FetchAnswer) : Prop where
  epoch_le : a.leaderEpoch ≤ epoch
  start : ∃ s, H.start a.leaderEpoch = some s
  batches : ∀ batch ∈ a.batches, batch.IsSliceOf (H.log a.leaderEpoch)
  consistent : a.diverging = none → epoch = a.leaderEpoch → log <+: H.log a.leaderEpoch
  diverging : ∀ point, a.diverging = some point → a.request.fetchEpoch < a.leaderEpoch ∧
    ∃ k ≤ (H.log a.leaderEpoch).length, point.offset = k ∧
      (∀ r ∈ (H.log a.leaderEpoch).take k, r.epoch ≤ point.epoch) ∧
      ∀ r ∈ (H.log a.leaderEpoch).drop k, a.request.fetchEpoch < r.epoch

structure ReplicationInv (V : VoterSet) (b : Ballots NodeId Nat NodeId)
    (H : Chronicle NodeId Record) (c : LogCluster) : Prop where
  cluster : Cluster.Inv V b c.cluster
  logs : LogInv epoch V.idSet H (fun x => (c.machine x).state.leaderEpoch) c.logs
  reign : ∀ e s, H.start e = some s →
    (∀ y ∈ H.electors e, b y e = some (H.leader e)) ∧ Passed (c.machine (H.leader e)) e
  leader : ∀ x f, (c.machine x).role = .leader f →
    LeaderSound V H x (c.machine x).state.leaderEpoch (c.logs x) f
  ballot : ∀ x e y, V.contains x = true → b x e = some y →
    e ≤ (c.machine y).state.leaderEpoch ∧ ((c.machine y).role.isCandidate = true →
      (c.machine y).state.leaderEpoch = e → Supports epoch H x (c.logs y) e)
  request : ∀ r, .vote r ∈ c.cluster.network → r.preVote = false →
    r.candidateEpoch ≤ (c.machine r.candidate).state.leaderEpoch ∧
      ((c.machine r.candidate).role.isCandidate = true →
        (c.machine r.candidate).state.leaderEpoch = r.candidateEpoch →
          r.candidateLogEnd = logEndOf (c.logs r.candidate))
  fetch : ∀ f ∈ c.fetches,
    FetchSound H (c.machine f.fromId).state.leaderEpoch (c.logs f.fromId) f
  answer : ∀ a ∈ c.answers, a.error = none →
    AnswerSound H (c.machine a.request.fromId).state.leaderEpoch (c.logs a.request.fromId) a

abbrev LogCluster.epochOf (c : LogCluster) (x : NodeId) : Nat := (c.machine x).state.leaderEpoch

/-! ## The chronicle grows under the messages -/

variable {e : Nat}

theorem epoch_of_grown (hv : H'.Valid epoch) (hle : H ≤ H')
    (hvH : H.Valid epoch) {s t : List Record} (hs : H.start e = some s)
    (ht : H'.log e = H.log e ++ t) {r : Record} (hr : r ∈ t) : r.epoch = e := by
  obtain ⟨t₀, ht₀, -⟩ := hvH.own e s hs
  obtain ⟨t₁, ht₁, -, heq⟩ := hv.own e s (start_mono hle hs)
  rw [ht, ht₀, append_assoc, append_cancel_left_eq] at ht₁
  exact heq r (ht₁ ▸ mem_append_right _ hr)

variable {log : List Record}

theorem LeaderSound.mono {x : NodeId} {f : LeaderFields}
    (h : LeaderSound V H x e log f) (hle : H ≤ H') (hlog : H'.log e = H.log e) :
    LeaderSound V H' x e log f := by
  obtain ⟨s, hs, hstart⟩ := h.start
  refine ⟨(hle.2.2.1 e s hs).1.trans h.leads, h.log_eq.trans hlog.symm,
    ⟨s, start_mono hle hs, hstart⟩, ?_⟩
  intro y p hp
  obtain ⟨hv, hne, hheld⟩ := h.progress y p hp
  refine ⟨hv, hne, fun hlt => (hheld hlt).trans ?_⟩
  exact_mod_cast held_mono hle y e

variable {log' : List Record}

theorem Batch.IsSliceOf.mono {batch : Batch} (h : batch.IsSliceOf log)
    (hle : log <+: log') : batch.IsSliceOf log' :=
  h.trans (hle.drop batch.baseOffset)

theorem AnswerSound.mono {epoch epoch' : Nat} {a : FetchAnswer}
    (h : AnswerSound H epoch log a) (hle : H ≤ H') (hvH : H.Valid Record.epoch)
    (hv : H'.Valid Record.epoch) (hepoch : epoch ≤ epoch')
    (hlog : epoch' = a.leaderEpoch → log <+: H.log a.leaderEpoch →
      log' <+: H'.log a.leaderEpoch) : AnswerSound H' epoch' log' a := by
  obtain ⟨s, hs⟩ := h.start
  have hgrow := log_mono hle a.leaderEpoch
  refine ⟨h.epoch_le.trans hepoch, ⟨s, start_mono hle hs⟩,
    fun batch hbatch => (h.batches batch hbatch).mono hgrow, ?_, ?_⟩
  · intro hdiv he
    exact hlog he (h.consistent hdiv (le_antisymm (he ▸ hepoch) h.epoch_le))
  · intro point hpoint
    obtain ⟨hlt, k, hk, hoff, hbefore, hafter⟩ := h.diverging point hpoint
    obtain ⟨t, ht⟩ := hgrow
    refine ⟨hlt, k, hk.trans (log_mono hle _).length_le, hoff, ?_, ?_⟩
    · rw [take_log_of_le hle hk]
      exact hbefore
    · intro r hr
      rw [← ht, drop_append_of_le_length hk, mem_append] at hr
      rcases hr with hr | hr
      · exact hafter r hr
      · rw [epoch_of_grown hv hle hvH hs ht.symm hr]
        exact hlt

theorem prefix_of_grown (hvH : H.Valid epoch) (hv : H'.Valid epoch) (hle : H ≤ H')
    {s l : List Record} (hs : H.start e = some s) (hb : Backed epoch H l)
    (hl : l <+: H'.log e) : l <+: H.log e := by
  rcases Nat.le_total l.length (H.log e).length with hlen | hlen
  · exact prefix_of_prefix_length_le hl (log_mono hle e) hlen
  -- The last record of `l` is of epoch `e`, or `l` is not longer at all.
  have hpre : H.log e <+: l :=
    prefix_of_prefix_length_le (log_mono hle e) hl hlen
  obtain ⟨t, rfl⟩ := hpre
  rcases eq_nil_or_concat t with rfl | ⟨q, r, rfl⟩
  · simp
  rw [concat_eq_append] at hb hl ⊢
  obtain ⟨u, hu⟩ := hl
  have hr : r.epoch = e := epoch_of_grown (t := q ++ [r] ++ u) hv hle hvH hs
    (by rw [← hu]; simp) (by simp)
  have := hb (H.log e ++ q) r (by simp)
  rwa [hr, append_assoc] at this

theorem FetchSound.mono {epoch epoch' : Nat} {f : Fetch}
    (h : FetchSound H epoch log f) (hle : H ≤ H') (hvH : H.Valid Record.epoch)
    (hv : H'.Valid Record.epoch) (hepoch : epoch ≤ epoch')
    (hlog : epoch' = f.currentLeaderEpoch → log' = log ∨ (∃ s, H.start epoch' = some s) ∧
      (log <+: H.log epoch' → log' <+: H'.log epoch')) : FetchSound H' epoch' log' f := by
  obtain ⟨hcur, l, hb, hlen, hlast, hheld, htrack⟩ := h
  refine ⟨hcur.trans hepoch, l, hb.mono hle, hlen, hlast,
    fun hne he => (hheld hne he).trans (held_mono hle _ _), ?_⟩
  intro he
  have hold : epoch = f.currentLeaderEpoch := le_antisymm (he ▸ hepoch) hcur
  rw [← hold] at he
  subst he
  -- What the sender had then is in the leader's log now only if it was before.
  have hback : ∀ s, H.start epoch' = some s → l <+: H'.log epoch' → l <+: H.log epoch' :=
    fun s hs hl => prefix_of_grown hvH hv hle hs hb hl
  rcases hlog hold with rfl | ⟨⟨s, hs⟩, hcopy⟩
  · rcases htrack hold with rfl | ⟨⟨s, hs⟩, hpre⟩
    · exact .inl rfl
    · exact .inr ⟨⟨s, start_mono hle hs⟩, fun hl =>
        (hpre (hback s hs hl)).trans (log_mono hle _)⟩
  · refine .inr ⟨⟨s, start_mono hle hs⟩, fun hl => hcopy ?_⟩
    rcases htrack hold with rfl | ⟨-, hpre⟩
    · exact hback s hs hl
    · exact hpre (hback s hs hl)

namespace ReplicationInv

open LogCluster

variable {c : LogCluster} {id : NodeId} {m' : QuorumStateMachine}

theorem replica (h : ReplicationInv V b H c) (x : NodeId) : ReplicaInv V b x (c.machine x) :=
  h.cluster.election.replica x

theorem disk (h : ReplicationInv V b H c) (x : NodeId) :
    DiskInv V (c.cluster.replicas x).disk (c.machine x) :=
  h.cluster.disk x

/-! ## A log changes -/

theorem setLog (h : ReplicationInv V b H c) {log : List Record} (hle : H ≤ H')
    (hlogs : LogInv Record.epoch V.idSet H' (fun x => (c.epochOf x))
      (Function.update c.logs id log)) (hstart : ∀ e, H'.start e = H.start e)
    (hheld : ∀ y e, ¬(y = id ∧ e = c.epochOf id) →
      H'.held y e = H.held y e)
    (hrole : (c.machine id).role.isCandidate = false)
    (hleads : ∀ f, (c.machine id).role = .leader f →
      LeaderSound V H' id (c.epochOf id) log f)
    (hothers : ∀ x f, x ≠ id → (c.machine x).role = .leader f →
      H'.log (c.epochOf x) = H.log (c.epochOf x))
    (hled : ∃ s, H.start (c.epochOf id) = some s)
    (hcopy : c.logs id <+: H.log (c.epochOf id) →
      log <+: H'.log (c.epochOf id)) : ReplicationInv V b H' (c.setLog id log) := by
  have hself : (c.setLog id log).logs id = log := update_self ..
  have hother : ∀ x, x ≠ id → (c.setLog id log).logs x = c.logs x :=
    fun x hx => update_of_ne hx ..
  refine ⟨h.cluster, hlogs, ?_, ?_, ?_, ?_, ?_, ?_⟩
  · intro e s hs
    rw [hstart] at hs
    obtain ⟨hleader, helectors⟩ := hle.2.2.1 e s hs
    rw [hleader, helectors]
    exact h.reign e s hs
  · intro x f hf
    by_cases hx : x = id
    · subst hx
      rw [hself]
      exact hleads f hf
    · rw [hother x hx]
      exact (h.leader x f hf).mono hle (hothers x f hx hf)
  · intro x e y hv hb
    refine ⟨(h.ballot x e y hv hb).1, fun hcand hepoch => ?_⟩
    have hy : y ≠ id := by
      rintro rfl
      exact absurd hcand
        (by rw [show (c.setLog y log).machine y = c.machine y from rfl, hrole]; simp)
    rw [hother y hy]
    refine ((h.ballot x e y hv hb).2 hcand hepoch).mono h.logs.valid hle (fun e₀ hlt => ?_)
    refine hheld x e₀ (fun hx => ?_)
    -- A replica that has voted in `e` holds new records in `e` or later.
    obtain ⟨rfl, rfl⟩ := hx
    exact absurd ((h.replica x).ballot e y hv hb).1 (not_le.mpr hlt)
  · intro r hr hpre
    refine ⟨(h.request r hr hpre).1, fun hcand hepoch => ?_⟩
    have hr' : r.candidate ≠ id := by
      intro heq
      rw [heq] at hcand
      exact absurd hcand (by
        rw [show (c.setLog id log).machine id = c.machine id from rfl, hrole]; simp)
    rw [hother _ hr']
    exact (h.request r hr hpre).2 hcand hepoch
  · intro f hf
    refine (h.fetch f hf).mono hle h.logs.valid hlogs.valid le_rfl (fun he => ?_)
    by_cases hx : f.fromId = id
    · rw [hx, hself]
      exact .inr ⟨hled, hcopy⟩
    · exact .inl (hother _ hx)
  · intro a ha herr
    refine (h.answer a ha herr).mono hle h.logs.valid hlogs.valid le_rfl (fun he hp => ?_)
    by_cases hx : a.request.fromId = id
    · rw [hx] at he hp ⊢
      rw [← he] at hp ⊢
      rw [hself]
      exact hcopy hp
    · rw [hother _ hx]
      exact hp.trans (log_mono hle _)

/-- **A follower** gets a log that keeps what it shares with its leader. -/
theorem follow (h : ReplicationInv V b H c) {log s : List Record}
    (hrole : (c.machine id).role.isCandidate = false ∧ (c.machine id).role.isLeader = false)
    (hs : H.start (c.epochOf id) = some s) (hb : Backed epoch H log)
    (hbound : ∀ r ∈ log, r.epoch ≤ c.epochOf id)
    (hkeep : ∀ P, P <+: c.logs id → P <+: H.log (c.epochOf id) → P <+: log)
    (hcopy : c.logs id <+: H.log (c.epochOf id) →
      log <+: H.log (c.epochOf id)) :
    ∃ H', H ≤ H' ∧ (∀ e, H'.start e = H.start e) ∧ (∀ e, H'.log e = H.log e) ∧
      ReplicationInv V b H' (c.setLog id log) := by
  refine ⟨H.hold epoch id (c.epochOf id) log, le_hold _ _ _,
    fun _ => rfl, fun _ => rfl, ?_⟩
  refine h.setLog (le_hold _ _ _) (h.logs.follow hs hb hbound hkeep) (fun _ => rfl)
    (fun y e hne => hold_held_of_ne log hne) hrole.1 ?_ (fun _ _ _ _ => rfl) ⟨s, hs⟩
    hcopy
  intro f hf
  rw [hf] at hrole
  cases hrole.2

/-- **The leader** appends records of its epoch. -/
theorem append (h : ReplicationInv V b H c) (recs : List Record)
    (hrole : (c.machine id).role.isLeader = true)
    (hrecs : ∀ r ∈ recs, r.epoch = c.epochOf id) :
    ∃ H', H ≤ H' ∧ ReplicationInv V b H' (c.setLog id (c.logs id ++ recs)) := by
  cases hf : (c.machine id).role with
  | leader f =>
    have hl := h.leader id f hf
    obtain ⟨s, hs, hstart⟩ := hl.start
    have hle := h.logs.valid.le_append id (c.epochOf id) recs
    refine ⟨H.append id (c.epochOf id) recs, hle, ?_⟩
    have hnew : c.logs id ++ recs =
        (H.append id (c.epochOf id) recs).log (c.epochOf id) := by
      rw [append_log_self, ← hl.log_eq]
    refine h.setLog hle (h.logs.append hs hl.log_eq hrecs) (fun _ => rfl)
      (fun y e hne => append_held_of_ne recs hne) (by rw [hf]; rfl) ?_ ?_ ⟨s, hs⟩
      (fun _ => hnew ▸ prefix_refl _)
    · intro f' hf'
      rw [hf, Role.leader.injEq] at hf'
      subst hf'
      refine ⟨hl.leads, hnew, ⟨s, hs, hstart⟩, fun y p hp => ?_⟩
      obtain ⟨hv, hne, hheld⟩ := hl.progress y p hp
      rw [append_held_of_ne recs (fun hy => hne hy.1)]
      exact ⟨hv, hne, hheld⟩
    · -- Two leaders are leaders of different epochs.
      intro x f' hx hf'
      refine append_log_of_ne id recs (fun he => hx ?_)
      have hleads : H.leader (c.epochOf x) = x := (h.leader x f' hf').leads
      rw [he, hl.leads] at hleads
      exact hleads.symm
  | _ => rw [hf] at hrole; cases hrole

/-- **A Fetch is sent.** -/
theorem sendFetch (h : ReplicationInv V b H c) (peer : NodeId) :
    ReplicationInv V b H (c.sendFetch id peer) := by
  refine ⟨h.cluster, h.logs, h.reign, h.leader, h.ballot, h.request, ?_, h.answer⟩
  intro f hf
  rcases mem_append.mp hf with hf | hf
  · exact h.fetch f hf
  unfold fetchTo at hf
  split_ifs at hf with hpeer
  · cases hf
  have hme := (h.replica id).me
  rw [mem_singleton] at hf
  subst hf
  rw [hme]
  refine ⟨le_rfl, c.logs id, h.logs.backed id, rfl, (logView_lastEpoch _).symm, ?_,
    fun _ => .inl rfl⟩
  intro hne hlast
  rw [logView_lastEpoch] at hlast
  rcases eq_nil_or_concat (c.logs id) with hnil | ⟨p, r, hpr⟩
  · exact absurd hnil hne
  rw [concat_eq_append] at hpr
  rw [hpr, lastEpoch_concat] at hlast
  exact h.logs.held_log id p r hpr hlast

/-! ## An event takes place -/

/-- Whoever votes for `id`, while it stays a candidate or reaches a new epoch,
supports its log. -/
theorem supported {op : Op} (h : ReplicationInv V b H c)
    (hcast : CastBy op (c.machine id) m' id b b')
    (hle : c.epochOf id ≤ m'.state.leaderEpoch)
    (hcause : (c.machine id).role.isCandidate = true ∧
        m'.state.leaderEpoch = c.epochOf id ∨
      c.epochOf id < m'.state.leaderEpoch)
    {x : NodeId} (hx : V.contains x = true) (hb : b' x m'.state.leaderEpoch = some id) :
    Supports epoch H x (c.logs id) m'.state.leaderEpoch := by
  rcases hcast x _ id hb with hb | ⟨rfl, -⟩
  · obtain ⟨hold, hsup⟩ := h.ballot x _ id hx hb
    rcases hcause with ⟨hcand, he⟩ | hlt
    · exact hsup hcand he.symm
    · exact absurd hold (not_le.mpr hlt)
  · exact h.logs.supports (.inr ⟨rfl, le_rfl⟩) hle

/-- The chronicle `H'` goes on from `H` when an event has taken `id` to `m'`. -/
structure Follows (V : VoterSet) (b' : Ballots NodeId Nat NodeId) (H H' : Chronicle NodeId Record)
    (c : LogCluster) (id : NodeId) (m' : QuorumStateMachine) : Prop where
  le : H ≤ H'
  held : ∀ y e, H'.held y e = H.held y e
  logs : LogInv epoch V.idSet H'
    (fun x => (Function.update c.machine id m' x).state.leaderEpoch) c.logs
  reign : ∀ e s, H'.start e = some s → (∀ y ∈ H'.electors e, b' y e = some (H'.leader e)) ∧
    (H.start e = some s ∨ H'.leader e = id ∧ Passed m' e)
  leads : ∀ f, m'.role = .leader f → LeaderSound V H' id m'.state.leaderEpoch (c.logs id) f
  others : ∀ x f, x ≠ id → (c.machine x).role = .leader f →
    H'.log (c.machine x).state.leaderEpoch = H.log (c.machine x).state.leaderEpoch

theorem epochOf_le_update (hle : c.epochOf id ≤ m'.state.leaderEpoch) (x : NodeId) :
    c.epochOf x ≤ (Function.update c.machine id m' x).state.leaderEpoch := by
  by_cases hx : x = id
  · subst hx
    rwa [update_self]
  · rw [update_of_ne hx]

variable {as : List Action}

theorem machine_after (done : List Action) :
    (c.after id m' done).machine = Function.update c.machine id m' :=
  Cluster.machines_update _ _ _

theorem Moves.binding_le {op : Op} {m m' : QuorumStateMachine}
    (h : Moves op m m' as) {e : Nat} (ha : .sendVoteRequest e false ∈ as) :
    e ≤ m'.state.leaderEpoch := by
  induction h with
  | nil => cases ha
  | cons head tail ih =>
    rcases mem_append.mp ha with ha | ha
    · cases head.actionEffect ha
      exact tail.epoch_le
    · exact ih ha

section Taken

variable {event : Event} {now : Nat} (h : ReplicationInv V b H c)
  (hmoves : Moves (.event event (logView (c.logs id)) now) (c.machine id) m' as)
  (hbound : m'.state.leaderEpoch < u32Max)
  (hfetched : ∀ y offset, Fetched (.event event (logView (c.logs id)) now) y offset →
    ∃ f, (c.machine id).role = .leader f ∧ m'.state.leaderEpoch = c.epochOf id ∧
      (f.epochStartOffset < offset → offset ≤ H.held y (c.epochOf id)))

include h hmoves hbound hfetched

theorem taken_chronicle (hle : b ≤ b')
    (hcast : CastBy (.event event (logView (c.logs id)) now) (c.machine id) m' id b b')
    (hreplica : ReplicaInv V b' id m')
    (hreplicas : ∀ x, x ≠ id → ReplicaInv V b' x (c.machine x)) :
    ∃ H', Follows V b' H H' c id m' := by
  have hepoch := hmoves.epoch_le
  have hop : ∃ event' log' now', Op.event event (logView (c.logs id)) now =
      .event event' log' now' := ⟨_, _, _, rfl⟩
  have hlogs := h.logs.raise (epochOf_le_update hepoch)
  have hvotes : ∀ e s, H.start e = some s → ∀ y ∈ H.electors e, b' y e = some (H.leader e) :=
    fun e s hs y hy => hle _ _ _ ((h.reign e s hs).1 y hy)
  have hkeep (hleads : ∀ f, m'.role = .leader f →
      LeaderSound V H id m'.state.leaderEpoch (c.logs id) f) : Follows V b' H H c id m' :=
    ⟨le_refl H, fun _ _ => rfl, hlogs, fun e s hs => ⟨hvotes e s hs, .inl hs⟩, hleads,
      fun _ _ _ _ => rfl⟩
  cases hrole : m'.role with
  | leader f' =>
    cases hmoves.leadership hop hbound hrole with
    | kept f hf he hstart hprogress =>
      -- The leadership goes on: what a Fetch adds is held.
      refine ⟨H, hkeep (fun f'' hf'' => ?_)⟩
      rw [hrole, Role.leader.injEq] at hf''
      subst hf''
      have hl := h.leader id f hf
      rw [he]
      refine ⟨hl.leads, hl.log_eq, hstart ▸ hl.start, fun y p' hp' => ?_⟩
      obtain ⟨p, hp, hoff⟩ := hprogress y p' hp'
      obtain ⟨hv, hne, hheld⟩ := hl.progress y p hp
      refine ⟨hv, hne, fun hlt => ?_⟩
      rw [hstart] at hlt
      rcases hoff with hoff | hoff
      · rw [hoff] at hlt ⊢
        exact hheld hlt
      · obtain ⟨f₀, hf₀, -, hheld⟩ := hfetched y _ hoff
        rw [hf, Role.leader.injEq] at hf₀
        subst hf₀
        exact hheld hlt
    | won hcause hstart hprogress =>
      obtain ⟨Q, hQ, hQb⟩ := hreplica.leader (by rw [hrole]; rfl)
      have hQV : ∀ y ∈ Q, V.contains y = true := fun y hy =>
        (VoterSet.mem_idSet V y).mp (hQ.1 hy)
      -- No one has led this epoch: its leader would be `id`, past its candidacy.
      have hnone : H.start m'.state.leaderEpoch = none := by
        cases hs : H.start m'.state.leaderEpoch with
        | none => rfl
        | some s =>
          have hwon : b'.Elected V.idSet m'.state.leaderEpoch (H.leader m'.state.leaderEpoch) :=
            ⟨_, h.logs.majority _ s hs, hvotes _ s hs⟩
          have heq := hwon.unique ⟨Q, hQ, hQb⟩
          have hpassed := (h.reign _ s hs).2
          rw [heq] at hpassed
          rcases hpassed with hlt | ⟨he, hcand⟩
          · omega
          · rcases hcause with ⟨hc, -⟩ | hlt
            · rw [hcand] at hc
              cases hc
            · omega
      have hbegin : LogInv epoch V.idSet
          (H.elect id m'.state.leaderEpoch Q (c.logs id))
          (fun x => (Function.update c.machine id m' x).state.leaderEpoch) c.logs := by
        refine hlogs.elect hnone hQ ?_ ?_ ?_
        · intro y hy
          by_cases hyid : y = id
          · subst hyid
            rw [update_self]
          · rw [update_of_ne hyid]
            exact ((hreplicas y hyid).ballot _ id (hQV y hy) (hQb y hy)).1
        · intro y hy
          exact h.supported hcast hepoch hcause (hQV y hy) (hQb y hy)
        · intro r hr
          exact (h.logs.bound id r hr).trans hepoch
      refine ⟨H.elect id m'.state.leaderEpoch Q (c.logs id), h.logs.valid.le_elect hnone _ _ _,
        fun _ _ => rfl, hbegin, ?_, ?_, ?_⟩
      · intro e s hs
        by_cases he : e = m'.state.leaderEpoch
        · subst he
          rw [elect_electors_self, elect_leader_self]
          exact ⟨hQb, .inr ⟨rfl, .inr ⟨rfl, by rw [hrole]; rfl⟩⟩⟩
        · rw [elect_start_of_ne he] at hs
          rw [elect_electors_of_ne he, elect_leader_of_ne he]
          exact ⟨hvotes e s hs, .inl hs⟩
      · intro f'' hf''
        rw [hrole, Role.leader.injEq] at hf''
        subst hf''
        obtain ⟨event', log', now', heq, hstart⟩ := hstart
        rw [Op.event.injEq] at heq
        obtain ⟨-, rfl, -⟩ := heq
        rw [logView_endOffset] at hstart
        refine ⟨elect_leader_self, elect_log_self.symm,
          ⟨c.logs id, elect_start_self, hstart⟩, fun y p hp => ?_⟩
        obtain ⟨hv, hne, hoff⟩ := hprogress y p hp
        rw [(h.replica id).voters] at hv
        rw [(h.replica id).me] at hne
        refine ⟨hv, hne, fun hlt => ?_⟩
        rcases hoff with hoff | hoff
        · omega
        · obtain ⟨f₀, hf₀, he, -⟩ := hfetched y _ hoff
          rcases hcause with ⟨hc, -⟩ | hlt'
          · rw [hf₀] at hc
            cases hc
          · exact absurd he hlt'.ne'
      · intro x f hx hf
        obtain ⟨s, hs, -⟩ := (h.leader x f hf).start
        refine elect_log_of_ne (fun he => ?_)
        cases hs.symm.trans ((congrArg H.start he).trans hnone)
  | _ =>
    refine ⟨H, hkeep (fun f hf => ?_)⟩
    rw [hrole] at hf
    cases hf

/-- **An event that took place.** -/
theorem taken {done : List Action}
    (hdel : Delivered c.cluster.network id (.event event (logView (c.logs id)) now))
    (hsub : ∀ a ∈ done, a ∈ as) (hdone : Saves done (c.machine id) m') :
    ∃ b' H', b ≤ b' ∧ H ≤ H' ∧ ReplicationInv V b' H' (c.after id m' done) := by
  obtain ⟨b', hle, hcast, hinv⟩ := h.cluster.taken hdel hmoves hbound hsub hdone
  have hreplica : ∀ x, ReplicaInv V b' x (Function.update c.machine id m' x) := fun x => by
    rw [← machine_after done]
    exact hinv.election.replica x
  have hself : Function.update c.machine id m' id = m' := update_self ..
  have hother : ∀ x, x ≠ id → Function.update c.machine id m' x = c.machine x :=
    fun x hx => update_of_ne hx ..
  obtain ⟨H', hH⟩ := h.taken_chronicle hmoves hbound hfetched hle hcast (hself ▸ hreplica id)
    (fun x hx => hother x hx ▸ hreplica x)
  have hepoch := hmoves.epoch_le
  refine ⟨b', H', hle, hH.le, hinv, ?_, ?_, ?_, ?_, ?_, ?_, ?_⟩ <;> simp only [machine_after]
  · exact hH.logs
  · intro e s hs
    obtain ⟨hvotes, hold | ⟨heq, hpassed⟩⟩ := hH.reign e s hs
    · refine ⟨hvotes, ?_⟩
      rw [(hH.le.2.2.1 e s hold).1]
      have hpassed := (h.reign e s hold).2
      by_cases hx : H.leader e = id
      · rw [hx] at hpassed ⊢
        rw [hself]
        exact hpassed.moves hmoves hbound
      · rwa [hother _ hx]
    · refine ⟨hvotes, ?_⟩
      rwa [heq, hself]
  · intro x f hf
    by_cases hx : x = id
    · subst hx
      rw [hself] at hf ⊢
      exact hH.leads f hf
    · rw [hother x hx] at hf ⊢
      exact (h.leader x f hf).mono hH.le (hH.others x f hx hf)
  · intro x e y hv hb
    suffices hsup : e ≤ (Function.update c.machine id m' y).state.leaderEpoch ∧
        ((Function.update c.machine id m' y).role.isCandidate = true →
          (Function.update c.machine id m' y).state.leaderEpoch = e →
            Supports Record.epoch H x (c.logs y) e) from
      ⟨hsup.1, fun hcand he => (hsup.2 hcand he).mono h.logs.valid hH.le
        (fun e₀ _ => hH.held x e₀)⟩
    by_cases hy : y = id
    · subst hy
      rw [hself]
      refine ⟨?_, fun hcand he => ?_⟩
      · rcases hcast x e y hb with hb | ⟨-, -, hle, -⟩
        · exact (h.ballot x e y hv hb).1.trans hepoch
        · exact hle
      · subst he
        exact h.supported hcast hepoch (hmoves.candidate hbound hcand) hv hb
    · rw [hother y hy]
      rcases hcast x e y hb with hb | ⟨rfl, hge, -, hself | ⟨r, log, now', hop, hpre, hc, he, hup⟩⟩
      · exact h.ballot x e y hv hb
      · exact absurd hself.1 hy
      · -- The vote compares the log end of the request with the own log.
        rw [Op.event.injEq] at hop
        obtain ⟨rfl, rfl, rfl⟩ := hop
        have hreq := h.request r (hdel.1 r _ _ rfl) hpre
        rw [hc, he] at hreq
        refine ⟨hreq.1, fun hcand hepoch => ?_⟩
        rw [hreq.2 hcand hepoch] at hup
        exact h.logs.supports (upToDate_of_logUpToDate hup) hge
  · intro r hr hpre
    rcases mem_append.mp hr with hr | hr
    · by_cases hx : r.candidate = id
      · rw [hx, hself]
        have hreq := h.request r hr hpre
        rw [hx] at hreq
        refine ⟨hreq.1.trans hepoch, fun hcand he => ?_⟩
        rcases hmoves.candidate hbound hcand with ⟨hcand', he'⟩ | hlt
        · exact hreq.2 hcand' (he'.symm.trans he)
        · omega
      · rw [hother _ hx]
        exact h.request r hr hpre
    · obtain ⟨a, ha, hr⟩ := mem_flatMap.mp hr
      rcases mem_messagesOf hr with ⟨r', preVote, heq, rfl, hp, -, hcand, hend⟩ |
        ⟨_, _, _, heq, -⟩ | ⟨_, _, heq, -⟩ | ⟨_, _, _, heq, -⟩ <;> cases heq
      rw [hpre] at hp
      subst hp
      have hme : m'.me = id := hmoves.kept.me.trans (h.replica id).me
      rw [hcand, hme, hself]
      exact ⟨Moves.binding_le hmoves (hsub _ ha), fun _ _ => hend⟩
  · intro f hf
    exact (h.fetch f hf).mono hH.le h.logs.valid hH.logs.valid (epochOf_le_update hepoch _)
      (fun _ => .inl rfl)
  · intro a ha herr
    exact (h.answer a ha herr).mono hH.le h.logs.valid hH.logs.valid (epochOf_le_update hepoch _)
      (fun _ hp => hp.trans (log_mono hH.le _))

end Taken

end ReplicationInv

end Krabka.KraftCore

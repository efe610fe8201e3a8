import Krabka.KraftCore.ReplicationInv

/-!
# The steps of replication

Every step of a cluster with its logs keeps `ReplicationInv`.  An event is
taken first, with all that it changes in the machine and on the network, and its
actions on the log are executed after it.  A crash cuts the actions short.  If
nothing was written to disk by then and the event has changed the epoch or the
vote, the event is lost, and `Moves.guarded` is why that is harmless: what others
could build on, a binding request or a Fetch, is sent after the write.

The one step that needs a condition is a truncation.  It keeps what the follower
shares with its leader when the answer is `Timely`.
-/

namespace Krabka.KraftCore

open QuorumStateMachine Function List Record

variable {V : VoterSet} {b b' : Ballots NodeId Nat NodeId} {H H' : Chronicle NodeId Record}
  {op : Op} {m m' : QuorumStateMachine} {as : List Action}

/-! ## What an event sends after its write -/

variable {k : Nat}

theorem Move.guarded (h : Move op m m' as) (hop : ∃ event log now, op = .event event log now)
    (hno : .persistQuorumState ∉ as.take k) {a : Action} (ha : a ∈ as.take k) :
    (∀ e, a ≠ .sendVoteRequest e false) ∧ ∀ l, a = .sendFetch l →
      ∃ l' e diverging log now, op = .event (.receiveFetchResponse l' e diverging) log now := by
  have hmem := mem_of_mem_take ha
  -- A move that begins with the write has done nothing else without it.
  have hfirst : ∀ rest, as = .persistQuorumState :: rest → False := by
    rintro rest rfl
    cases k with
    | zero => cases ha
    | succ k => exact hno mem_cons_self
  cases h
  case castVote | newEpoch | endAsNonVoter | follow | loseRound | endAsVoter | becomeCandidate |
      discover => exact (hfirst _ rfl).elim
  case fetched hop' =>
    refine ⟨?_, fun _ _ => ⟨_, _, _, _, _, hop'⟩⟩
    rcases handleFetchResponse_actions hmem with ⟨_, _, _, _, rfl⟩ | rfl | rfl <;> simp
  case contact =>
    rw [recordQuorumContact_actions hmem]
    simp
  case progress =>
    obtain ⟨_, rfl⟩ := recordProgress_actions hmem
    simp
  case finishRemoval hvoter hleader =>
    rw [finishLocalLeaderRemoval, if_neg (by simp [hvoter, hleader])] at hmem
    simp only [mem_cons, not_mem_nil, or_false] at hmem
    rcases hmem with rfl | rfl | rfl | rfl <;> simp
  case resign =>
    simp only [transitionToResigned, mem_cons, not_mem_nil, or_false] at hmem
    rcases hmem with rfl | rfl | rfl | rfl
    · simp
    · simp
    · simp
    · split_ifs <;> simp
  case promoteToLeader =>
    simp only [promoteToLeader, mem_append, mem_cons,
      not_mem_nil, or_false] at hmem
    rcases hmem with (rfl | rfl | rfl | rfl) | hmem
    · simp
    · simp
    · simp
    · simp
    · split_ifs at hmem
      · rw [mem_singleton.mp hmem]
        simp
      · cases hmem
  case becomeProspective =>
    simp only [becomeProspective, mem_cons, not_mem_nil, or_false]
      at hmem
    rcases hmem with rfl | rfl | rfl <;> simp
  case deny | grantPreVote | diverge =>
    rw [mem_singleton.mp hmem]
    simp
  case recordGrant | recordRejection => cases hmem
  all_goals
    obtain ⟨event, log, now, hop⟩ := hop
    simp_all

/-- **What is sent before the first write of an event**: no binding request, and
a Fetch only by a replica that goes on with its leader. -/
theorem Moves.guarded (h : Moves op m m' as) (hop : ∃ event log now, op = .event event log now)
    (hno : .persistQuorumState ∉ as.take k) {a : Action} (ha : a ∈ as.take k) :
    (∀ e, a ≠ .sendVoteRequest e false) ∧ ∀ l, a = .sendFetch l →
      ∃ l' e diverging log now, op = .event (.receiveFetchResponse l' e diverging) log now := by
  induction h generalizing k with
  | nil => simp at ha
  | cons head _ ih =>
    rw [take_append] at hno ha
    rw [mem_append, not_or] at hno
    rcases mem_append.mp ha with ha | ha
    · exact Move.guarded head hop hno.1 ha
    · exact ih hno.2 ha

theorem onEvent_truncates {event : Event} {log : LogView} {now : Nat} {target : LogOffsetMetadata}
    (ha : .truncateTo target ∈ (m.onEvent event log now).2) :
    ∃ l e point, event = .receiveFetchResponse l e (some point) ∧ m.fetchingFrom = some l ∧
      e = m.state.leaderEpoch ∧
      target = ⟨point.followerTruncationOffset log, point.epoch⟩ := by
  have hevent : ∃ l e point, event = .receiveFetchResponse l e (some point) := by
    obtain ⟨m₁, m₂, bs, hmove, hbs⟩ := (run_moves m (.event event log now)).exists_move ha
    cases hmove.actionEffect hbs with
    | truncate log' now' l e point hop => exact ⟨l, e, point, (Op.event.inj hop).1⟩
  obtain ⟨l, e, point, rfl⟩ := hevent
  rcases handleFetchResponse_actions ha with ⟨point', hp, hfrom, he, htarget⟩ | heq | heq
  · cases hp
    exact ⟨l, e, point, rfl, hfrom, he, Action.truncateTo.inj htarget⟩
  · cases heq
  · cases heq

theorem onEvent_appends {event : Event} {log : LogView} {now e : Nat}
    (ha : .appendLeaderChange e ∈ (m.onEvent event log now).2.take k) :
    (m.onEvent event log now).1.role.isLeader = true ∧
      e = (m.onEvent event log now).1.state.leaderEpoch ∧
      Saves ((m.onEvent event log now).2.take k) m (m.onEvent event log now).1 := by
  rcases onEvent_promotion (m := m) event log now with hno | ⟨m₁, pre, hmoves, hno, heq⟩
  · exact absurd (mem_of_mem_take ha) (hno e)
  rw [heq] at ha ⊢
  have hafter : .appendLeaderChange e ∈ (m₁.promoteToLeader log now).2.take (k - pre.length) := by
    rw [take_append, mem_append] at ha
    exact ha.resolve_left (fun hpre => hno e (mem_of_mem_take hpre))
  have hk : pre.length ≤ k := by
    by_contra hlt
    rw [Nat.sub_eq_zero_of_le (not_le.mp hlt).le] at hafter
    simp at hafter
  refine ⟨rfl, ?_, ?_⟩
  · have hmem := mem_of_mem_take hafter
    simp only [promoteToLeader, mem_append, mem_cons, not_mem_nil, or_false,
      Action.appendLeaderChange.injEq, reduceCtorEq] at hmem
    rcases hmem with hmem | hmem
    · exact hmem
    · split_ifs at hmem <;> simp at hmem
  · refine hmoves.kept.saves.imp_left fun hwritten => ?_
    rw [take_append, take_of_length_le hk]
    exact mem_append_left _ hwritten

/-! ## Restarts -/

namespace ReplicationInv

open LogCluster

variable {c : LogCluster} {id : NodeId}

theorem restart (h : ReplicationInv V b H c) (id : NodeId) {cluster : Cluster}
    (hinv : Cluster.Inv V b cluster) (hothers : ∀ x, x ≠ id → cluster.machines x = c.machine x)
    (hepoch : (cluster.machines id).state.leaderEpoch = (c.machine id).state.leaderEpoch)
    (hrole : (cluster.machines id).role.isCandidate = false ∧
      (cluster.machines id).role.isLeader = false)
    (hnet : ∀ r, .vote r ∈ cluster.network → r.preVote = false → .vote r ∈ c.cluster.network) :
    ReplicationInv V b H { c with cluster := cluster } := by
  have hepochs : ∀ x, (cluster.machines x).state.leaderEpoch = (c.machine x).state.leaderEpoch := by
    intro x
    by_cases hx : x = id
    · rw [hx, hepoch]
    · rw [hothers x hx]
  -- Who is a candidate or a leader now was it before.
  have hcand : ∀ x, (cluster.machines x).role.isCandidate = true →
      (c.machine x).role.isCandidate = true := by
    intro x hc
    by_cases hx : x = id
    · rw [hx, hrole.1] at hc
      cases hc
    · rwa [← hothers x hx]
  have hmachine : ∀ x, { c with cluster := cluster }.machine x = cluster.machines x := fun _ => rfl
  refine ⟨hinv, ?_, ?_, ?_, ?_, ?_, ?_, ?_⟩ <;> simp only [hmachine, hepochs]
  · exact h.logs
  · intro e s hs
    obtain ⟨hvotes, hpassed⟩ := h.reign e s hs
    refine ⟨hvotes, ?_⟩
    by_cases hx : H.leader e = id
    · rw [hx] at hpassed ⊢
      rcases hpassed with hlt | ⟨he, -⟩
      · exact .inl (hepoch ▸ hlt)
      · exact .inr ⟨he.trans hepoch.symm, hrole.1⟩
    · rwa [hothers _ hx]
  · intro x f hf
    by_cases hx : x = id
    · rw [hx] at hf
      rw [hf] at hrole
      cases hrole.2
    · rw [hothers x hx] at hf
      exact h.leader x f hf
  · intro x e y hv hb
    obtain ⟨hle, hsup⟩ := h.ballot x e y hv hb
    exact ⟨hle, fun hc he => hsup (hcand y hc) he⟩
  · intro r hr hpre
    obtain ⟨hle, hend⟩ := h.request r (hnet r hr hpre) hpre
    exact ⟨hle, fun hc he => hend (hcand _ hc) he⟩
  · exact h.fetch
  · exact h.answer

theorem crash (h : ReplicationInv V b H c) (id : NodeId) :
    ReplicationInv V b H { c with cluster := c.cluster.apply (.crash id) } := by
  have hmachines : (c.cluster.apply (.crash id)).machines =
      Function.update c.machine id (c.cluster.replicas id).restart :=
    Cluster.machines_update _ _ _
  refine h.restart id (h.cluster.crash id) ?_ ?_ ?_ (fun _ hr _ => hr)
  · intro x hx
    rw [hmachines, update_of_ne hx]
  · rw [hmachines, update_self]
    exact (h.disk id).epoch
  · rw [hmachines, update_self]
    exact new_role _ _ _ _

theorem lost {event : Event} {log : LogView} {now k : Nat} (h : ReplicationInv V b H c)
    (hdel : Delivered c.cluster.network id (.event event log now))
    (hmoves : Moves (.event event log now) (c.machine id) m' as)
    (hno : .persistQuorumState ∉ as.take k) :
    ReplicationInv V b H
      { c with cluster := (c.cluster.after id m' log (as.take k)).apply (.crash id) } := by
  have hmachines : ((c.cluster.after id m' log (as.take k)).apply (.crash id)).machines =
      Function.update c.machine id
        (Replica.restart ⟨m', (c.cluster.replicas id).disk.writtenBy m' (as.take k)⟩) := by
    funext x
    by_cases hx : x = id
    · subst hx
      simp [Cluster.apply, Cluster.after, Cluster.machines]
    · simp [Cluster.apply, Cluster.after, Cluster.machines, LogCluster.machine, hx]
  refine h.restart id (h.cluster.lost hdel hmoves hno) ?_ ?_ ?_ ?_
  · intro x hx
    rw [hmachines, update_of_ne hx]
  · rw [Cluster.epoch_after_crash, QuorumState.writtenBy, if_neg hno]
    exact (h.disk id).epoch
  · rw [hmachines, update_self]
    exact new_role _ _ _ _
  · intro r hr hpre
    rcases mem_append.mp hr with hr | hr
    · exact hr
    obtain ⟨a, ha, hr⟩ := mem_flatMap.mp hr
    rcases mem_messagesOf hr with ⟨r', preVote, heq, rfl, hp, -⟩ | ⟨_, _, _, heq, -⟩ |
      ⟨_, _, heq, -⟩ | ⟨_, _, _, heq, -⟩ <;> cases heq
    rw [hpre] at hp
    subst hp
    exact absurd rfl ((Moves.guarded hmoves ⟨_, _, _, rfl⟩ hno ha).1 _)

end ReplicationInv

/-! ## Executing the actions -/

namespace LogCluster

variable {c : LogCluster} {id : NodeId}

/-- The cluster once `id` has executed `done` on its log. -/
def executed (c : LogCluster) (id : NodeId) (done : List Action) : LogCluster :=
  let result := (c.machine id).execute (c.directories id) (c.logs id) done
  { c with logs := Function.update c.logs id result.1, fetches := c.fetches ++ result.2 }

theorem executed_nil : c.executed id [] = c := by
  simp [executed, execute]

theorem executed_sendFetch (l : NodeId) (rest : List Action) :
    c.executed id (.sendFetch l :: rest) = (c.sendFetch id l).executed id rest := by
  simp [executed, execute, executeOnLog, LogCluster.sendFetch, machine]

theorem executed_log {a : Action} (rest : List Action) (hno : ∀ l, a ≠ .sendFetch l) :
    c.executed id (a :: rest) =
      (c.setLog id ((c.machine id).executeOnLog (c.logs id) a)).executed id rest := by
  cases a <;> first
    | exact absurd rfl (hno _)
    | simp [executed, execute, executeOnLog, setLog, machine]

theorem setLog_logs_self (log : List Record) : (c.setLog id log).logs id = log :=
  update_self ..

theorem setLog_self : c.setLog id (c.logs id) = c := by
  simp [setLog]

theorem handle_eq {event : Event} {now : Nat} {result : QuorumStateMachine × List Action}
    (hresult : (c.machine id).onEvent event (logView (c.logs id)) now = result) :
    c.handle id event now none = (c.after id result.1 result.2).executed id result.2 := by
  subst hresult
  simp only [executed, ReplicationInv.machine_after, update_self]
  rfl

theorem handle_crash_eq {event : Event} {now : Nat} {result : QuorumStateMachine × List Action}
    (hresult : (c.machine id).onEvent event (logView (c.logs id)) now = result) (k : Nat) :
    c.handle id event now (some k) =
      { (c.after id result.1 (result.2.take k)).executed id (result.2.take k) with
        cluster := (c.cluster.after id result.1 (logView (c.logs id))
          (result.2.take k)).apply (.crash id) } := by
  subst hresult
  simp only [executed, ReplicationInv.machine_after, update_self]
  rw [handle, Cluster.apply_event_crash]
  rfl

end LogCluster

namespace ReplicationInv

open LogCluster

variable {c : LogCluster} {id : NodeId}

/-- The truncation to `n` keeps what the follower `id` shares with its leader. -/
structure KeepsShared (H : Chronicle NodeId Record) (c : LogCluster) (id : NodeId) (n : Nat) :
    Prop where
  role : (c.machine id).role.isCandidate = false ∧ (c.machine id).role.isLeader = false
  led : ∃ s, H.start (c.machine id).state.leaderEpoch = some s
  shared : ∀ P, P <+: c.logs id → P <+: H.log (c.machine id).state.leaderEpoch → P.length ≤ n

theorem truncate {n : Nat} (h : ReplicationInv V b H c) (hkeeps : KeepsShared H c id n) :
    ∃ H', H ≤ H' ∧ (∀ e, H'.start e = H.start e) ∧ (∀ e, H'.log e = H.log e) ∧
      ReplicationInv V b H' (c.setLog id ((c.logs id).take n)) := by
  obtain ⟨s, hs⟩ := hkeeps.led
  have htake := take_prefix n (c.logs id)
  refine h.follow hkeeps.role hs ((h.logs.backed id).of_isPrefix htake)
    (fun r hr => h.logs.bound id r (htake.subset hr)) ?_ (fun hp => htake.trans hp)
  intro P hP hP'
  exact prefix_of_prefix_length_le hP htake (by
    rw [length_take]
    exact le_min (hkeeps.shared P hP hP') hP.length_le)

variable {done : List Action}

/-- **The actions of an event on the log**, one after the other. -/
theorem execute (h : ReplicationInv V b H c) (id : NodeId)
    (happend : ∀ e, .appendLeaderChange e ∈ done →
      (c.machine id).role.isLeader = true ∧ e = (c.machine id).state.leaderEpoch)
    (htruncate : ∀ point, .truncateTo point ∈ done → KeepsShared H c id point.offset.toNat) :
    ∃ H', H ≤ H' ∧ ReplicationInv V b H' (c.executed id done) := by
  induction done generalizing c H with
  | nil => exact ⟨H, le_refl H, executed_nil ▸ h⟩
  | cons a rest ih =>
    have happend' : ∀ e, .appendLeaderChange e ∈ rest → _ :=
      fun e he => happend e (mem_cons_of_mem a he)
    have htruncate' : ∀ point, .truncateTo point ∈ rest → _ :=
      fun point hp => htruncate point (mem_cons_of_mem a hp)
    cases a with
    | sendFetch l =>
      rw [executed_sendFetch]
      exact ih (h.sendFetch l) happend' (fun point hp =>
        ⟨(htruncate' point hp).role, (htruncate' point hp).led, (htruncate' point hp).shared⟩)
    | appendLeaderChange e =>
      obtain ⟨hrole, he⟩ := happend e mem_cons_self
      rw [executed_log rest (by simp)]
      obtain ⟨H₁, hle₁, h₁⟩ := h.append [⟨e, .leaderChange (c.machine id).me⟩] hrole (by simp [he])
      obtain ⟨H₂, hle₂, h₂⟩ := ih h₁ happend' (fun point hp => by
        -- A leader truncates nothing.
        have := (htruncate' point hp).role.2
        rw [hrole] at this
        cases this)
      exact ⟨H₂, hle₁.trans hle₂, h₂⟩
    | truncateTo point =>
      rw [executed_log rest (by simp)]
      obtain ⟨H₁, hle₁, hstart, hlog, h₁⟩ := h.truncate (htruncate point mem_cons_self)
      obtain ⟨H₂, hle₂, h₂⟩ := ih h₁ happend' (fun point' hp => by
        have hkeeps := htruncate' point' hp
        refine ⟨hkeeps.role, by rw [hstart]; exact hkeeps.led, fun P hP hP' => ?_⟩
        rw [hlog] at hP'
        rw [setLog_logs_self] at hP
        exact hkeeps.shared P (hP.trans <| take_prefix _ _) hP')
      exact ⟨H₂, hle₁.trans hle₂, h₂⟩
    | _ =>
      rw [executed_log rest (by simp)]
      unfold executeOnLog
      rw [setLog_self]
      exact ih h happend' htruncate'

variable {now : Nat}

theorem KeepsShared.after {l e n : Nat} {log : LogView} {diverging : Option LogOffsetMetadata}
    (h : ReplicationInv V b H c) (hle : H ≤ H')
    (hv : H'.Valid epoch) (hkeeps : KeepsShared H c id n) :
    KeepsShared H'
      (c.after id ((c.machine id).handleFetchResponse log l e diverging now).1 done) id n := by
  obtain ⟨hstate, -, -, hrole⟩ :=
    handleFetchResponse_frame (m := c.machine id) log l e diverging now
  obtain ⟨s, hs⟩ := hkeeps.led
  refine ⟨?_, ?_, ?_⟩ <;> rw [machine_after, update_self]
  · rcases hrole with hsame | ⟨_, _, _, -, hnew⟩
    · rw [hsame]
      exact hkeeps.role
    · rw [hnew]
      exact ⟨rfl, rfl⟩
  · rw [hstate]
    exact ⟨s, Chronicle.start_mono hle hs⟩
  · rw [hstate]
    intro P hP hP'
    exact hkeeps.shared P hP
      (prefix_of_grown h.logs.valid hv hle hs ((h.logs.backed id).of_isPrefix hP) hP')

theorem executed_lost {event : Event} {k : Nat} {result : QuorumStateMachine × List Action}
    (hresult : (c.machine id).onEvent event (logView (c.logs id)) now = result)
    (hlost : ¬Saves (result.2.take k) (c.machine id) result.1)
    (hsub : ∀ a ∈ done, a ∈ result.2.take k) (c' : LogCluster) : c'.executed id done = c' := by
  have hmoves : Moves (.event event (logView (c.logs id)) now) (c.machine id) result.1 result.2 :=
    hresult ▸ run_moves (c.machine id) (.event event (logView (c.logs id)) now)
  subst hresult
  -- A Fetch response changes neither the epoch nor the vote.
  have hresponse : ∀ l e diverging, event ≠ .receiveFetchResponse l e diverging := by
    rintro l e diverging rfl
    refine hlost (.inr ?_)
    have hstate := (handleFetchResponse_frame (m := c.machine id) (logView (c.logs id)) l e
      diverging now).1
    show (handleFetchResponse _ _ _ _ _ _).1.state.leaderEpoch = _ ∧
      (handleFetchResponse _ _ _ _ _ _).1.state.votedKey = _
    rw [hstate]
    exact ⟨rfl, rfl⟩
  induction done generalizing c' with
  | nil => exact executed_nil
  | cons a rest ih =>
    have ha := hsub a mem_cons_self
    have hrest := ih c' (fun a' ha' => hsub a' (mem_cons_of_mem a ha'))
    have hnofetch : ∀ l, a ≠ .sendFetch l := by
      intro l hl
      obtain ⟨l', e, diverging, log, now', heq⟩ :=
        (Moves.guarded hmoves ⟨_, _, _, rfl⟩ (fun hw => hlost (.inl hw)) ha).2 l hl
      exact hresponse l' e diverging (Op.event.inj heq).1
    have hlog : (c'.machine id).executeOnLog (c'.logs id) a = c'.logs id := by
      cases a with
      | appendLeaderChange e => exact absurd (onEvent_appends ha).2.2 hlost
      | truncateTo target =>
        obtain ⟨l, e, point, heq, -⟩ := onEvent_truncates (mem_of_mem_take ha)
        exact absurd heq (hresponse l e (some point))
      | _ => rfl
    rw [executed_log rest hnofetch, hlog, setLog_self, hrest]

section Handled

variable {event : Event} (h : ReplicationInv V b H c)
  (hdel : Delivered c.cluster.network id (.event event (logView (c.logs id)) now))
  (hfetch : ∀ y e offset, event ≠ .receiveFetch y e offset) (htruncate : ∀ l point, event =
    .receiveFetchResponse l (c.machine id).state.leaderEpoch (some point) →
    (c.machine id).fetchingFrom = some l →
    KeepsShared H c id (point.followerTruncationOffset (logView (c.logs id))).toNat)

include h hdel hfetch htruncate

theorem handled {k : Nat} {result : QuorumStateMachine × List Action}
    (hresult : (c.machine id).onEvent event (logView (c.logs id)) now = result)
    (hbound : result.1.state.leaderEpoch < u32Max)
    (hdone : Saves (result.2.take k) (c.machine id) result.1) :
    ∃ b' H', b ≤ b' ∧ H ≤ H' ∧
      ReplicationInv V b' H' ((c.after id result.1 (result.2.take k)).executed id
        (result.2.take k)) := by
  obtain ⟨b', H', hleb, hleH, h'⟩ := h.taken (hresult ▸ run_moves (c.machine id) (.event _ _ _))
    hbound (fun y offset hf => by
      obtain ⟨e, log, now', heq, -⟩ := hf
      exact absurd (Op.event.inj heq).1 (hfetch y e offset)) hdel
    (fun _ ha => mem_of_mem_take ha) hdone
  subst hresult
  obtain ⟨H'', hleH', h''⟩ := h'.execute id (fun e he => by
    obtain ⟨hlead, hepoch, -⟩ := onEvent_appends (k := k) he
    rw [machine_after, update_self]
    exact ⟨hlead, hepoch⟩) (fun target ha => by
    obtain ⟨l, e, point, rfl, hfrom, rfl, rfl⟩ := onEvent_truncates (mem_of_mem_take ha)
    exact (htruncate l point rfl hfrom).after h hleH h'.logs.valid)
  exact ⟨b', H'', hleb, hleH.trans hleH', h''⟩

theorem handle {crashAfter : Option Nat}
    (hbound : ((c.handle id event now crashAfter).machine id).state.leaderEpoch < u32Max) :
    ∃ b' H', b ≤ b' ∧ H ≤ H' ∧ ReplicationInv V b' H' (c.handle id event now crashAfter) := by
  obtain ⟨result, hresult⟩ : ∃ r, (c.machine id).onEvent event (logView (c.logs id)) now = r :=
    ⟨_, rfl⟩
  have hmoves : Moves (.event event (logView (c.logs id)) now) (c.machine id) result.1 result.2 :=
    hresult ▸ run_moves (c.machine id) (.event event (logView (c.logs id)) now)
  cases crashAfter with
  | none =>
    rw [handle_eq hresult] at hbound ⊢
    have hepoch : result.1.state.leaderEpoch < u32Max := by
      change ((c.after id result.1 result.2).machine id).state.leaderEpoch < u32Max at hbound
      rwa [machine_after, update_self] at hbound
    have hhandled := h.handled (k := result.2.length) hdel hfetch htruncate hresult hepoch (by
      rw [take_length]
      exact hmoves.kept.saves)
    rwa [take_length] at hhandled
  | some k =>
    rw [handle_crash_eq hresult] at hbound ⊢
    by_cases hwritten : Saves (result.2.take k) (c.machine id) result.1
    · have hepoch : result.1.state.leaderEpoch < u32Max := by
        have hdisk := Cluster.diskInv_writtenBy (h.disk id)
          ((hmoves.kept.voters (fun _ _ => nofun)).trans (h.replica id).voters) hwritten
        rw [← hdisk.epoch, ← Cluster.epoch_after_crash _ (logView (c.logs id))]
        exact hbound
      obtain ⟨b', H', hleb, hleH, h'⟩ := h.handled hdel hfetch htruncate hresult hepoch hwritten
      exact ⟨b', H', hleb, hleH, h'.crash id⟩
    · rw [executed_lost hresult hwritten (fun _ ha => ha)]
      exact ⟨b, H, le_refl b, le_refl H, h.lost hdel hmoves fun hw => hwritten (.inl hw)⟩

end Handled

end ReplicationInv

/-! ## The follower takes an answer -/

theorem fetchResponseMutation_accepts {a : FetchAnswer}
    (h : m.fetchResponseMutation a = .truncate ∨ m.fetchResponseMutation a = .append) :
    (∃ l, m.fetchingFrom = some l) ∧ a.leaderEpoch = m.state.leaderEpoch ∧ a.error = none := by
  unfold fetchResponseMutation at h
  dsimp only at h
  split_ifs at h with hdiscover hreject hdiv hbatches
  all_goals try simp at h
  all_goals
    simp only [ne_eq, decide_not, Bool.or_eq_true, Bool.not_eq_true', decide_eq_false_iff_not,
      not_or, not_not, Bool.not_eq_true, Option.isSome_eq_false_iff, Option.isNone_iff_eq_none]
      at hreject
    obtain ⟨⟨⟨⟨hfrom, -⟩, -⟩, hepoch⟩, herror⟩ := hreject
    exact ⟨⟨_, hfrom⟩, hepoch, herror⟩

theorem fetchResponseMutation_consistent {a : FetchAnswer}
    (h : m.fetchResponseMutation a = .append ∨ m.fetchResponseMutation a = .highWatermark) :
    a.diverging = none := by
  unfold fetchResponseMutation at h
  dsimp only at h
  split_ifs at h with hdiscover hreject hdiv hbatches
  all_goals simp_all

theorem role_of_fetchingFrom {l : NodeId} (h : m.fetchingFrom = some l) :
    m.role.isCandidate = false ∧ m.role.isLeader = false := by
  unfold fetchingFrom at h
  cases hrole : m.role with
  | follower | observer => exact ⟨rfl, rfl⟩
  | _ => rw [hrole] at h; cases h

theorem appendBatches_isPrefix {log full : List Record} {batches : List Batch} (h : log <+: full)
    (hb : ∀ batch ∈ batches, batch.IsSliceOf full) :
    log <+: appendBatches log batches ∧ appendBatches log batches <+: full := by
  induction batches generalizing log with
  | nil => exact ⟨prefix_refl _, h⟩
  | cons batch rest ih =>
    have hrest : ∀ batch ∈ rest, batch.IsSliceOf full :=
      fun batch hb' => hb batch (mem_cons_of_mem _ hb')
    unfold appendBatches
    split
    · exact ih h hrest
    · rename_i hat
      have hbase : batch.baseOffset = log.length := by
        unfold classifyFetchBatch at hat
        split_ifs at hat with h₁ h₂
        exact h₂
      obtain ⟨t, rfl⟩ := h
      have hslice : batch.records <+: t := by
        have := hb batch mem_cons_self
        rwa [Batch.IsSliceOf, hbase, drop_left] at this
      obtain ⟨h₁, h₂⟩ := ih ((prefix_append_right_inj log).mpr hslice) hrest
      exact ⟨(prefix_append _ _).trans h₁, h₂⟩
    · exact ⟨prefix_refl _, h⟩

namespace ReplicationInv

open LogCluster

variable {c : LogCluster} {id : NodeId} {a : FetchAnswer}

theorem keepsShared (h : ReplicationInv V b H c) (ha : a ∈ c.answers) (herror : a.error = none)
    (hepoch : a.leaderEpoch = (c.machine id).state.leaderEpoch) {l : NodeId}
    (hfrom : (c.machine id).fetchingFrom = some l) {point : LogOffsetMetadata}
    (hpoint : a.diverging = some point)
    (htimely : lastEpoch epoch (c.logs id) ≤ a.request.fetchEpoch) :
    KeepsShared H c id (point.followerTruncationOffset (logView (c.logs id))).toNat := by
  have hsound := h.answer a ha herror
  obtain ⟨-, k, -, hoff, hbefore, hafter⟩ := hsound.diverging point hpoint
  refine ⟨role_of_fetchingFrom hfrom, hepoch ▸ hsound.start, fun P hP hP' => ?_⟩
  rw [← hepoch] at hP'
  have hle : ((P.map epoch).length : Int) ≤
      point.followerTruncationOffset (logView (c.logs id)) := by
    refine length_le_followerTruncationOffset (e := a.request.fetchEpoch)
      (h.logs.valid.pairwise (h.logs.backed id)) hoff ?_ ?_ ?_ (hP.map _) (hP'.map _)
    · intro x hx
      rw [← map_take] at hx
      obtain ⟨r, hr, rfl⟩ := mem_map.mp hx
      exact hbefore r hr
    · intro x hx
      rw [← map_drop] at hx
      obtain ⟨r, hr, rfl⟩ := mem_map.mp hx
      exact hafter r hr
    · intro x hx
      obtain ⟨r, hr, rfl⟩ := mem_map.mp hx
      exact (h.logs.valid.le_lastEpoch (h.logs.backed id) hr).trans htimely
  rw [length_map] at hle
  omega

/-- **A follower takes an answer.** -/
theorem receive {peer : NodeId} {now : Nat} {crashAfter : Option Nat}
    (h : ReplicationInv V b H c) (ha : a ∈ c.answers) (hid : a.request.fromId = id)
    (htimely : (c.machine id).fetchResponseMutation a = .truncate →
      (logView (c.logs id)).lastEpoch ≤ a.request.fetchEpoch)
    (hbound : ((c.onFetchResponse id a peer now crashAfter).machine id).state.leaderEpoch
      < u32Max) :
    ∃ b' H', b ≤ b' ∧ H ≤ H' ∧
      ReplicationInv V b' H' (c.onFetchResponse id a peer now crashAfter) := by
  have hsame : ∃ b' H', b ≤ b' ∧ H ≤ H' ∧ ReplicationInv V b' H' c :=
    ⟨b, H, le_refl b, le_refl H, h⟩
  have hdel : ∀ (net : List Message) (event : Event) (log : LogView),
      (∀ r, event ≠ .receiveVoteRequest r) → (∀ q e, event ≠ .receiveVoteResponse q e true) →
      Delivered net id (.event event log now) := fun net event log hr hv =>
    ⟨fun r _ _ heq => absurd (Op.event.inj heq).1 (hr r),
      fun q e _ _ heq => absurd (Op.event.inj heq).1 (hv q e)⟩
  revert hbound
  unfold onFetchResponse
  dsimp only
  by_cases hnewer : (c.machine id).state.leaderEpoch < a.leaderEpoch
  · -- A newer epoch, with or without its leader.
    rw [if_pos hnewer]
    split
    · exact h.handle (hdel _ _ _ (by simp) (by simp)) (by simp) (by simp)
    · intro hbound
      have hhandled : ((c.handle id (.receiveLeaderlessEpoch a.leaderEpoch) now
          crashAfter).machine id).state.leaderEpoch < u32Max → _ :=
        h.handle (hdel _ _ _ (by simp) (by simp)) (by simp) (by simp)
      split_ifs at hbound ⊢ with hcrash
      · unfold discover at hbound ⊢
        split_ifs at hbound ⊢ with hpeer
        · obtain ⟨b', H', hleb, hleH, h'⟩ := hhandled hbound
          exact ⟨b', H', hleb, hleH, h'.sendFetch peer⟩
        · exact hhandled hbound
      · exact hhandled hbound
  rw [if_neg hnewer]
  cases hmutation : (c.machine id).fetchResponseMutation a with
  | reject =>
    intro _
    split_ifs
    · exact ⟨b, H, le_refl b, le_refl H, h.sendFetch _⟩
    · exact hsame
  | discover =>
    dsimp only
    split
    · exact h.handle (hdel _ _ _ (by simp) (by simp)) (by simp) (by simp)
    · exact fun _ => hsame
  | truncate =>
    obtain ⟨⟨l, hfrom⟩, hepoch, herror⟩ := fetchResponseMutation_accepts (.inl hmutation)
    have hlast := htimely hmutation
    rw [logView_lastEpoch] at hlast
    dsimp only
    split
    · rename_i point hpoint
      intro hbound
      obtain ⟨H₁, hle₁, hstart, -, h₁⟩ :=
        h.truncate (h.keepsShared ha herror hepoch hfrom hpoint hlast)
      obtain ⟨b', H', hleb, hleH, h'⟩ := h₁.handle (hdel _ _ _ (by simp) (by simp)) (by simp)
        (fun l' point' heq hfrom' => by
          cases (Event.receiveFetchResponse.inj heq).2.2.symm.trans hpoint
          refine h₁.keepsShared ha herror hepoch hfrom' hpoint (lastEpoch_le _ fun r hr => ?_)
          rw [setLog_logs_self] at hr
          exact (h.logs.valid.le_lastEpoch (h.logs.backed id)
            (mem_of_mem_take hr)).trans hlast) hbound
      exact ⟨b', H', hleb, hle₁.trans hleH, h'⟩
    · exact fun _ => hsame
  | append =>
    obtain ⟨⟨l, hfrom⟩, hepoch, herror⟩ := fetchResponseMutation_accepts (.inr hmutation)
    have hnone := fetchResponseMutation_consistent (.inl hmutation)
    have hsound := h.answer a ha herror
    subst hid
    obtain ⟨s, hs⟩ := hsound.start
    obtain ⟨hext, hfull⟩ := appendBatches_isPrefix (hsound.consistent hnone hepoch.symm)
      hsound.batches
    rw [hepoch] at hs hfull
    intro hbound
    obtain ⟨H₁, hle₁, -, -, h₁⟩ := h.follow (role_of_fetchingFrom hfrom) hs
      ((h.logs.valid.backed _).of_isPrefix hfull)
      (fun r hr => h.logs.valid.epoch_le (hfull.subset hr)) (fun P hP _ => hP.trans hext)
      (fun _ => hfull)
    obtain ⟨b', H', hleb, hleH, h'⟩ := h₁.handle (hdel _ _ _ (by simp) (by simp)) (by simp)
      (by simp [hnone]) hbound
    exact ⟨b', H', hleb, hle₁.trans hleH, h'⟩
  | highWatermark =>
    have hnone := fetchResponseMutation_consistent (.inr hmutation)
    exact h.handle (hdel _ _ _ (by simp) (by simp)) (by simp) (by simp [hnone])

end ReplicationInv

/-! ## The leader answers a Fetch -/

section Serve

variable {e fe : Nat} {l : List Record}

theorem prefix_of_accepted (hv : H.Valid epoch) (hb : Backed epoch H l)
    (hlast : lastEpoch epoch l = fe)
    (h : fetchDiverges (logView (H.log e)) fe l.length = false) : l <+: H.log e := by
  rcases eq_nil_or_concat l with rfl | ⟨p', r', rfl⟩
  · exact nil_prefix
  rw [concat_eq_append] at hb hlast h ⊢
  rw [lastEpoch_concat] at hlast
  obtain ⟨hle, q, hq⟩ := accepted_of_not_diverges (hv.pairwise (hv.backed e)) (by simp) h
  rw [← map_take] at hq
  obtain ⟨p, t, htake, -, ht⟩ := map_eq_append_iff.mp hq
  obtain ⟨r, rfl, hr⟩ := map_eq_singleton_iff.mp ht
  have hin : p ++ [r] <+: H.log e := htake ▸ take_prefix _ _
  have hlen : (p' ++ [r']).length ≤ (p ++ [r]).length := by
    rw [← htake, length_take]
    refine le_min hle (hle.trans ?_)
    have := endOf_le_length (l := (H.log e).map epoch) (e := fe)
    rwa [length_map] at this
  -- Both are prefixes of the log of the epoch in which they end.
  have h₁ := hb p' r' (prefix_refl _)
  have h₂ := hv.backed e p r hin
  rw [hlast] at h₁
  rw [hr] at h₂
  exact (prefix_of_prefix_length_le h₁ h₂ hlen).trans hin

theorem epoch_le_of_accepted (hv : H.Valid epoch) {n : Nat} (hr : H.Reaches e n)
    (h : fetchDiverges (logView (H.log e)) fe n = false) : e ≤ fe := by
  have hn : 0 < n := by
    obtain ⟨s, -, hs⟩ := hr
    omega
  obtain ⟨hle, -⟩ := accepted_of_not_diverges (hv.pairwise (hv.backed e)) hn h
  have hlen : n ≤ (H.log e).length := by
    have := endOf_le_length (l := (H.log e).map epoch) (e := fe)
    rw [length_map] at this
    omega
  obtain ⟨p, r, htake, rfl⟩ := hv.take_reaches hr hlen
  refine le_of_mem_take_endOf (l := (H.log r.epoch).map epoch) ?_
  have hmem : r ∈ (H.log r.epoch).take n := by rw [htake]; simp
  rw [← map_take]
  exact mem_map_of_mem
    ((take_prefix_take_left hle).subset hmem)

/-- A position that the leader refuses is of an older epoch, and the point of
divergence separates what the follower can share. -/
theorem diverging_of_refused (hv : H.Valid epoch) (hb : Backed epoch H l)
    (hlast : lastEpoch epoch l = fe) (hle : fe ≤ e)
    (h : fetchDiverges (logView (H.log e)) fe l.length = true) :
    fe < e ∧ ∃ k ≤ (H.log e).length, ((logView (H.log e)).endOffsetForEpoch fe).offset = k ∧
      (∀ r ∈ (H.log e).take k, r.epoch ≤ ((logView (H.log e)).endOffsetForEpoch fe).epoch) ∧
      ∀ r ∈ (H.log e).drop k, fe < r.epoch := by
  have hsorted := hv.pairwise (hv.backed e)
  refine ⟨lt_of_le_of_ne hle ?_, endOf ((H.log e).map epoch) fe, ?_,
    endOfEpochIn_offset hsorted, ?_, ?_⟩
  · rintro rfl
    rcases eq_nil_or_concat l with rfl | ⟨p, r, rfl⟩
    · simp [fetchDiverges] at h
    rw [concat_eq_append] at hb hlast h
    rw [lastEpoch_concat] at hlast
    have hin := hb p r (prefix_refl _)
    rw [hlast] at hin
    have hin' := hin.map epoch
    rw [map_append, map_singleton, hlast] at hin'
    have hno := not_diverges_of_isPrefix hsorted hin'
    rw [length_append, length_map, length_singleton] at hno
    rw [length_append, length_singleton] at h
    exact absurd (h.symm.trans hno) (by simp)
  · have := endOf_le_length (l := (H.log e).map epoch) (e := fe)
    rwa [length_map] at this
  · intro r hr
    refine le_endOfEpochIn_epoch hsorted ?_
    rw [← map_take]
    exact mem_map_of_mem hr
  · intro r hr
    refine lt_of_mem_drop_endOf hsorted ?_
    rw [← map_drop]
    exact mem_map_of_mem hr

end Serve

theorem runReplicaFetch_spec (log : LogView) (f : Fetch) (now : Nat)
    (hlead : m.role.isLeader = true) :
    ((m.runReplicaFetch log f now).1 = (m, []) ∨ (m.runReplicaFetch log f now).1 =
        m.onEvent (.receiveFetch f.fromId f.fetchEpoch f.fetchOffset) log now) ∧
      (m.runReplicaFetch log f now).2 =
        if fetchDiverges log f.fetchEpoch f.fetchOffset then
          some (log.endOffsetForEpoch f.fetchEpoch) else none := by
  unfold runReplicaFetch
  split_ifs with hvoter hdiv hdiv
  all_goals dsimp only
  · refine ⟨.inr rfl, ?_⟩
    have hcontact : divergingOf (m.recordQuorumContact f.fromId now).2 = none := by
      refine findSome?_eq_none_iff.mpr (fun a ha => ?_)
      rw [recordQuorumContact_actions ha]
    rw [onEvent, handleFetch, if_neg (by simp [hlead]), if_pos hdiv]
    unfold divergingOf at hcontact ⊢
    rw [findSome?_append, hcontact]
    rfl
  · refine ⟨.inr rfl, ?_⟩
    refine findSome?_eq_none_iff.mpr (fun a ha => ?_)
    rw [onEvent, handleFetch, if_neg (by simp [hlead]), if_neg hdiv] at ha
    rcases mem_append.mp ha with ha | ha
    · rw [recordQuorumContact_actions ha]
    · obtain ⟨_, rfl⟩ := recordProgress_actions ha
      rfl
  · exact ⟨.inl rfl, rfl⟩
  · exact ⟨.inl rfl, rfl⟩

theorem handleFetch_state (log : LogView) (fromId epoch now : Nat) (offset : Int) :
    (m.handleFetch log fromId epoch offset now).1.state = m.state := by
  unfold handleFetch
  split_ifs
  · rfl
  · exact (recordQuorumContact_frame _ _).1
  · exact (recordProgress_frame _ _ _ _).1.trans (recordQuorumContact_frame _ _).1

theorem tryCompleteFetch_spec (log : LogView) (f : Fetch) (batches : List Batch) (now : Nat)
    {r : (QuorumStateMachine × List Action) × FetchAnswer}
    (hr : m.tryCompleteFetch log f batches now = r) :
    r.1.1 = m ∧ r.2.error ≠ none ∨
      ∃ fields, m.role = .leader fields ∧ f.currentLeaderEpoch = m.state.leaderEpoch ∧
        f.fetchEpoch ≤ f.currentLeaderEpoch ∧
        (r.1.1 = m ∨ r.1.1 =
          (m.onEvent (.receiveFetch f.fromId f.fetchEpoch f.fetchOffset) log now).1) ∧
        r.2.request = f ∧ r.2.error = none ∧ r.2.leaderEpoch = m.state.leaderEpoch ∧
        r.2.diverging = (m.runReplicaFetch log f now).2 ∧
        ∀ batch ∈ r.2.batches, batch ∈ batches := by
  subst hr
  unfold tryCompleteFetch
  split_ifs with hvalid
  · exact .inl ⟨rfl, by simp [emptyFetchAnswer]⟩
  cases herror : m.leaderOnlyRequestError f.currentLeaderEpoch with
  | some error => exact .inl ⟨rfl, by simp [emptyFetchAnswer]⟩
  | none =>
    unfold leaderOnlyRequestError at herror
    split_ifs at herror with hold hnew hlead
    cases hrole : m.role with
    | leader fields =>
      have hspec := (runReplicaFetch_spec log f now (by rw [hrole]; rfl)).1
      refine .inr ⟨fields, rfl, by omega, by omega, ?_, rfl, rfl, ?_, rfl, ?_⟩
      · exact hspec.imp (congrArg Prod.fst) (congrArg Prod.fst)
      · dsimp only
        rcases hspec with h | h <;> rw [h]
        exact congrArg QuorumState.leaderEpoch (handleFetch_state _ _ _ _ _)
      · intro batch hb
        dsimp only at hb
        split_ifs at hb
        · exact hb
        · cases hb
    | _ => rw [hrole] at hlead; simp [Role.isLeader] at hlead

namespace LogCluster

theorem apply_serve {c : LogCluster} {id : NodeId} (f : Fetch) (batches : List Batch) (now : Nat) :
    c.apply (.serve id f batches now) =
      { c with answers := c.answers ++
        [((c.machine id).tryCompleteFetch (logView (c.logs id)) f batches now).2] }.after id
        ((c.machine id).tryCompleteFetch (logView (c.logs id)) f batches now).1.1 [] := by
  simp [apply, after, Cluster.after, QuorumState.writtenBy]

theorem after_self {c : LogCluster} {id : NodeId} : c.after id (c.machine id) [] = c := by
  simp [after, Cluster.after, QuorumState.writtenBy, machine]

end LogCluster

namespace ReplicationInv

open LogCluster

variable {c : LogCluster} {id : NodeId} {a : FetchAnswer}

theorem reply (h : ReplicationInv V b H c)
    (ha : a.error = none → AnswerSound H (c.machine a.request.fromId).state.leaderEpoch
      (c.logs a.request.fromId) a) :
    ReplicationInv V b H { c with answers := c.answers ++ [a] } := by
  refine ⟨h.cluster, h.logs, h.reign, h.leader, h.ballot, h.request, h.fetch, ?_⟩
  intro a' ha' herr
  rcases mem_append.mp ha' with ha' | ha'
  · exact h.answer a' ha' herr
  · rw [mem_singleton] at ha'
    subst ha'
    exact ha herr

variable {f : Fetch}

theorem answerSound {fields : LeaderFields} {now : Nat} (h : ReplicationInv V b H c)
    (hf : f ∈ c.fetches) (hrole : (c.machine id).role = .leader fields)
    (hcurrent : f.currentLeaderEpoch = (c.machine id).state.leaderEpoch)
    (hvalid : f.fetchEpoch ≤ f.currentLeaderEpoch) (hrequest : a.request = f)
    (hepoch : a.leaderEpoch = (c.machine id).state.leaderEpoch)
    (hdiv : a.diverging = ((c.machine id).runReplicaFetch (logView (c.logs id)) f now).2)
    (hbatches : ∀ batch ∈ a.batches, batch.IsSliceOf (c.logs id)) :
    AnswerSound H (c.machine a.request.fromId).state.leaderEpoch (c.logs a.request.fromId) a := by
  subst hrequest
  have hleader := h.leader id fields hrole
  obtain ⟨hcur, l, hb, hlen, hlast, -, htrack⟩ := h.fetch _ hf
  obtain ⟨s, hs, -⟩ := hleader.start
  rw [(runReplicaFetch_spec _ _ _ (by rw [hrole]; rfl)).2, hleader.log_eq, ← hepoch, ← hlen]
    at hdiv
  rw [hleader.log_eq, ← hepoch] at hbatches
  rw [← hepoch] at hs hcurrent
  rw [hcurrent] at hcur hvalid htrack
  refine ⟨hcur, ⟨s, hs⟩, hbatches, ?_, ?_⟩
  · intro hnone he
    have hno : fetchDiverges (logView (H.log a.leaderEpoch)) a.request.fetchEpoch l.length =
        false := by
      by_contra hd
      rw [if_pos (by simpa using hd), hnone] at hdiv
      cases hdiv
    have hl := prefix_of_accepted h.logs.valid hb hlast hno
    rcases htrack he with hsame | ⟨-, hcopy⟩
    · exact hsame ▸ hl
    · rw [he] at hcopy
      exact hcopy hl
  · intro point hpoint
    rw [hpoint] at hdiv
    split_ifs at hdiv with hd
    rw [Option.some.inj hdiv]
    exact diverging_of_refused h.logs.valid hb hlast hvalid hd

theorem fetched_held {fields : LeaderFields} (h : ReplicationInv V b H c)
    (hf : f ∈ c.fetches) (hrole : (c.machine id).role = .leader fields)
    (hcurrent : f.currentLeaderEpoch = (c.machine id).state.leaderEpoch)
    (hvalid : f.fetchEpoch ≤ f.currentLeaderEpoch)
    (hdiv : fetchDiverges (logView (c.logs id)) f.fetchEpoch f.fetchOffset = false)
    (hstart : fields.epochStartOffset < f.fetchOffset) :
    f.fetchOffset ≤ H.held f.fromId (c.machine id).state.leaderEpoch := by
  have hleader := h.leader id fields hrole
  obtain ⟨-, l, hb, hlen, hlast, hheld, -⟩ := h.fetch f hf
  obtain ⟨s, hs, hoff⟩ := hleader.start
  rw [hleader.log_eq] at hdiv
  have hreaches : H.Reaches (c.machine id).state.leaderEpoch f.fetchOffset :=
    ⟨s, hs, by rw [hoff] at hstart; exact_mod_cast hstart⟩
  have hle := epoch_le_of_accepted h.logs.valid hreaches hdiv
  have hne : l ≠ [] := by
    rintro rfl
    rw [← hlen, hoff] at hstart
    simp at hstart
    omega
  rw [← hlen, ← hcurrent]
  exact hheld hne (by omega)

theorem serve {batches : List Batch} {now : Nat} (h : ReplicationInv V b H c)
    (hf : f ∈ c.fetches) (hbatches : ∀ batch ∈ batches, batch.IsSliceOf (c.logs id))
    (hbound : ((c.apply (.serve id f batches now)).machine id).state.leaderEpoch < u32Max) :
    ∃ b' H', b ≤ b' ∧ H ≤ H' ∧ ReplicationInv V b' H' (c.apply (.serve id f batches now)) := by
  rw [apply_serve] at hbound ⊢
  obtain ⟨hsame, herror⟩ | ⟨fields, hrole, hcurrent, hvalid, hmachine, hrequest, herror, hepoch,
    hdiv, hsub⟩ := tryCompleteFetch_spec (m := c.machine id) (logView (c.logs id)) f batches now rfl
  · rw [hsame]
    exact ⟨b, H, le_refl b, le_refl H, after_self ▸ h.reply (fun hnone => absurd hnone herror)⟩
  have h₁ := h.reply (fun _ => h.answerSound hf hrole hcurrent hvalid hrequest hepoch hdiv
    (fun batch hb => hbatches batch (hsub batch hb)))
  rcases hmachine with hsame | hevent
  · rw [hsame]
    exact ⟨b, H, le_refl b, le_refl H, after_self ▸ h₁⟩
  rw [hevent] at hbound ⊢
  have hstate := handleFetch_state (m := c.machine id) (logView (c.logs id)) f.fromId f.fetchEpoch
    now f.fetchOffset
  refine h₁.taken (run_moves (c.machine id) (.event _ _ now)) ?_ ?_ ?_ (by simp)
    (.inr ⟨congrArg QuorumState.leaderEpoch hstate, congrArg QuorumState.votedKey hstate⟩)
  · rwa [machine_after, update_self] at hbound
  · rintro y offset ⟨e, log, now', heq, hno⟩
    obtain ⟨hev, rfl, -⟩ := Op.event.inj heq
    obtain ⟨rfl, rfl, rfl⟩ := Event.receiveFetch.inj hev
    refine ⟨fields, hrole, congrArg QuorumState.leaderEpoch hstate, fun hlt => ?_⟩
    exact_mod_cast h.fetched_held hf hrole hcurrent hvalid hno hlt
  · exact ⟨fun _ _ _ heq => (by cases heq), fun _ _ _ _ heq => (by cases heq)⟩

end ReplicationInv

end Krabka.KraftCore

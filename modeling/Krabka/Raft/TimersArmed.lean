import Krabka.KraftCore.RoleTimers
import Krabka.Raft.Engine

/-!
# No replica is left without a timer

In every state of a run of the engine the timer of the role is armed, up to the
two inputs that strand a replica: an `EndQuorumEpoch` outside the voter set, and
a voter set that drops a replica which knows no leader.

No action takes a timer away, `reconcileTimers` clears only the slots that the
role does not need, and a tick that finds its slot empty asks for what comes
next, so an input keeps the engine armed as soon as the core asks for the timers
of its new role.
-/

namespace Krabka.Raft

open KraftCore KraftCore.QuorumStateMachine

inductive Input where
  | tick (tick : TimerTick)
  | vote (request : VoteRequest)
  /-- A Vote request with an invalid voter key, whose epoch still counts. -/
  | misaddressedVote (candidate : ReplicaKey) (epoch : Nat)
  | beginQuorumEpoch (leaderId : NodeId) (epoch : Nat)
  | endQuorumEpoch (leaderId : NodeId) (epoch : Nat) (rank : SuccessorRank)
  | fetch (fromId : NodeId) (epoch : Nat) (offset : Int)
  | fetchSnapshot (fromId : NodeId)
  | voteResponse (fromId : NodeId) (answer : VoteAnswer)
  | fetchResponse (answer : FetchAnswer)
  | voters (voters : VoterSet) (joined : List (NodeId × ReplicaProgress))
  | snapshot (voters : VoterSet) (version : Nat) (joined : List (NodeId × ReplicaProgress))
  | commit (version : Nat)
  | removalCommitted

/-- No voter set that is decoded is empty. -/
def Input.Decoded : Input → Prop
  | .voters vs _ | .snapshot vs _ _ => vs.isEmpty = false
  | _ => True

namespace Engine

variable {e : Engine} {k : TimerKind}

def handle (e : Engine) (input : Input) (log : LogView) (now : Nat) : Engine :=
  match input with
  | .tick tick => (e.clearSlot tick).onTimer tick log now
  | .vote request => e.onEvent (.receiveVoteRequest request) log now
  | .misaddressedVote candidate epoch => e.advanceEpochForVote candidate epoch now
  | .beginQuorumEpoch leaderId epoch => e.answerBeginQuorumEpoch leaderId epoch log now
  | .endQuorumEpoch leaderId epoch rank => e.answerEndQuorumEpoch leaderId epoch rank log now
  | .fetch fromId epoch offset => e.onEvent (.receiveFetch fromId epoch offset) log now
  | .fetchSnapshot fromId => e.onEvent (.receiveFetchSnapshot fromId) log now
  | .voteResponse fromId answer => e.onVoteResponse fromId answer log now
  | .fetchResponse answer => e.onFetchResponse answer log now
  | .voters voters joined => e.applyChangedVoters voters joined now
  | .snapshot voters version joined => e.installControlState voters version joined now
  | .commit version => e.commitControlState version
  | .removalCommitted => e.finishLocalLeaderRemoval now

/-- The engine as `run` starts it. -/
def start (core : QuorumStateMachine) (controllerFetchMissLimit : Nat)
    (discoveryPeers : List NodeId) (now : Nat) : Engine :=
  sendDiscoveryFetch
    { core := core
      electionAt := initialElectionAt core
      fetchAt := none
      checkQuorumAt := none
      fetchMisses := 0
      discoveryAttempts := 0
      controllerFetchMissLimit := controllerFetchMissLimit
      discoveryPeers := discoveryPeers } now

/-- A start from a state as it is loaded, which names no leader, on a voter set
that names another replica. -/
def Starts (e : Engine) : Prop :=
  ∃ me state electionTimeoutMs fetchTimeoutMs limit peers now,
    state.leaderId = none ∧ (∃ id, id ≠ me ∧ state.voters.contains id = true) ∧
    e = start (.new me state electionTimeoutMs fetchTimeoutMs) limit peers now

/-- The runs of one engine, at any times and over any log. -/
def system : TransitionSystem Engine (Input × LogView × Nat) where
  init := Starts
  step e label e' := label.1.Decoded ∧ e' = e.handle label.1 label.2.1 label.2.2

def deadline (e : Engine) : TimerKind → Option Nat
  | .election => e.electionAt
  | .fetch => e.fetchAt
  | .checkQuorum => e.checkQuorumAt

/-- The timer of the role is armed, and only voters wait for an election. -/
def Armed (e : Engine) : Prop :=
  match e.core.role with
  | .unattached _ | .voted _ | .prospective .. | .candidate .. | .resigned =>
    e.core.isVoter = true ∧ e.electionAt.isSome = true
  | .follower .. | .observer .. => e.fetchAt.isSome = true
  | .leader _ => e.core.runsCheckQuorum = true → e.checkQuorumAt.isSome = true

/-- `on_timer` acts on a tick of the timer. -/
def actsOn (e : Engine) : TimerKind → Bool
  | .election => electionTimerStartsElection e.core.isVoter e.core.role.isLeader
  | .fetch => e.core.isVoter || e.core.fetchingFrom.isSome || e.discoveryPeer.isSome
  | .checkQuorum => e.core.role.isLeader && e.core.runsCheckQuorum

/-- The inputs that take the last timer: an `EndQuorumEpoch` outside the voter
set, and a voter set that drops a replica which knows no leader. -/
def Strands (e : Engine) : Input → Prop
  | .endQuorumEpoch _ epoch _ => e.core.state.leaderEpoch ≤ epoch ∧ e.core.isVoter = false
  | .voters voters _ | .snapshot voters _ _ => e.core.DropsLeaderless voters ∧ e.fetchAt = none
  | _ => False

/-- Every timer that the role needs is armed. -/
def Covered (e : Engine) : Prop := ∀ k, e.core.neededTimer = some k → (e.deadline k).isSome = true

theorem armed_iff : e.Armed ↔ e.Covered ∧ e.core.WellPlaced := by
  unfold Armed Covered WellPlaced neededTimer
  cases hrole : e.core.role <;>
    simp [Role.awaitsElection, deadline, and_comm]

/-! ## Actions and slots -/

theorem executeOne_deadline {a : Action}
    (h : (e.deadline k).isSome = true ∨ ∃ d, a = .resetTimer k d) :
    ((e.executeOne a).deadline k).isSome = true := by
  rcases h with h | ⟨d, rfl⟩
  · unfold executeOne
    split <;> first | exact h | (cases k <;> first | rfl | exact h)
  · cases k <;> rfl

theorem execute_deadline {as : List Action}
    (h : (e.deadline k).isSome = true ∨ ∃ d, .resetTimer k d ∈ as) :
    ((e.execute as).deadline k).isSome = true := by
  unfold execute
  induction as generalizing e with
  | nil => simpa using h
  | cons a as ih =>
    refine ih ?_
    rcases h with h | ⟨d, hd⟩
    · exact .inl (executeOne_deadline (.inl h))
    · rcases List.mem_cons.mp hd with rfl | hd
      · exact .inl (executeOne_deadline (.inr ⟨d, rfl⟩))
      · exact .inr ⟨d, hd⟩

theorem reconcileTimers_deadline (hk : e.core.neededTimer = some k) :
    e.reconcileTimers.deadline k = e.deadline k := by
  unfold neededTimer at hk
  unfold reconcileTimers
  cases hrole : e.core.role <;> rw [hrole] at hk <;> dsimp only at hk ⊢ <;>
    (try split_ifs at hk) <;> cases hk <;> rfl

theorem carryOut_covered {result : QuorumStateMachine × List Action}
    (h : ∀ k, result.1.neededTimer = some k →
      (∃ d, .resetTimer k d ∈ result.2) ∨ (e.deadline k).isSome = true) :
    (e.carryOut result).Covered := by
  intro k hk
  rw [carryOut_core] at hk
  unfold carryOut
  rw [reconcileTimers_deadline (by simpa using hk)]
  exact execute_deadline ((h k hk).symm.imp_left id)

theorem Covered.run (h : e.Covered) {op : Op} (hop : ∀ voters now, op ≠ .applyVoterSet voters now) :
    (e.carryOut (e.core.run op)).Covered :=
  carryOut_covered fun k hk =>
    (Moves.neededTimer (run_moves e.core op) hop hk).imp_right (h k)

theorem Armed.run (h : e.Armed) (op : Op) (hop : ∀ voters now, op ≠ .applyVoterSet voters now)
    (hrejection : ¬op.IsNewerRejection e.core)
    (hend : ¬(op.IsCurrentEnd e.core ∧ e.core.isVoter = false)) :
    (e.carryOut (e.core.run op)).Armed := by
  rw [armed_iff] at h ⊢
  refine ⟨h.1.run hop, ?_⟩
  rw [carryOut_core]
  exact (run_moves e.core op).wellPlaced hop hrejection hend h.2

/-! ## Ticks -/

theorem otherVoters_ne_nil {m : QuorumStateMachine} (hvoter : m.isVoter = false)
    (hvoters : m.state.voters.isEmpty = false) : m.otherVoters ≠ [] := by
  intro hnone
  obtain ⟨⟨id, voter⟩, hentry⟩ := List.exists_mem_of_ne_nil _
    (show m.state.voters.map.entries ≠ [] by simpa [VoterSet.isEmpty] using hvoters)
  have hid : id ∈ m.state.voters.ids := List.mem_map_of_mem (f := Prod.fst) hentry
  have hme : id = m.me := by
    simpa using List.filter_eq_nil_iff.mp hnone id hid
  rw [isVoter, ← hme, (VoterSet.mem_ids _ _).mp hid] at hvoter
  cases hvoter

theorem discoveryPeer_isSome (hvoter : e.core.isVoter = false)
    (hvoters : e.core.state.voters.isEmpty = false) (hfrom : e.core.fetchingFrom = none) :
    e.discoveryPeer.isSome = true := by
  have hne := otherVoters_ne_nil hvoter hvoters
  have hlen : 0 < e.core.otherVoters.length := List.length_pos_of_ne_nil hne
  have hmax : max e.core.otherVoters.length 1 = e.core.otherVoters.length := max_eq_left hlen
  have hempty : e.core.otherVoters.isEmpty = false := by simpa using hne
  simp only [discoveryPeer, hvoter, hfrom, hempty]
  simpa [hmax] using Nat.mod_lt e.discoveryAttempts hlen

theorem sendDiscoveryFetch_core (now : Nat) : (e.sendDiscoveryFetch now).core = e.core := by
  unfold sendDiscoveryFetch
  split_ifs <;> rfl

variable {now : Nat}

theorem sendDiscoveryFetch_deadline (h : (e.deadline k).isSome = true) :
    ((e.sendDiscoveryFetch now).deadline k).isSome = true := by
  unfold sendDiscoveryFetch
  split_ifs
  · cases k <;> first | rfl | exact h
  · exact h

theorem Armed.sendDiscoveryFetch (h : e.Armed) : (e.sendDiscoveryFetch now).Armed := by
  rw [armed_iff, Covered, sendDiscoveryFetch_core] at *
  exact ⟨fun k hk => sendDiscoveryFetch_deadline (h.1 k hk), h.2⟩

@[simp]
theorem clearSlot_core (tick : TimerTick) : (e.clearSlot tick).core = e.core := by
  cases tick <;> rfl

theorem Armed.timeout (h : e.Armed) {e' : Engine} (hcore : e'.core = e.core) (event : Event)
    (log : LogView) (now : Nat) (hsafe : ∀ m, ¬Op.IsNewerRejection m (.event event log now) ∧
      ¬Op.IsCurrentEnd m (.event event log now))
    (hasks : ∀ k, (e.core.onEvent event log now).1.neededTimer = some k →
      ∃ d, .resetTimer k d ∈ (e.core.onEvent event log now).2) :
    (e'.onEvent event log now).Armed := by
  rw [armed_iff, onEvent, hcore, carryOut_core]
  refine ⟨carryOut_covered fun k hk => .inl (hasks k hk), ?_⟩
  exact (run_moves e.core (.event event log now)).wellPlaced (fun _ _ => nofun)
    (hsafe _).1 (fun h => (hsafe _).2 h.1) (armed_iff.mp h).2

theorem Armed.electionTick (h : e.Armed) (log : LogView) (now : Nat) :
    ((e.clearSlot .election).onTimer .election log now).Armed := by
  simp only [onTimer, clearSlot_core]
  split_ifs with hstarts
  · have hvoter : e.core.isVoter = true := by
      simp only [electionTimerStartsElection, Bool.and_eq_true] at hstarts
      exact hstarts.1
    exact h.timeout (clearSlot_core .election) .electionTimeout log now (fun _ => ⟨id, id⟩)
      (fun k hk => handleElectionTimeout_neededTimer hvoter hk)
  · -- The tick is ignored, so the role does not wait for an election.
    rw [armed_iff] at h ⊢
    refine ⟨fun k hk => ?_, h.2⟩
    cases k
    case election =>
      have hrole := awaitsElection_of_neededTimer hk
      cases hlead : e.core.role.isLeader
      · exact absurd (by simp [electionTimerStartsElection, h.2 hrole, hlead]) hstarts
      · exact absurd hrole (by simp [awaitsElection_of_isLeader hlead])
    all_goals exact h.1 _ hk

theorem Armed.rearmFetch (h : e.Armed) {e' : Engine} (hcore : e'.core = e.core)
    (hfetch : e'.fetchAt.isSome = true) (helection : e'.electionAt = e.electionAt)
    (hcheck : e'.checkQuorumAt = e.checkQuorumAt) : e'.Armed := by
  rw [armed_iff] at h
  rw [armed_iff, Covered, hcore]
  refine ⟨fun k hk => ?_, h.2⟩
  cases k
  case election => rw [deadline, helection]; exact h.1 _ hk
  case fetch => exact hfetch
  case checkQuorum => rw [deadline, hcheck]; exact h.1 _ hk

theorem Armed.fetchTick (h : e.Armed) (hvoters : e.core.state.voters.isEmpty = false)
    (log : LogView) (now : Nat) : ((e.clearSlot .fetch).onTimer .fetch log now).Armed := by
  have htimeout : ∀ {e' : Engine}, e'.core = e.core → (e'.onEvent .fetchTimeout log now).Armed :=
    fun hcore => h.timeout hcore .fetchTimeout log now (fun _ => ⟨id, id⟩)
      (fun k hk => handleFetchTimeout_neededTimer hk)
  simp only [onTimer, clearSlot_core]
  cases hvoter : e.core.isVoter with
  | true => exact htimeout rfl
  | false =>
    cases hfrom : e.core.fetchingFrom with
    | some leaderId =>
      rw [if_neg Bool.false_ne_true]
      split_ifs
      · exact htimeout rfl
      · exact h.rearmFetch rfl rfl rfl rfl
    | none =>
      have hpeer : (e.clearSlot .fetch).discoveryPeer.isSome = true :=
        discoveryPeer_isSome (e := e.clearSlot .fetch) hvoter hvoters hfrom
      rw [if_neg Bool.false_ne_true]
      rw [Engine.sendDiscoveryFetch, if_pos hpeer]
      exact h.rearmFetch rfl rfl rfl rfl

theorem Armed.checkQuorumTick (h : e.Armed) (log : LogView) (now : Nat) :
    ((e.clearSlot .checkQuorum).onTimer .checkQuorum log now).Armed := by
  simp only [onTimer, clearSlot_core]
  split_ifs with hlead
  · exact h.timeout (clearSlot_core .checkQuorum) .checkQuorumTimeout log now (fun _ => ⟨id, id⟩)
      (fun k hk => handleCheckQuorumTimeout_neededTimer hlead hk)
  · rw [armed_iff] at h ⊢
    refine ⟨fun k hk => ?_, h.2⟩
    cases k
    case checkQuorum => exact absurd (isLeader_of_neededTimer hk) hlead
    all_goals exact h.1 _ hk

theorem Armed.tick (h : e.Armed) (hvoters : e.core.state.voters.isEmpty = false)
    (tick : TimerTick) (log : LogView) (now : Nat) :
    ((e.clearSlot tick).onTimer tick log now).Armed := by
  cases tick with
  | election => exact h.electionTick log now
  | fetch => exact h.fetchTick hvoters log now
  | checkQuorum => exact h.checkQuorumTick log now
  | heartbeat => exact h

/-! ## Answers -/

theorem voteResponseStep_count {me epoch epoch' : Nat} {known : Option NodeId}
    {answer : VoteAnswer} {granted : Bool}
    (h : voteResponseStep me epoch known answer = .count epoch' granted) : epoch' = epoch := by
  unfold voteResponseStep at h
  split_ifs at h with hignore hnewer <;>
    first | (cases hleader : answer.leaderId <;> rw [hleader] at h <;> dsimp only at h <;>
      (try split_ifs at h) <;> cases h) | skip
  cases h
  simp only [Bool.or_eq_true, decide_eq_true_eq, not_or, not_lt] at hignore
  omega

theorem Armed.onEvent (h : e.Armed) {event : Event} {log : LogView}
    (hrejection : ¬Op.IsNewerRejection e.core (.event event log now))
    (hend : ¬(Op.IsCurrentEnd e.core (.event event log now) ∧ e.core.isVoter = false)) :
    (e.onEvent event log now).Armed :=
  h.run (.event event log now) (fun _ _ => nofun) hrejection hend

theorem Armed.onVoteResponse (h : e.Armed) (fromId : NodeId) (answer : VoteAnswer)
    (log : LogView) (now : Nat) : (e.onVoteResponse fromId answer log now).Armed := by
  unfold Engine.onVoteResponse
  split
  · exact h
  · exact h.onEvent id (fun h => h.1)
  · exact h.onEvent id (fun h => h.1)
  · rename_i epoch granted hcount
    have hepoch := voteResponseStep_count hcount
    exact h.onEvent (fun hnewer => hnewer.2.ne' hepoch) (fun h => h.1)

theorem Armed.onFetchResponse (h : e.Armed) (answer : FetchAnswer) (log : LogView) (now : Nat) :
    (e.onFetchResponse answer log now).Armed := by
  unfold Engine.onFetchResponse
  split_ifs
  · split
    · exact h.onEvent id (fun h => h.1)
    · refine Armed.sendDiscoveryFetch ?_
      exact h.onEvent id (fun h => h.1)
  · split
    · exact h
    · split
      · exact h.onEvent id (fun h => h.1)
      · exact h
    all_goals exact h.onEvent id (fun h => h.1)

/-! ## Voter sets -/

/-- A voter set keeps the engine armed exactly when it does not drop a replica
that knows no leader and has no fetch timer. -/
theorem Armed.applyChangedVoters_iff (h : e.Armed) (voters : VoterSet)
    (joined : List (NodeId × ReplicaProgress)) (now : Nat) :
    (e.applyChangedVoters voters joined now).Armed ↔
      ¬(e.core.DropsLeaderless voters ∧ e.fetchAt = none) := by
  rw [armed_iff] at h
  have hadopt := adoptReplicaProgress_foldl (m := (e.core.applyVoterSet voters now).1) joined
  rw [armed_iff, Covered, Engine.applyChangedVoters, Engine.applyVoterSet, execute_core]
  revert hadopt
  generalize joined.foldl _ _ = core'
  rintro ⟨hstate, hme, -, hrole⟩
  have hneeded : core'.neededTimer = (e.core.applyVoterSet voters now).1.neededTimer :=
    neededTimer_of_sameRole (by rw [hstate]) hme hrole
  rw [hneeded]
  constructor
  · rintro ⟨hcovered, -⟩ ⟨hdrops, hnone⟩
    obtain ⟨hfetch, hactions⟩ := applyVoterSet_of_dropsLeaderless now hdrops
    have harmed := hcovered _ hfetch
    rw [hactions] at harmed
    rw [hnone] at harmed
    cases harmed
  · intro hkeeps
    refine ⟨fun k hk => execute_deadline ?_, fun hawaits => ?_⟩
    · rcases applyVoterSet_neededTimer hk with hasks | hsame | ⟨rfl, hdrops⟩
      · exact .inr hasks
      · exact .inl (h.1 k hsame)
      · exact .inl (Option.isSome_iff_ne_none.mpr fun hnone => hkeeps ⟨hdrops, hnone⟩)
    · rw [isVoter, hstate, hme]
      exact applyVoterSet_wellPlaced h.2 (awaitsElection_of_sameRole hrole hawaits)

theorem not_armed_answerEndQuorumEpoch {leaderId epoch : Nat} {rank : SuccessorRank}
    {log : LogView} (hepoch : e.core.state.leaderEpoch ≤ epoch) (hvoter : e.core.isVoter = false) :
    ¬(e.answerEndQuorumEpoch leaderId epoch rank log now).Armed := by
  have hevent : e.core.onEvent (.receiveEndQuorumEpoch leaderId epoch rank) log now =
      e.core.transitionToUnattached e.core.state.leaderEpoch now := by
    show e.core.handleEndQuorumEpoch log epoch rank now = _
    rw [handleEndQuorumEpoch, if_neg (not_lt.mpr hepoch), if_pos (by simp [hvoter])]
  rw [answerEndQuorumEpoch, if_neg (by simpa [fencesEpoch] using hepoch), Engine.onEvent, hevent,
    armed_iff, carryOut_core]
  rintro ⟨-, hplaced⟩
  have : e.core.isVoter = true := hplaced rfl
  rw [hvoter] at this
  cases this

/-! ## Runs -/

/-- One input keeps the engine armed exactly when it does not strand it. -/
theorem Armed.handle_iff (h : e.Armed) (hvoters : e.core.state.voters.isEmpty = false)
    (input : Input) (log : LogView) (now : Nat) :
    (e.handle input log now).Armed ↔ ¬e.Strands input := by
  cases input with
  | tick tick => exact iff_of_true (h.tick hvoters tick log now) id
  | vote | fetch | fetchSnapshot => exact iff_of_true (h.onEvent id (fun h => h.1)) id
  | misaddressedVote candidate epoch =>
    exact iff_of_true
      (h.run (.advanceEpochForVote candidate epoch now) (fun _ _ => nofun) id (fun h => h.1)) id
  | beginQuorumEpoch leaderId epoch =>
    refine iff_of_true ?_ id
    show (e.answerBeginQuorumEpoch leaderId epoch log now).Armed
    unfold answerBeginQuorumEpoch
    split_ifs
    · exact h
    · exact h.onEvent id (fun h => h.1)
  | endQuorumEpoch leaderId epoch rank =>
    by_cases hstrands : e.core.state.leaderEpoch ≤ epoch ∧ e.core.isVoter = false
    · exact iff_of_false (not_armed_answerEndQuorumEpoch hstrands.1 hstrands.2)
        (not_not.mpr hstrands)
    · refine iff_of_true ?_ hstrands
      show (e.answerEndQuorumEpoch leaderId epoch rank log now).Armed
      unfold answerEndQuorumEpoch
      split_ifs
      · exact h
      · exact h.onEvent id hstrands
  | voteResponse fromId answer => exact iff_of_true (h.onVoteResponse fromId answer log now) id
  | fetchResponse answer => exact iff_of_true (h.onFetchResponse answer log now) id
  | voters voters joined => exact h.applyChangedVoters_iff voters joined now
  | snapshot voters version joined =>
    exact Armed.applyChangedVoters_iff (e := { e with core := e.core.setKraftVersion version }) h
      voters joined now
  | commit version => exact iff_of_true h id
  | removalCommitted =>
    exact iff_of_true
      (h.run (.finishLocalLeaderRemoval now) (fun _ _ => nofun) id (fun h => h.1)) id

theorem carryOut_voters (op : Op) (hop : ∀ voters now, op ≠ .applyVoterSet voters now) :
    (e.carryOut (e.core.run op)).core.state.voters = e.core.state.voters := by
  rw [carryOut_core]
  exact (run_moves e.core op).kept.voters hop

theorem onEvent_voters (event : Event) (log : LogView) (now : Nat) :
    (e.onEvent event log now).core.state.voters = e.core.state.voters :=
  carryOut_voters (.event event log now) (fun _ _ => nofun)

theorem onTimer_voters (tick : TimerTick) (log : LogView) (now : Nat) :
    (e.onTimer tick log now).core.state.voters = e.core.state.voters := by
  unfold onTimer
  cases tick <;> dsimp only
  · split_ifs
    · exact onEvent_voters ..
    · rfl
  · split_ifs
    · exact onEvent_voters ..
    all_goals split
    all_goals first | exact onEvent_voters .. | rw [sendDiscoveryFetch_core] | rfl
  · split_ifs
    · exact onEvent_voters ..
    · rfl

theorem handle_voters (hvoters : e.core.state.voters.isEmpty = false) {input : Input}
    (hdecoded : input.Decoded) (log : LogView) (now : Nat) :
    (e.handle input log now).core.state.voters.isEmpty = false := by
  unfold handle
  cases input <;> dsimp only
  case tick => rwa [onTimer_voters, clearSlot_core]
  case vote | fetch | fetchSnapshot => rwa [onEvent_voters]
  case misaddressedVote candidate epoch =>
    exact (carryOut_voters (.advanceEpochForVote candidate epoch now) (fun _ _ => nofun)).symm ▸
      hvoters
  case beginQuorumEpoch =>
    unfold answerBeginQuorumEpoch
    split_ifs
    · exact hvoters
    · rwa [onEvent_voters]
  case endQuorumEpoch =>
    unfold answerEndQuorumEpoch
    split_ifs
    · exact hvoters
    · rwa [onEvent_voters]
  case voteResponse =>
    unfold Engine.onVoteResponse
    split
    · exact hvoters
    all_goals rwa [onEvent_voters]
  case fetchResponse =>
    unfold Engine.onFetchResponse
    split_ifs
    · split
      · rwa [onEvent_voters]
      · rwa [sendDiscoveryFetch_core, onEvent_voters]
    · split
      · exact hvoters
      · split
        · rwa [onEvent_voters]
        · exact hvoters
      all_goals rwa [onEvent_voters]
  case voters => rw [(applyChangedVoters_core _ _ _).1]; exact hdecoded
  case snapshot =>
    rw [installControlState, (applyChangedVoters_core _ _ _).1]
    exact hdecoded
  case commit => exact hvoters
  case removalCommitted =>
    exact (carryOut_voters (.finishLocalLeaderRemoval now) (fun _ _ => nofun)).symm ▸ hvoters

theorem isEmpty_of_contains {voters : VoterSet} {id : NodeId} (h : voters.contains id = true) :
    voters.isEmpty = false := by
  have hid := (VoterSet.mem_ids voters id).mpr h
  unfold VoterSet.ids SortedMap.keys at hid
  unfold VoterSet.isEmpty
  cases hentries : voters.map.entries with
  | nil => rw [hentries] at hid; cases hid
  | cons entry entries => rfl

/-- A voter waits for its first election, any other replica has sent its first
discovery Fetch. -/
theorem armed_start {core : QuorumStateMachine} (hleader : core.state.leaderId = none)
    (hvoters : core.state.voters.isEmpty = false)
    (hrole : core.role = if core.isVoter then .unattached 0 else .observer none 0)
    (limit : Nat) (peers : List NodeId) (now : Nat) : (start core limit peers now).Armed := by
  unfold start
  cases hvoter : core.isVoter with
  | true =>
    rw [hvoter] at hrole
    refine Armed.sendDiscoveryFetch ?_
    unfold Armed
    rw [hrole]
    refine ⟨hvoter, ?_⟩
    rw [initialElectionAt, if_pos (by simp [hvoter, hleader])]
    split_ifs <;> rfl
  | false =>
    rw [hvoter] at hrole
    unfold Armed
    rw [sendDiscoveryFetch_core, hrole, Engine.sendDiscoveryFetch]
    rw [if_pos (discoveryPeer_isSome (by exact hvoter) (by exact hvoters)
      (by simp [fetchingFrom, hrole]))]
    rfl

theorem Starts.armed (h : e.Starts) : e.Armed ∧ e.core.state.voters.isEmpty = false := by
  obtain ⟨me, state, electionTimeoutMs, fetchTimeoutMs, limit, peers, now, hleader,
    ⟨other, -, hother⟩, rfl⟩ := h
  have hvoters := isEmpty_of_contains hother
  refine ⟨armed_start hleader hvoters ?_ limit peers now, ?_⟩
  · simp only [new, isVoter]
    by_cases hvoter : state.voters.contains me = true <;> simp [hvoter]
  · rw [start, sendDiscoveryFetch_core]
    exact hvoters

/-- An armed engine has a timer that `on_timer` acts on, except as a leader that
runs no check quorum. -/
theorem Armed.exists_actsOn (h : e.Armed) (hvoters : e.core.state.voters.isEmpty = false)
    (hcheck : e.core.role.isLeader = true → e.core.runsCheckQuorum = true) :
    ∃ k, (e.deadline k).isSome = true ∧ e.actsOn k = true := by
  unfold Armed at h
  cases hrole : e.core.role <;> rw [hrole] at h hcheck
  case unattached | voted | prospective | candidate | resigned =>
    exact ⟨.election, h.2, by simp [actsOn, electionTimerStartsElection, hrole, h.1, Role.isLeader]⟩
  case follower => exact ⟨.fetch, h, by simp [actsOn, fetchingFrom, hrole]⟩
  case leader =>
    exact ⟨.checkQuorum, h (hcheck rfl), by simp [actsOn, hrole, hcheck rfl, Role.isLeader]⟩
  case observer leaderId d =>
    refine ⟨.fetch, h, ?_⟩
    cases leaderId with
    | some l => simp [actsOn, fetchingFrom, hrole]
    | none =>
      cases hvoter : e.core.isVoter with
      | true => simp [actsOn, hvoter]
      | false =>
        have := discoveryPeer_isSome hvoter hvoters (by simp [fetchingFrom, hrole])
        simp [actsOn, this]

/-- **No replica is left without a way forward.**  In every state of a run that
no input strands, the timer of the role is armed and `on_timer` acts on it; and
there an input keeps the engine armed exactly when it does not strand it. -/
theorem armed_until_stranded {e : Engine}
    (h : (system.restrict fun e label _ => ¬e.Strands label.1).Reachable e) :
    e.Armed ∧
      ((e.core.role.isLeader = true → e.core.runsCheckQuorum = true) →
        ∃ k, (e.deadline k).isSome = true ∧ e.actsOn k = true) ∧
      ∀ input log now, (e.handle input log now).Armed ↔ ¬e.Strands input := by
  have hinv : e.Armed ∧ e.core.state.voters.isEmpty = false := by
    refine h.invariant (P := fun e => e.Armed ∧ e.core.state.voters.isEmpty = false)
      (fun e hstart => Starts.armed hstart) ?_
    rintro e ⟨input, log, now⟩ e' ⟨harmed, hvoters⟩ ⟨⟨hdecoded, rfl⟩, hkeeps⟩
    exact ⟨(harmed.handle_iff hvoters input log now).mpr hkeeps,
      handle_voters hvoters hdecoded log now⟩
  obtain ⟨harmed, hvoters⟩ := hinv
  exact ⟨harmed, harmed.exists_actsOn hvoters,
    fun input log now => harmed.handle_iff hvoters input log now⟩

/-- The replica `me` as it starts with the voters 1, 2 and 3. -/
def fresh (me : NodeId) : Engine :=
  start (.new me (.bootstrap 7 (.ofIds [1, 2, 3])) 1000 2000) 5 [] 0

theorem starts_fresh {me : NodeId}
    (hother : ∃ id, id ≠ me ∧ (VoterSet.ofIds [1, 2, 3]).contains id) :
    (fresh me).Starts :=
  ⟨me, _, 1000, 2000, 5, [], 0, rfl, hother, rfl⟩

theorem reachable_handle (h : system.Reachable e) {input : Input} (hdecoded : input.Decoded)
    (log : LogView) (now : Nat) : system.Reachable (e.handle input log now) :=
  .step (a := (input, log, now)) h ⟨hdecoded, rfl⟩

/-- The election timer of a voter fires, and the next one is armed. -/
theorem armed_until_stranded_election_tick :
    let e := (fresh 1).handle (.tick .election) (.ofEpochs []) 1500
    (∃ granted rejected deadline abandoned,
      e.core.role = .prospective granted rejected deadline abandoned) ∧ e.Armed := by
  let label : Input × LogView × Nat := (.tick .election, .ofEpochs [], 1500)
  refine ⟨⟨_, _, _, _, rfl⟩, (armed_until_stranded ?_).1⟩
  exact .step (a := label) (.init (starts_fresh ⟨2, by decide, by decide⟩)) ⟨⟨trivial, rfl⟩, id⟩

/-- Replica 4 observes and receives an `EndQuorumEpoch`; replica 3 has begun a
pre-vote round and reads a voter set without itself. -/
theorem stranded_somewhere :
    (∃ e, system.Reachable e ∧ e.core.isVoter = false ∧ e.core.role.awaitsElection = true ∧
      ¬e.Armed) ∧
    ∃ e, system.Reachable e ∧ (∃ deadline, e.core.role = .observer none deadline) ∧
      e.fetchAt = none ∧ ¬e.Armed := by
  constructor
  · have hobserver : system.Reachable (fresh 4) := .init (starts_fresh ⟨1, by decide, by decide⟩)
    let input : Input := .endQuorumEpoch 1 0 ⟨0, 1⟩
    refine ⟨_, reachable_handle hobserver (show input.Decoded from trivial) (.ofEpochs []) 100,
      rfl, rfl, ?_⟩
    exact not_armed_answerEndQuorumEpoch le_rfl rfl
  · have hvoter : system.Reachable (fresh 3) := .init (starts_fresh ⟨1, by decide, by decide⟩)
    let tick : Input := .tick .election
    let voters : Input := .voters (.ofIds [1, 2]) []
    have hprospective :=
      reachable_handle hvoter (show tick.Decoded from trivial) (.ofEpochs []) 1500
    refine ⟨_, reachable_handle hprospective (show voters.Decoded from rfl) (.ofEpochs []) 1600,
      ⟨_, rfl⟩, rfl, ?_⟩
    exact Bool.false_ne_true

end Engine

end Krabka.Raft

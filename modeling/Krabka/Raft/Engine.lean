import Krabka.KraftCore.Replication

/-!
# The engine around the quorum state machine

`Engine` of `crates/raft/src/kraft/controller.rs`, as far as its timers go: the
deadlines of the election, the fetch and the check-quorum timer, with the counts
that decide what a fetch tick does.  The core asks for a timer with a
`ResetTimer` action, `reconcileTimers` takes away the timers that the new role
has no use for, and `onTimer` gives a tick its meaning.

Requests are taken by the handlers of `inbound.rs` and `quorum_requests.rs`,
answers by those of `vote_response.rs` and `replication.rs`.  What an action does
to the log, the disk or a peer is left out: a voter set that becomes effective
when a batch is appended, truncated or installed, and a commit, are steps of
their own.
-/

namespace Krabka.Raft

open KraftCore KraftCore.QuorumStateMachine

/-- The engine.  A deadline is in milliseconds after `clock_base`. -/
structure Engine where
  core : QuorumStateMachine
  electionAt : Option Nat
  fetchAt : Option Nat
  checkQuorumAt : Option Nat
  fetchMisses : Nat
  discoveryAttempts : Nat
  controllerFetchMissLimit : Nat
  /-- `discovery_peers` of the transport, the bootstrap servers. -/
  discoveryPeers : List NodeId

inductive TimerTick where
  | election
  | fetch
  | checkQuorum
  | heartbeat
  deriving DecidableEq

def initialElectionAt (core : QuorumStateMachine) : Option Nat :=
  if core.isVoter && core.state.leaderId.isNone then
    if core.state.voters.len = 1 then some 0
    else
      some (min u64Max (core.electionTimeoutMs +
        electionJitterMs core.me core.state.leaderEpoch core.electionTimeoutMs))
  else none

def electionTimerStartsElection (isVoter isLeader : Bool) : Bool := isVoter && !isLeader

def unknownLeaderEpoch : Int := 75

/-- What a Vote answer says: `VoteAnswer`. -/
structure VoteAnswer where
  errorCode : Int
  granted : Bool
  leaderId : Option NodeId
  epoch : Nat

inductive VoteResponseStep where
  | ignore
  | follow (leaderId : NodeId) (epoch : Nat)
  | unattached (epoch : Nat)
  | count (epoch : Nat) (granted : Bool)

/-- `vote_response_step`, with the asker's id, epoch and known leader. -/
def voteResponseStep (me : NodeId) (epoch : Nat) (knownLeader : Option NodeId)
    (answer : VoteAnswer) : VoteResponseStep :=
  let follow (leaderId : Option NodeId) : VoteResponseStep :=
    match leaderId with
    | some leaderId => if leaderId ≠ me then .follow leaderId answer.epoch else .ignore
    | none => .ignore
  if answer.epoch < epoch || answer.errorCode = unknownLeaderEpoch then .ignore
  else if epoch < answer.epoch then
    if answer.leaderId.isSome then follow answer.leaderId else .unattached answer.epoch
  else if answer.leaderId.isSome && knownLeader.isNone then follow answer.leaderId
  else if answer.errorCode = 0 then .count answer.epoch answer.granted
  else .ignore

namespace Engine

/-! ## The fetch timer -/

variable (e : Engine)

def armFetchTimer (now : Nat) : Engine :=
  { e with fetchAt := some (now + e.core.fetchTimeoutMs) }

/-- The peer for the next discovery Fetch of a leaderless observer. -/
def discoveryPeer : Option NodeId :=
  if e.core.isVoter || e.core.fetchingFrom.isSome then none
  else
    let peers := if e.core.otherVoters.isEmpty then e.discoveryPeers else e.core.otherVoters
    peers[e.discoveryAttempts % max peers.length 1]?

def sendDiscoveryFetch (now : Nat) : Engine :=
  if e.discoveryPeer.isSome then
    { e with discoveryAttempts := (e.discoveryAttempts + 1) % 2 ^ 64 }.armFetchTimer now
  else e

/-! ## Actions -/

/-- `execute` and `execute_one_local`. -/
def executeOne : Action → Engine
  | .resetTimer .election deadline => { e with electionAt := some deadline }
  | .resetTimer .fetch deadline => { e with fetchAt := some deadline }
  | .resetTimer .checkQuorum deadline => { e with checkQuorumAt := some deadline }
  | .sendFetch _ => { e with fetchMisses := 0 }
  | _ => e

def execute (actions : List Action) : Engine := actions.foldl executeOne e

def reconcileTimers : Engine :=
  match e.core.role with
  | .leader _ => { e with electionAt := none, fetchAt := none, fetchMisses := 0 }
  | .follower .. | .observer .. => { e with electionAt := none, checkQuorumAt := none }
  | .prospective .. | .candidate .. | .unattached _ | .voted _ | .resigned =>
    { e with fetchAt := none, fetchMisses := 0, checkQuorumAt := none }

/-- Execute what the core has returned, and reconcile the timers. -/
def carryOut (result : QuorumStateMachine × List Action) : Engine :=
  ({ e with core := result.1 }.execute result.2).reconcileTimers

def onEvent (event : Event) (log : LogView) (now : Nat) : Engine :=
  e.carryOut (e.core.onEvent event log now)

/-! ## Ticks -/

def onTimer (tick : TimerTick) (log : LogView) (now : Nat) : Engine :=
  match tick with
  | .election =>
    if electionTimerStartsElection e.core.isVoter e.core.role.isLeader then
      e.onEvent .electionTimeout log now
    else e
  | .fetch =>
    if e.core.isVoter then { e with fetchMisses := 0 }.onEvent .fetchTimeout log now
    else
      match e.core.fetchingFrom with
      | some _ =>
        let e := { e with fetchMisses := e.fetchMisses + 1 }
        if e.controllerFetchMissLimit ≤ e.fetchMisses then
          { e with fetchMisses := 0 }.onEvent .fetchTimeout log now
        else e.armFetchTimer now
      | none => e.sendDiscoveryFetch now
  | .checkQuorum => if e.core.role.isLeader then e.onEvent .checkQuorumTimeout log now else e
  | .heartbeat => e

/-- The slot of a tick is empty when `on_timer` runs. -/
def clearSlot : TimerTick → Engine
  | .election => { e with electionAt := none }
  | .fetch => { e with fetchAt := none }
  | .checkQuorum => { e with checkQuorumAt := none }
  | .heartbeat => e

/-! ## Requests -/

/-- The epoch check of `voter_only_request_error`. -/
def fencesEpoch (epoch : Nat) : Bool := epoch < e.core.state.leaderEpoch

def answerBeginQuorumEpoch (leaderId : NodeId) (epoch : Nat) (log : LogView) (now : Nat) : Engine :=
  if e.fencesEpoch epoch then e else e.onEvent (.receiveBeginQuorumEpoch leaderId epoch) log now

def answerEndQuorumEpoch (leaderId : NodeId) (epoch : Nat) (rank : SuccessorRank)
    (log : LogView) (now : Nat) : Engine :=
  if e.fencesEpoch epoch then e else e.onEvent (.receiveEndQuorumEpoch leaderId epoch rank) log now

def advanceEpochForVote (candidate : ReplicaKey) (epoch now : Nat) : Engine :=
  e.carryOut (e.core.advanceEpochForVote candidate epoch now)

/-! ## Answers -/

def onVoteResponse (fromId : NodeId) (answer : VoteAnswer) (log : LogView) (now : Nat) : Engine :=
  match voteResponseStep e.core.me e.core.state.leaderEpoch e.core.knownLeader answer with
  | .ignore => e
  | .follow leaderId epoch => e.onEvent (.receiveBeginQuorumEpoch leaderId epoch) log now
  | .unattached epoch => e.onEvent (.receiveLeaderlessEpoch epoch) log now
  | .count epoch granted => e.onEvent (.receiveVoteResponse fromId epoch granted) log now

def onFetchResponse (answer : FetchAnswer) (log : LogView) (now : Nat) : Engine :=
  if e.core.state.leaderEpoch < answer.leaderEpoch then
    match answer.leaderId with
    | some leaderId => e.onEvent (.receiveBeginQuorumEpoch leaderId answer.leaderEpoch) log now
    | none =>
      (e.onEvent (.receiveLeaderlessEpoch answer.leaderEpoch) log now).sendDiscoveryFetch now
  else
    match e.core.fetchResponseMutation answer with
    | .reject => e
    | .discover =>
      match answer.leaderId with
      | some leaderId => e.onEvent (.receiveBeginQuorumEpoch leaderId answer.leaderEpoch) log now
      | none => e
    | .truncate | .append | .highWatermark =>
      e.onEvent (.receiveFetchResponse answer.request.toId answer.leaderEpoch answer.diverging)
        log now

/-! ## Membership -/

variable (voters : VoterSet)

variable (joined : List (NodeId × ReplicaProgress))

/-- `apply_voter_set`: a leader keeps the progress of the observers that become
voters. -/
def applyVoterSet (now : Nat) : QuorumStateMachine × List Action :=
  let result := e.core.applyVoterSet voters now
  (joined.foldl (fun core entry => core.adoptReplicaProgress entry.1 entry.2) result.1, result.2)

/-- `apply_changed_voters`, which does not reconcile the timers. -/
def applyChangedVoters (now : Nat) : Engine :=
  let result := e.applyVoterSet voters joined now
  { e with core := result.1 }.execute result.2

/-- The control state of a snapshot that `install_fetched_snapshot` installs. -/
def installControlState (version : Nat)
    (joined : List (NodeId × ReplicaProgress)) (now : Nat) : Engine :=
  { e with core := e.core.setKraftVersion version }.applyChangedVoters voters joined now

def commitControlState (version : Nat) : Engine :=
  { e with core := e.core.commitVoterSet.setKraftVersion version }

/-- The end of `try_resolve_reconfiguration` for a leader that removed itself. -/
def finishLocalLeaderRemoval (now : Nat) : Engine :=
  e.carryOut (e.core.finishLocalLeaderRemoval now)

/-! ## Actions and timers leave the core alone -/

variable {e : Engine}

@[simp]
theorem executeOne_core (a : Action) : (e.executeOne a).core = e.core := by
  unfold executeOne
  split <;> rfl

@[simp]
theorem execute_core (as : List Action) : (e.execute as).core = e.core := by
  unfold execute
  induction as generalizing e with
  | nil => rfl
  | cons a as ih => rw [List.foldl_cons, ih, executeOne_core]

@[simp]
theorem reconcileTimers_core : e.reconcileTimers.core = e.core := by
  unfold reconcileTimers
  split <;> rfl

@[simp]
theorem carryOut_core (result : QuorumStateMachine × List Action) :
    (e.carryOut result).core = result.1 := by
  simp [carryOut]

theorem applyChangedVoters_core (now : Nat) :
    (e.applyChangedVoters voters joined now).core.state.voters = voters ∧
      (e.applyChangedVoters voters joined now).core.adjacentVoters =
        if e.core.state.voters ≠ voters then some e.core.state.voters
        else e.core.adjacentVoters := by
  obtain ⟨hstate, -, hadjacent, -⟩ :=
    adoptReplicaProgress_foldl (m := (e.core.applyVoterSet voters now).1) joined
  rw [Engine.applyChangedVoters, Engine.applyVoterSet, execute_core]
  rw [hstate, hadjacent, applyVoterSet_frame.1]
  refine ⟨rfl, ?_⟩
  rcases applyVoterSet_cases (m := e.core) voters now with ⟨f, f', -, h⟩ | ⟨-, h⟩ <;> rw [h]
  · rfl
  · rw [(changeMembership_frame (m := e.core.withVoters voters) e.core.isVoter now).2.2.1]
    rfl

end Engine

end Krabka.Raft

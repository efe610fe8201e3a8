import Krabka.KraftCore.Votes

/-!
# A cluster of quorum state machines

Each replica drives its own machine: an event is handled, and its actions are
executed one after the other.  `PersistQuorumState` writes the machine's state
to the replica's disk, and the sending actions put messages on the network as
`crates/raft/src/kraft/controller/peer_rpc.rs` builds them.  The network keeps
every message ever sent, and any of them can be delivered at any time, so a run
may delay, lose, duplicate and reorder messages.

A replica can crash between any two of its actions.  It restarts from its disk
the way `load_quorum_state` reads the file: without a leader, and with the
voted directory only from `kraft.version` 1 on.

The log is not part of this cluster.  Every event takes a view of the log as an
argument, and nothing is assumed about it.
-/

namespace Krabka.KraftCore

/-- The state that `load_quorum_state` makes of a file written by
`save_quorum_state`. -/
def QuorumState.reload (s : QuorumState) : QuorumState :=
  { s with
    leaderId := none
    votedKey := s.votedKey.map fun key => if s.kraftVersion = 0 then ⟨key.id, Uuid.nil⟩ else key }

inductive Message where
  | vote (request : VoteRequest)
  | voteResponse (fromId toId : NodeId) (epoch : Nat) (granted : Bool)
  | beginQuorumEpoch (leaderId toId : NodeId) (epoch : Nat)
  | endQuorumEpoch (leaderId toId : NodeId) (epoch : Nat) (preferred : List NodeId)
  deriving DecidableEq

namespace QuorumStateMachine

def otherVoters (m : QuorumStateMachine) : List NodeId :=
  m.state.voters.ids.filter (fun id => id ≠ m.me)

/-- `broadcast_vote`: one request for each other voter, with its directory. -/
def broadcastVote (m : QuorumStateMachine) (log : LogView) (epoch : Nat) (preVote : Bool) :
    List Message :=
  match m.state.voters.get m.me with
  | none => []
  | some candidate =>
    m.otherVoters.filterMap fun peer =>
      (m.state.voters.get peer).map fun voter =>
        .vote
          { fromId := m.me
            clusterId := some m.state.clusterId
            voterId := peer
            voterDirectoryId := voter.directoryId
            candidateEpoch := epoch
            candidate := m.me
            candidateDirectoryId := candidate.directoryId
            candidateLogEnd := ⟨log.lastEpoch, log.endOffset⟩
            preVote := preVote }

def messagesOf (m : QuorumStateMachine) (log : LogView) : Action → List Message
  | .sendVoteRequest epoch preVote => m.broadcastVote log epoch preVote
  | .replyVote toId epoch granted => [.voteResponse m.me toId epoch granted]
  | .sendBeginQuorumEpoch epoch => m.otherVoters.map (.beginQuorumEpoch m.me · epoch)
  | .sendEndQuorumEpoch epoch preferred =>
    m.otherVoters.map (.endQuorumEpoch m.me · epoch preferred)
  | _ => []

/-- `Engine::successor_rank`, the place of a replica in the preferred
candidates. -/
def successorRank (me : NodeId) (preferred : List NodeId) : SuccessorRank :=
  ⟨preferred.idxOf me, preferred.length⟩

end QuorumStateMachine

open QuorumStateMachine

/-- The message is the `EndQuorumEpoch` that the replica `id` turns into an
event with this leader, epoch and rank. -/
def Message.EndsEpoch (id leaderId : NodeId) (epoch : Nat) (rank : SuccessorRank) : Message → Prop
  | .endQuorumEpoch l t e preferred =>
    l = leaderId ∧ t = id ∧ e = epoch ∧ rank = successorRank id preferred
  | _ => False

instance (id leaderId : NodeId) (epoch : Nat) (rank : SuccessorRank) :
    DecidablePred (Message.EndsEpoch id leaderId epoch rank) := fun msg => by
  unfold Message.EndsEpoch
  split <;> infer_instance

/-- The message announces the leader of an epoch. -/
def Message.Announces (leaderId : NodeId) (epoch : Nat) : Message → Prop
  | .beginQuorumEpoch l _ e => l = leaderId ∧ e = epoch
  | _ => False

instance (leaderId : NodeId) (epoch : Nat) : DecidablePred (Message.Announces leaderId epoch) :=
  fun msg => by
    unfold Message.Announces
    split <;> infer_instance

/-- A machine and the quorum state last written to its disk. -/
structure Replica where
  machine : QuorumStateMachine
  disk : QuorumState

def Replica.restart (r : Replica) : QuorumStateMachine :=
  .new r.machine.me r.disk.reload r.machine.electionTimeoutMs r.machine.fetchTimeoutMs

/-- The disk after `done`, the actions executed of an event that led to `m`. -/
def QuorumState.writtenBy (disk : QuorumState) (m : QuorumStateMachine)
    (done : List Action) : QuorumState :=
  if .persistQuorumState ∈ done then m.state else disk

/-- One event at a replica whose first actions `done` are executed. -/
def Replica.handled (r : Replica) (m : QuorumStateMachine) (done : List Action)
    (crashed : Bool) : Replica :=
  let r' : Replica := ⟨m, r.disk.writtenBy m done⟩
  if crashed then ⟨r'.restart, r'.disk⟩ else r'

structure Cluster where
  replicas : NodeId → Replica
  network : List Message

namespace Cluster

inductive Label where
  /-- `id` handles `event`.  With `crashAfter = some k` it crashes after `k` of
  the actions and restarts. -/
  | event (id : NodeId) (event : Event) (log : LogView) (now : Nat) (crashAfter : Option Nat)
  /-- `id` crashes between two events and restarts. -/
  | crash (id : NodeId)

/-- The event can happen at `id`: a message was sent to it, a timer can fire at
any time, and fetches and their answers are not restricted here.  A replica
hears of a leader that has announced itself to any replica, because the answers
to a Vote or a Fetch name the leader too. -/
def Deliverable (c : Cluster) (id : NodeId) : Event → Prop
  | .receiveVoteRequest r => r.voterId = id ∧ .vote r ∈ c.network
  | .receiveVoteResponse fromId epoch granted =>
    .voteResponse fromId id epoch granted ∈ c.network
  | .receiveBeginQuorumEpoch leaderId epoch => ∃ msg ∈ c.network, msg.Announces leaderId epoch
  | .receiveEndQuorumEpoch leaderId epoch rank =>
    ∃ msg ∈ c.network, msg.EndsEpoch id leaderId epoch rank
  | .electionTimeout | .fetchTimeout | .checkQuorumTimeout => True
  | .receiveFetch .. | .receiveFetchSnapshot _ | .receiveFetchResponse ..
  | .receiveLeaderlessEpoch _ => True

def Label.replica : Label → NodeId
  | .event id .. => id
  | .crash id => id

def Enabled (c : Cluster) : Label → Prop
  | .event id event _ _ _ => c.Deliverable id event
  | .crash _ => True

instance (c : Cluster) (id : NodeId) : DecidablePred (c.Deliverable id) := fun event => by
  unfold Deliverable
  split <;> infer_instance

instance (c : Cluster) : DecidablePred c.Enabled := fun a => by
  unfold Enabled
  split <;> infer_instance

def apply (c : Cluster) : Label → Cluster
  | .event id event log now crashAfter =>
    let result := (c.replicas id).machine.onEvent event log now
    let done := match crashAfter with
      | none => result.2
      | some k => result.2.take k
    { replicas := Function.update c.replicas id
        ((c.replicas id).handled result.1 done crashAfter.isSome)
      network := c.network ++ done.flatMap (messagesOf result.1 log) }
  | .crash id =>
    { c with
      replicas := Function.update c.replicas id
        ⟨(c.replicas id).restart, (c.replicas id).disk⟩ }

/-- Every replica starts from the same fixed voter set, in epoch 0. -/
def Starts (voters : VoterSet) (c : Cluster) : Prop :=
  c.network = [] ∧ ∃ clusterId version, ∀ id, ∃ electionMs fetchMs,
    c.replicas id =
      let state := { QuorumState.bootstrap clusterId voters with kraftVersion := version }
      ⟨.new id state electionMs fetchMs, state⟩

/-- The step can happen, and the replica that takes it stays below the epoch
`u32::MAX`. -/
def Permitted (c : Cluster) (a : Label) (c' : Cluster) : Prop :=
  c.Enabled a ∧ (c'.replicas a.replica).machine.state.leaderEpoch < u32Max

instance (c : Cluster) (a : Label) (c' : Cluster) : Decidable (c.Permitted a c') :=
  inferInstanceAs (Decidable (_ ∧ _))

/-- The runs of a cluster over a fixed voter set, while epochs stay below
`u32::MAX`. -/
def system (voters : VoterSet) : TransitionSystem Cluster Label :=
  (TransitionSystem.ofFun (Starts voters) apply).restrict Permitted

def Leads (c : Cluster) (id : NodeId) (epoch : Nat) : Prop :=
  (c.replicas id).machine.role.isLeader = true ∧
    (c.replicas id).machine.state.leaderEpoch = epoch

instance (c : Cluster) (id : NodeId) (epoch : Nat) : Decidable (c.Leads id epoch) :=
  inferInstanceAs (Decidable (_ ∧ _))

end Cluster

end Krabka.KraftCore

import Krabka.KraftCore.Cluster

/-!
# Pull replication of the metadata log

The logs of the replicas over the cluster of `Cluster.lean`.  A follower sends
Fetch requests from its log end with the epoch of its last record, the leader
checks the position against its own log and answers with batches or with the
point of divergence, and the follower truncates or appends.  The functions are
those of `crates/raft/src/kraft/controller`: `inbound.rs` for the leader,
`replication.rs` for the follower and `peer_rpc.rs` for the requests.

A log is the list of its records, and an offset is a position in it: the log
starts at 0 and no snapshot is involved.  Where the batches of a log begin is
not kept; an answer may carry any pieces of the leader's log as its batches.
What is appended to a log stays through a crash.

A Fetch runs over its own connection, so an answer knows the request it
answers.  The engine does not use that; here the request is kept to say which
answers are late.
-/

namespace Krabka.KraftCore

inductive Content where
  | leaderChange (leaderId : NodeId)
  | data (bytes : List UInt8)
  deriving DecidableEq

structure Record where
  epoch : Nat
  content : Content
  deriving DecidableEq

def logView (log : List Record) : LogView := .ofEpochs (log.map Record.epoch)

/-- The Fetch request of `send_fetch`. -/
structure Fetch where
  fromId : NodeId
  toId : NodeId
  replicaDirectoryId : Uuid
  currentLeaderEpoch : Nat
  fetchEpoch : Nat
  fetchOffset : Nat
  deriving DecidableEq

structure Batch where
  baseOffset : Nat
  records : List Record
  deriving DecidableEq

inductive FetchError where
  | invalidRequest
  | fencedLeaderEpoch
  | unknownLeaderEpoch
  | notLeaderOrFollower
  deriving DecidableEq

/-- `wire::FetchAnswer`, with the request it answers. -/
structure FetchAnswer where
  request : Fetch
  error : Option FetchError
  leaderId : Option NodeId
  leaderEpoch : Nat
  diverging : Option LogOffsetMetadata
  batches : List Batch
  deriving DecidableEq

/-- What `fetch_response_mutation` selects. -/
inductive FetchResponseMutation where
  | reject
  | discover
  | truncate
  | append
  | highWatermark
  deriving DecidableEq

inductive FetchBatchDisposition where
  | alreadyPresent
  | append
  | gap
  deriving DecidableEq

def classifyFetchBatch (base logEnd : Nat) : FetchBatchDisposition :=
  if base < logEnd then .alreadyPresent
  else if base = logEnd then .append
  else .gap

/-- The loop of `on_fetch_response` over the batches of an answer. -/
def appendBatches (log : List Record) : List Batch → List Record
  | [] => log
  | batch :: rest =>
    match classifyFetchBatch batch.baseOffset log.length with
    | .alreadyPresent => appendBatches log rest
    | .append => appendBatches (log ++ batch.records) rest
    | .gap => log

def Batch.IsSliceOf (batch : Batch) (log : List Record) : Prop :=
  batch.records <+: log.drop batch.baseOffset

instance (batch : Batch) (log : List Record) : Decidable (batch.IsSliceOf log) :=
  inferInstanceAs (Decidable (_ <+: _))

namespace QuorumStateMachine

/-! ## The leader answers a Fetch: `inbound.rs` -/

def leaderOnlyRequestError (m : QuorumStateMachine) (requestEpoch : Nat) : Option FetchError :=
  if requestEpoch < m.state.leaderEpoch then some .fencedLeaderEpoch
  else if m.state.leaderEpoch < requestEpoch then some .unknownLeaderEpoch
  else if !m.role.isLeader then some .notLeaderOrFollower
  else none

def namesCurrentVoter (m : QuorumStateMachine) (key : ReplicaKey) : Bool :=
  match m.state.voters.get key.id with
  | none => false
  | some voter => voter.directoryId = Uuid.nil || voter.directoryId = key.directoryId

def emptyFetchAnswer (m : QuorumStateMachine) (fetch : Fetch) (error : FetchError) :
    FetchAnswer where
  request := fetch
  error := some error
  leaderId := m.state.leaderId
  leaderEpoch := m.state.leaderEpoch
  diverging := none
  batches := []

/-- The point of divergence among the actions of a Fetch. -/
def divergingOf (actions : List Action) : Option LogOffsetMetadata :=
  actions.findSome? fun
    | .replyDivergingEpoch point => some point
    | _ => none

/-- `run_replica_fetch`: a voter's Fetch goes through the core, any other one
is only checked against the log. -/
def runReplicaFetch (m : QuorumStateMachine) (log : LogView) (fetch : Fetch) (now : Nat) :
    (QuorumStateMachine × List Action) × Option LogOffsetMetadata :=
  if m.namesCurrentVoter ⟨fetch.fromId, fetch.replicaDirectoryId⟩ then
    let result := m.onEvent (.receiveFetch fetch.fromId fetch.fetchEpoch fetch.fetchOffset) log now
    (result, divergingOf result.2)
  else
    ((m, []),
      if fetchDiverges log fetch.fetchEpoch fetch.fetchOffset then
        some (log.endOffsetForEpoch fetch.fetchEpoch)
      else none)

/-- `on_fetch_request` and `try_complete_fetch`, with the batches that
`serve_fetch_records` reads. -/
def tryCompleteFetch (m : QuorumStateMachine) (log : LogView) (fetch : Fetch)
    (batches : List Batch) (now : Nat) : (QuorumStateMachine × List Action) × FetchAnswer :=
  if fetch.currentLeaderEpoch < fetch.fetchEpoch then
    ((m, []), m.emptyFetchAnswer fetch .invalidRequest)
  else
    match m.leaderOnlyRequestError fetch.currentLeaderEpoch with
    | some error => ((m, []), m.emptyFetchAnswer fetch error)
    | none =>
      let (result, diverging) := m.runReplicaFetch log fetch now
      (result,
        { request := fetch
          error := none
          leaderId := result.1.state.leaderId
          leaderEpoch := result.1.state.leaderEpoch
          diverging := diverging
          batches := if diverging.isNone && result.1.role.isLeader then batches else [] })

/-! ## The follower takes the answer: `replication.rs` -/

/-- `fetch_response_mutation`: the fence against the role, the leader and the
epoch, and then one way to change the log. -/
def fetchResponseMutation (m : QuorumStateMachine) (answer : FetchAnswer) : FetchResponseMutation :=
  let discovering := match m.role with
    | .observer none _ => true
    | _ => false
  let fromId := some answer.request.toId
  if discovering && m.fetchingFrom.isNone && m.state.leaderId.isNone &&
      answer.leaderEpoch = m.state.leaderEpoch && answer.leaderId.isSome then .discover
  else if m.fetchingFrom ≠ fromId || m.state.leaderId ≠ fromId || answer.leaderId ≠ fromId ||
      answer.leaderEpoch ≠ m.state.leaderEpoch || answer.error.isSome then .reject
  else if answer.diverging.isSome then .truncate
  else if !answer.batches.isEmpty then .append
  else .highWatermark

def refetchesAfterRefusal (m : QuorumStateMachine) (answer : FetchAnswer) : Bool :=
  m.fetchingFrom = some answer.request.toId &&
    (answer.leaderEpoch < m.state.leaderEpoch || answer.error = some .unknownLeaderEpoch ||
      (answer.leaderEpoch = m.state.leaderEpoch &&
        (answer.error = some .fencedLeaderEpoch || answer.error = some .notLeaderOrFollower)))

/-! ## Requests and local actions -/

/-- `send_fetch`: a voter names the directory of its voters record, if it has
one, and otherwise its own. -/
def fetchTo (m : QuorumStateMachine) (directoryId : Uuid) (log : List Record) (leaderId : NodeId) :
    List Fetch :=
  if leaderId = m.me then []
  else
    let replicaDirectoryId := match m.state.voters.get m.me with
      | some voter => if voter.directoryId = Uuid.nil then directoryId else voter.directoryId
      | none => directoryId
    [{ fromId := m.me
       toId := leaderId
       replicaDirectoryId := replicaDirectoryId
       currentLeaderEpoch := m.state.leaderEpoch
       fetchEpoch := (logView log).lastEpoch
       fetchOffset := log.length }]

def executeOnLog (m : QuorumStateMachine) (log : List Record) : Action → List Record
  | .appendLeaderChange epoch => log ++ [⟨epoch, .leaderChange m.me⟩]
  | .truncateTo point => log.take point.offset.toNat
  | _ => log

/-- The log and the Fetch requests of actions executed in their order. -/
def execute (m : QuorumStateMachine) (directoryId : Uuid) :
    List Record → List Action → List Record × List Fetch
  | log, [] => (log, [])
  | log, action :: rest =>
    let sent := match action with
      | .sendFetch leaderId => m.fetchTo directoryId log leaderId
      | _ => []
    let after := execute m directoryId (m.executeOnLog log action) rest
    (after.1, sent ++ after.2)

end QuorumStateMachine

open QuorumStateMachine

/-- A cluster with the logs of its replicas and the Fetch messages sent so
far. -/
structure LogCluster where
  cluster : Cluster
  logs : NodeId → List Record
  fetches : List Fetch
  answers : List FetchAnswer
  /-- The directory of each replica. -/
  directories : NodeId → Uuid

namespace LogCluster

variable (c : LogCluster)

variable (id : NodeId)

def machine : QuorumStateMachine := (c.cluster.replicas id).machine

inductive Label where
  /-- An election, fetch or check-quorum timeout, or a quorum message. -/
  | event (id : NodeId) (event : Event) (now : Nat) (crashAfter : Option Nat)
  /-- `id` answers a Fetch, with these batches if it serves any. -/
  | serve (id : NodeId) (fetch : Fetch) (batches : List Batch) (now : Nat)
  /-- `id` takes the answer of a Fetch.  A replica that learns of an epoch
  without a leader asks `peer`. -/
  | receive (id : NodeId) (answer : FetchAnswer) (peer : NodeId) (now : Nat)
      (crashAfter : Option Nat)
  /-- The fetch timer of an observer: it polls its leader, or it looks for
  one. -/
  | poll (id peer : NodeId)
  /-- The leader `id` appends records of its epoch. -/
  | submit (id : NodeId) (contents : List Content)
  | crash (id : NodeId)

def Label.replica : Label → NodeId
  | .event id .. | .serve id .. | .receive id .. | .poll id _ | .submit id _ | .crash id => id

/-- The core of `id` handles an event, and the actions are executed up to a
crash. -/
def handle (event : Event) (now : Nat) (crashAfter : Option Nat) : LogCluster :=
  let log := c.logs id
  let result := (c.machine id).onEvent event (logView log) now
  let done := match crashAfter with
    | none => result.2
    | some k => result.2.take k
  let executed := result.1.execute (c.directories id) log done
  { c with
    cluster := c.cluster.apply (.event id event (logView log) now crashAfter)
    logs := Function.update c.logs id executed.1
    fetches := c.fetches ++ executed.2 }

def setLog (log : List Record) : LogCluster :=
  { c with logs := Function.update c.logs id log }

def sendFetch (id peer : NodeId) : LogCluster :=
  { c with fetches := c.fetches ++ (c.machine id).fetchTo (c.directories id) (c.logs id) peer }

/-- A peer that the discovery of `discovery_peer` can turn to. -/
def Discovers (id peer : NodeId) : Prop :=
  (c.machine id).isVoter = false ∧ (c.machine id).fetchingFrom = none ∧
    peer ∈ (c.machine id).otherVoters

instance (c : LogCluster) (id peer : NodeId) : Decidable (c.Discovers id peer) :=
  inferInstanceAs (Decidable (_ ∧ _))

/-- `send_discovery_fetch`. -/
def discover (id peer : NodeId) : LogCluster :=
  if c.Discovers id peer then c.sendFetch id peer else c

def onFetchResponse (answer : FetchAnswer) (peer : NodeId)
    (now : Nat) (crashAfter : Option Nat) : LogCluster :=
  let m := c.machine id
  let response := Event.receiveFetchResponse answer.request.toId answer.leaderEpoch answer.diverging
  if m.state.leaderEpoch < answer.leaderEpoch then
    match answer.leaderId with
    | some leaderId =>
      c.handle id (.receiveBeginQuorumEpoch leaderId answer.leaderEpoch) now crashAfter
    | none =>
      let c := c.handle id (.receiveLeaderlessEpoch answer.leaderEpoch) now crashAfter
      if crashAfter.isNone then c.discover id peer else c
  else
    match m.fetchResponseMutation answer with
    | .reject => if m.refetchesAfterRefusal answer then c.sendFetch id answer.request.toId else c
    | .discover =>
      match answer.leaderId with
      | some leaderId =>
        c.handle id (.receiveBeginQuorumEpoch leaderId answer.leaderEpoch) now crashAfter
      | none => c
    | .truncate =>
      match answer.diverging with
      | some point =>
        let log := c.logs id
        let end_ := point.followerTruncationOffset (logView log)
        (c.setLog id (log.take end_.toNat)).handle id response now crashAfter
      | none => c
    | .append =>
      (c.setLog id (appendBatches (c.logs id) answer.batches)).handle id response now crashAfter
    | .highWatermark => c.handle id response now crashAfter

def apply : Label → LogCluster
  | .event id event now crashAfter => c.handle id event now crashAfter
  | .serve id fetch batches now =>
    let served := (c.machine id).tryCompleteFetch (logView (c.logs id)) fetch batches now
    { c with
      cluster :=
        { c.cluster with
          replicas := Function.update c.cluster.replicas id
            { c.cluster.replicas id with machine := served.1.1 } }
      answers := c.answers ++ [served.2] }
  | .receive id answer peer now crashAfter => c.onFetchResponse id answer peer now crashAfter
  | .poll id peer => c.sendFetch id peer
  | .submit id contents =>
    c.setLog id (c.logs id ++ contents.map (⟨(c.machine id).state.leaderEpoch, ·⟩))
  | .crash id => { c with cluster := c.cluster.apply (.crash id) }

/-- The events that do not come out of a Fetch. -/
def QuorumEvent : Event → Prop
  | .receiveFetch .. | .receiveFetchSnapshot _ | .receiveFetchResponse ..
  | .receiveLeaderlessEpoch _ => False
  | _ => True

instance : DecidablePred QuorumEvent
  | .receiveFetch .. | .receiveFetchSnapshot _ | .receiveFetchResponse ..
  | .receiveLeaderlessEpoch _ => .isFalse not_false
  | .electionTimeout | .fetchTimeout | .checkQuorumTimeout | .receiveVoteRequest _
  | .receiveVoteResponse .. | .receiveBeginQuorumEpoch .. | .receiveEndQuorumEpoch .. =>
    .isTrue trivial

def Enabled : Label → Prop
  | .event id event _ _ => QuorumEvent event ∧ c.cluster.Deliverable id event
  | .serve id fetch batches _ =>
    fetch ∈ c.fetches ∧ fetch.toId = id ∧ ∀ batch ∈ batches, batch.IsSliceOf (c.logs id)
  | .receive id answer _ _ _ => answer ∈ c.answers ∧ answer.request.fromId = id
  | .poll id peer =>
    (c.machine id).isVoter = false ∧ (c.machine id).fetchingFrom = some peer ∨ c.Discovers id peer
  | .submit id _ => (c.machine id).role.isLeader = true
  | .crash _ => True

instance (c : LogCluster) : DecidablePred c.Enabled := fun a => by
  unfold Enabled
  split <;> infer_instance

def Permitted (a : Label) (c' : LogCluster) : Prop :=
  c.Enabled a ∧ (c'.machine a.replica).state.leaderEpoch < u32Max

instance (c : LogCluster) (a : Label) (c' : LogCluster) : Decidable (c.Permitted a c') :=
  inferInstanceAs (Decidable (_ ∧ _))

def Starts (voters : VoterSet) (c : LogCluster) : Prop :=
  c.cluster.Starts voters ∧ (∀ id, c.logs id = []) ∧ c.fetches = [] ∧ c.answers = []

/-- The runs of a cluster with its logs, over a fixed voter set and while
epochs stay below `u32::MAX`. -/
def system (voters : VoterSet) : TransitionSystem LogCluster Label :=
  (TransitionSystem.ofFun (Starts voters) apply).restrict Permitted

def Leads (epoch : Nat) : Prop := c.cluster.Leads id epoch

instance (c : LogCluster) (id : NodeId) (epoch : Nat) : Decidable (c.Leads id epoch) :=
  inferInstanceAs (Decidable (c.cluster.Leads id epoch))

/-- The step makes the leader `id` emit `AdvanceHighWatermark(h)`. -/
def Advances (h : Int) : Label → Prop
  | .serve id' fetch batches now => id' = id ∧ .advanceHighWatermark h ∈
    ((c.machine id).tryCompleteFetch (logView (c.logs id)) fetch batches now).1.2
  | _ => False

instance (c : LogCluster) (id : NodeId) (h : Int) : DecidablePred (c.Advances id h) := fun a => by
  unfold Advances
  split <;> infer_instance

/-- The leader `id` counts `r` among the replicas that have reached `h`: itself,
or a voter whose fetch offset reaches it. -/
def Counts (h : Int) (r : NodeId) : Prop :=
  match (c.machine id).role with
  | .leader fields =>
    r = id ∨ ∃ progress, fields.replicas.get? r = some progress ∧ h ≤ progress.fetchOffset
  | _ => False

/-- A diverging answer is late when the follower has passed the epoch of the
last record it had when it sent the Fetch. -/
def Timely : Label → LogCluster → Prop
  | .receive id answer _ _ _, _ =>
    (c.machine id).fetchResponseMutation answer = .truncate →
      (logView (c.logs id)).lastEpoch ≤ answer.request.fetchEpoch
  | _, _ => True

instance (c : LogCluster) (a : Label) (c' : LogCluster) : Decidable (c.Timely a c') := by
  unfold Timely
  split <;> infer_instance

end LogCluster

end Krabka.KraftCore

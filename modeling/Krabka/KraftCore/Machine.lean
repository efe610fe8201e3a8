import Krabka.KraftCore.Kernels

/-!
# The quorum state machine

`QuorumStateMachine` of `crates/kraft-core/src/core.rs` with the handlers of
its submodules.  A handler of the source changes the machine in place and
returns the actions for the caller to execute; here it is a function that
returns the new machine with the actions, in the order of the source.

`onEvent` is the dispatch over events.  The other public operations of the
machine are `applyVoterSet`, `commitVoterSet`, `setKraftVersion`,
`advanceEpochForVote`, `resignForShutdown`, `finishLocalLeaderRemoval` and
`adoptReplicaProgress`.
-/

namespace Krabka.KraftCore

structure QuorumStateMachine where
  me : NodeId
  state : QuorumState
  /-- The other side of the one in-flight voter change. -/
  adjacentVoters : Option VoterSet
  role : Role
  electionTimeoutMs : Nat
  fetchTimeoutMs : Nat
  deriving DecidableEq

namespace QuorumStateMachine

/-- `QuorumStateMachine::new`, with the timeouts already in whole
milliseconds. -/
def new (me : NodeId) (state : QuorumState) (electionTimeoutMs fetchTimeoutMs : Nat) :
    QuorumStateMachine where
  me := me
  state := state
  adjacentVoters := none
  role := if !state.voters.contains me then .observer none 0 else .unattached 0
  electionTimeoutMs := electionTimeoutMs
  fetchTimeoutMs := fetchTimeoutMs

variable (m : QuorumStateMachine)

def isVoter : Bool := m.state.voters.contains m.me

/-- The leader this replica knows for its epoch: the one it follows, or the
one a prospective gave up on when it began its pre-vote. -/
def knownLeader : Option NodeId :=
  match m.role with
  | .prospective _ _ _ abandoned => m.state.leaderId.or abandoned
  | _ => m.state.leaderId

def majority : Nat := majoritySize m.state.voters.len

/-! ## Deadlines -/

/-- The deadline of an election timer armed in `epoch`.  The sum of the base
and the jitter is a plain `u64` addition in the source. -/
def electionDeadlineIn (epoch : Nat) (now : Nat) : Nat :=
  saturatingAddMs now
    ((m.electionTimeoutMs + electionJitterMs m.me epoch m.electionTimeoutMs) % 2 ^ 64)

def electionDeadline (now : Nat) : Nat :=
  m.electionDeadlineIn m.state.leaderEpoch now

/-- A replica that is already counting down to an election keeps the time it
has left; any other draws a fresh timeout in the new epoch. -/
def unattachedElectionDeadline (epoch : Nat) (now : Nat) : Nat :=
  match m.role with
  | .unattached d | .voted d | .prospective _ _ d _ | .candidate _ d => d
  | .follower .. | .observer .. | .leader _ | .resigned => m.electionDeadlineIn epoch now

def fetchDeadline (now : Nat) : Nat :=
  saturatingAddMs now m.fetchTimeoutMs

def checkQuorumDeadline (now : Nat) : Nat :=
  saturatingAddMs now (min (m.fetchTimeoutMs * 3) u64Max / 2)

def runsCheckQuorum : Bool :=
  1 < m.state.voters.len || !m.isVoter

def checkQuorumResetThreshold : Nat :=
  if m.isVoter then m.majority - 1 else m.majority

/-! ## Membership lookups -/

def voterKeyMatches (voters : VoterSet) (key : ReplicaKey) : Bool :=
  match voters.get key.id with
  | some voter => m.state.kraftVersion = 0 || voter.directoryId = key.directoryId
  | none => false

def localVoterDirectoryMatches (directoryId : Uuid) : Bool :=
  match m.state.voters.get m.me with
  | some voter => m.state.kraftVersion = 0 || voter.directoryId = directoryId
  | none => true

def currentOrAdjacentVoter (id : NodeId) : Bool :=
  m.state.voters.contains id || m.adjacentVoters.any (fun vs => vs.contains id)

def currentOrAdjacentVoterKey (key : ReplicaKey) : Bool :=
  m.voterKeyMatches m.state.voters key ||
    m.adjacentVoters.any (fun vs => m.voterKeyMatches vs key)

def sameVoter (left right : ReplicaKey) : Bool :=
  left.id = right.id && (m.state.kraftVersion = 0 || left.directoryId = right.directoryId)

/-! ## Shared transitions -/

/-- Wait in this epoch, with no leader, for an election. -/
def awaitElection (deadline : Nat) : QuorumStateMachine × List Action :=
  let role := if m.state.votedKey.isSome then Role.voted deadline else .unattached deadline
  ({ m with role := role },
    [.persistQuorumState, .transitionedTo role.name, .resetTimer .election deadline])

def transitionToUnattached (epoch : Nat) (deadline : Nat) : QuorumStateMachine × List Action :=
  ({ m with
      state := { m.state with leaderEpoch := epoch, leaderId := none, votedKey := none }
      role := .unattached deadline },
    [.persistQuorumState, .transitionedTo "Unattached", .resetTimer .election deadline])

/-- Forget the leader and look for the current one. -/
def becomeDiscoveringObserver (now : Nat) : QuorumStateMachine × List Action :=
  ({ m with
      state := { m.state with leaderId := none }
      role := .observer none (m.fetchDeadline now) },
    [.persistQuorumState, .transitionedTo "Observer",
      .resetTimer .fetch (m.fetchDeadline now)])

/-! ## Answering a vote: `core/vote_request.rs` -/

def advanceEpochForVote (candidate : ReplicaKey) (epoch : Nat)
    (now : Nat) : QuorumStateMachine × List Action :=
  if m.state.leaderEpoch < epoch && m.isVoter && m.currentOrAdjacentVoterKey candidate then
    m.transitionToUnattached epoch (m.electionDeadline now)
  else (m, [])

def canGrantVote (candidate : ReplicaKey) (upToDate preVote : Bool) : Bool :=
  match m.role with
  | .leader _ | .observer .. => false
  | .follower _ _ hasFetched => preVote && !hasFetched && upToDate
  | .candidate .. | .resigned => preVote && upToDate
  | .unattached _ | .prospective .. | .voted _ =>
    if preVote then upToDate
    else
      match m.state.votedKey with
      | some voted => m.sameVoter voted candidate
      | none => !m.knownLeader.isSome && upToDate

/-- The admission of a Vote request by its target and its membership. -/
def admitVote (r : VoteRequest) : VoteAdmissionDecision :=
  voteAdmissionDecision
    { voterId := r.voterId
      localId := m.me
      directoryMatches := m.localVoterDirectoryMatches r.voterDirectoryId }
    { clusterMatches := r.clusterId.all (fun id => id = m.state.clusterId)
      localIsVoter := m.isVoter
      candidateIsVoter := m.currentOrAdjacentVoterKey r.candidateKey }

/-- Record a binding vote and become `Voted`. -/
def castVote (candidate : ReplicaKey) (now : Nat) : QuorumStateMachine × List Action :=
  let deadline := m.electionDeadline now
  ({ m with
      state := { m.state with votedKey := some candidate }
      role := .voted deadline },
    [.persistQuorumState, .transitionedTo "Voted", .resetTimer .election deadline])

variable (log : LogView)

def logUpToDate (cand : LogEnd) : Bool :=
  logIsUpToDate log.lastEpoch log.endOffset cand.lastEpoch cand.lastOffset

def handleVoteRequest (r : VoteRequest) (log : LogView)
    (now : Nat) : QuorumStateMachine × List Action :=
  match m.admitVote r with
  | .ignoreWrongTarget => (m, [])
  | .deny => (m, [.replyVote r.fromId m.state.leaderEpoch false])
  | .consider =>
    if r.candidateEpoch < m.state.leaderEpoch then
      (m, [.replyVote r.fromId m.state.leaderEpoch false])
    else
      let advanced := m.advanceEpochForVote r.candidateKey r.candidateEpoch now
      let granted :=
        advanced.1.canGrantVote r.candidateKey (logUpToDate log r.candidateLogEnd) r.preVote
      let bound :=
        if granted && !r.preVote then advanced.1.castVote r.candidateKey now
        else (advanced.1, [])
      (bound.1,
        advanced.2 ++ bound.2 ++ [.replyVote r.fromId bound.1.state.leaderEpoch granted])

/-! ## Following a leader: `core/leadership.rs` -/

/-- Whether this replica has a membership view that a leader must be in. -/
def membershipKnown : Bool :=
  !m.state.voters.isEmpty || m.adjacentVoters.any (fun vs => !vs.isEmpty)

/-- Attach to `leaderId` in `leaderEpoch`. -/
def follow (leaderId : NodeId) (leaderEpoch : Nat) (now : Nat) : QuorumStateMachine × List Action :=
  let votedKey := if m.state.leaderEpoch < leaderEpoch then none else m.state.votedKey
  let deadline := m.fetchDeadline now
  let role :=
    if m.isVoter then Role.follower leaderId deadline false
    else .observer (some leaderId) deadline
  ({ m with
      state := { m.state with
        leaderEpoch := leaderEpoch, leaderId := some leaderId, votedKey := votedKey }
      role := role },
    [.persistQuorumState, .transitionedTo role.name, .sendFetch leaderId,
      .resetTimer .fetch deadline])

def handleBeginQuorumEpoch (leaderId : NodeId) (leaderEpoch : Nat)
    (now : Nat) : QuorumStateMachine × List Action :=
  if m.membershipKnown && !m.currentOrAdjacentVoter leaderId then (m, [])
  else if m.state.leaderEpoch < leaderEpoch ||
      (leaderEpoch = m.state.leaderEpoch && m.state.leaderId.isNone) then
    m.follow leaderId leaderEpoch now
  else (m, [])

/-! ## Elections: `core/election.rs` -/

/-- Whether the grants of the active round contain a quorum of the current
voters. -/
def tallyReachedMajority : Bool :=
  match m.role with
  | .prospective granted _ _ _ | .candidate granted _ =>
    electionHasQuorum m.state.voters.len
      (granted.filter (fun id => m.state.voters.contains id)).card
  | _ => false

def promoteToLeader (now : Nat) : QuorumStateMachine × List Action :=
  let replicas :=
    (m.state.voters.ids.filter (fun id => id ≠ m.me)).foldl
      (fun acc id => acc.insert id {}) SortedMap.empty
  let role := Role.leader
    { replicas := replicas
      fetchedVoters := ∅
      highWatermark := 0
      epochStartOffset := log.endOffset }
  ({ m with state := { m.state with leaderId := some m.me }, role := role },
    [.appendLeaderChange m.state.leaderEpoch, .sendBeginQuorumEpoch m.state.leaderEpoch,
      .persistQuorumState, .transitionedTo "Leader"] ++
    (if m.runsCheckQuorum then [.resetTimer .checkQuorum (m.checkQuorumDeadline now)] else []))

/-- The promotion to `Candidate` itself, before a lone voter's own win. -/
def becomeCandidate (now : Nat) : QuorumStateMachine × List Action :=
  let state :=
    { m.state with
      leaderEpoch := nextEpoch m.state.leaderEpoch
      leaderId := none
      votedKey := some ⟨m.me, Uuid.nil⟩ }
  let deadline := m.electionDeadlineIn state.leaderEpoch now
  ({ m with state := state, role := .candidate {m.me} deadline },
    [.persistQuorumState, .transitionedTo "Candidate",
      .sendVoteRequest state.leaderEpoch false, .resetTimer .election deadline])

def promoteToCandidate (now : Nat) : QuorumStateMachine × List Action :=
  let c := m.becomeCandidate now
  -- A lone voter wins its own election immediately.
  if c.1.tallyReachedMajority then
    let l := c.1.promoteToLeader log now
    (l.1, c.2 ++ l.2)
  else c

/-- The start of a pre-vote round, before a lone voter's own win. -/
def becomeProspective (now : Nat) : QuorumStateMachine × List Action :=
  let alreadyAbandoned :=
    match m.role with
    | .prospective _ _ _ abandoned => abandoned
    | _ => none
  let deadline := m.electionDeadline now
  ({ m with
      state := { m.state with leaderId := none }
      role := .prospective {m.me} ∅ deadline (m.state.leaderId.or alreadyAbandoned) },
    [.transitionedTo "Prospective", .sendVoteRequest m.state.leaderEpoch true,
      .resetTimer .election deadline])

def startElection (now : Nat) : QuorumStateMachine × List Action :=
  let p := m.becomeProspective now
  -- A lone voter wins its own pre-vote immediately.
  if p.1.tallyReachedMajority then
    let c := p.1.promoteToCandidate log now
    (c.1, p.2 ++ c.2)
  else p

def handleElectionTimeout (now : Nat) : QuorumStateMachine × List Action :=
  if !m.isVoter then (m, [])
  else
    match m.role with
    | .prospective _ _ _ (some leaderId) =>
      let followed := m.handleBeginQuorumEpoch leaderId m.state.leaderEpoch now
      if !followed.2.isEmpty then followed else m.startElection log now
    | _ => m.startElection log now

/-- Whether the grants and the voters that have not answered can no longer make
a majority. -/
def roundLost (granted rejected : Finset NodeId) : Bool :=
  let granting := (granted.filter (fun id => m.state.voters.contains id)).card
  let refusing := (rejected.filter (fun id => m.state.voters.contains id)).card
  let unanswered := m.state.voters.len - (granting + refusing)
  granting + unanswered < m.majority

variable (fromId : NodeId)

/-- A voter refused our pre-vote in our epoch. -/
def recordPreVoteRejection (epoch : Nat) (now : Nat) : QuorumStateMachine × List Action :=
  if epoch ≠ m.state.leaderEpoch || !m.state.voters.contains fromId then (m, [])
  else
    match m.role with
    | .prospective granted rejected deadline abandoned =>
      let granted := granted.erase fromId
      let rejected := insert fromId rejected
      let m := { m with role := .prospective granted rejected deadline abandoned }
      if !m.roundLost granted rejected then (m, [])
      else
        match abandoned with
        | some leaderId => m.handleBeginQuorumEpoch leaderId epoch now
        | none => m.awaitElection (m.electionDeadline now)
    | _ => (m, [])

/-- Count a grant of `fromId` in the active round.  A replica that has left the
voter set cannot contribute, but its answer still re-tallies the round. -/
def recordGrant : QuorumStateMachine :=
  if !m.state.voters.contains fromId then m
  else
    match m.role with
    | .prospective granted rejected deadline abandoned =>
      { m with
        role := .prospective (insert fromId granted) (rejected.erase fromId) deadline abandoned }
    | .candidate granted deadline =>
      { m with role := .candidate (insert fromId granted) deadline }
    | _ => m

def handleVoteResponse (epoch : Nat) (voteGranted : Bool) (now : Nat) :
    QuorumStateMachine × List Action :=
  if !voteGranted && m.state.leaderEpoch < epoch then
    m.transitionToUnattached epoch (m.unattachedElectionDeadline epoch now)
  else if !voteGranted then m.recordPreVoteRejection fromId epoch now
  else if epoch ≠ m.state.leaderEpoch then (m, [])
  else
    -- The response carries no pre-vote flag; the role tells the round.
    match m.role with
    | .prospective .. =>
      let m := m.recordGrant fromId
      if m.tallyReachedMajority then m.promoteToCandidate log now else (m, [])
    | .candidate .. =>
      let m := m.recordGrant fromId
      if m.tallyReachedMajority then m.promoteToLeader log now else (m, [])
    | _ => (m, [])

/-! ## A leader's resignation: `core/leadership.rs` -/

def endEpochElectionBackoffMs (rank : SuccessorRank) (maxMs : Nat) : Nat :=
  if rank.position = 0 then 0
  else if rank.successors ≤ rank.position then maxMs
  else
    let base := if 64 ≤ rank.successors - 1 then 0 else maxMs >>> (rank.successors - 1)
    if 64 ≤ rank.position - 1 then maxMs
    else min (base <<< (rank.position - 1) % 2 ^ 64) maxMs

def handleEndQuorumEpoch (leaderEpoch : Nat)
    (rank : SuccessorRank) (now : Nat) : QuorumStateMachine × List Action :=
  if leaderEpoch < m.state.leaderEpoch then (m, [])
  else if !m.isVoter then m.transitionToUnattached m.state.leaderEpoch now
  else
    let backoffMs := endEpochElectionBackoffMs rank m.electionTimeoutMs
    if backoffMs = 0 then m.startElection log now
    else
      { m with state := { m.state with leaderId := none } }.awaitElection
        (saturatingAddMs now backoffMs)

/-! ## Replication: `core/replication.rs` -/

/-- `preferred_successors`: the other current voters by descending fetch
offset, with node id order among equals. -/
def preferredSuccessors : List NodeId :=
  match m.role with
  | .leader fields =>
    let offset (id : NodeId) : Int := ((fields.replicas.get? id).map (·.fetchOffset)).getD (-1)
    (m.state.voters.ids.filter (fun id => id ≠ m.me)).insertionSort
      (fun left right => offset right < offset left ∨
        (offset left = offset right ∧ left ≤ right))
  | _ => []

/-- Score one Fetch or FetchSnapshot against the check-quorum window. -/
def recordQuorumContact (now : Nat) : QuorumStateMachine × List Action :=
  if !m.runsCheckQuorum || fromId = m.me || !m.state.voters.contains fromId then (m, [])
  else
    match m.role with
    | .leader fields =>
      let fetched := insert fromId fields.fetchedVoters
      if fetched.card < m.checkQuorumResetThreshold then
        ({ m with role := .leader { fields with fetchedVoters := fetched } }, [])
      else
        ({ m with role := .leader { fields with fetchedVoters := ∅ } },
          [.resetTimer .checkQuorum (m.checkQuorumDeadline now)])
    | _ => (m, [])

/-- `recompute_high_watermark` of the core: the kernel on clamped inputs. -/
def recomputeHighWatermark (logEnd : Int) : Int :=
  match m.role with
  | .leader fields =>
    KraftCore.recomputeHighWatermark logEnd
      (fields.replicas.values.map (fun p => min p.fetchOffset logEnd)) m.majority
      fields.epochStartOffset (min fields.highWatermark logEnd) m.isVoter
  | _ => 0

/-- Record a consistent fetch of `fromId` and advance the high watermark. -/
def recordProgress (logEnd : Int) (fromId : NodeId)
    (fetchOffset : Int) (now : Nat) : QuorumStateMachine × List Action :=
  match m.role with
  | .leader fields =>
    let fields := { fields with
      replicas := fields.replicas.modify fromId (·.recordFetch now fetchOffset logEnd) }
    let m := { m with role := .leader fields }
    let newHwm := m.recomputeHighWatermark logEnd
    if fields.highWatermark < newHwm then
      ({ m with role := .leader { fields with highWatermark := newHwm } },
        [.advanceHighWatermark newHwm])
    else (m, [])
  | _ => (m, [])

/-- Whether a fetch at `(fetchEpoch, fetchOffset)` is not a position of this
log. -/
def fetchDiverges (fetchEpoch : Nat) (fetchOffset : Int) : Bool :=
  0 < fetchOffset && ((log.endOffsetForEpoch fetchEpoch).epoch ≠ fetchEpoch ||
    (log.endOffsetForEpoch fetchEpoch).offset < fetchOffset)

def handleFetch (fetchEpoch : Nat) (fetchOffset : Int) (now : Nat) :
    QuorumStateMachine × List Action :=
  if !m.role.isLeader then (m, [])
  else
    let contact := m.recordQuorumContact fromId now
    if fetchDiverges log fetchEpoch fetchOffset then
      (contact.1, contact.2 ++ [.replyDivergingEpoch (log.endOffsetForEpoch fetchEpoch)])
    else
      let progress := contact.1.recordProgress log.endOffset fromId fetchOffset now
      (progress.1, contact.2 ++ progress.2)

def handleFetchSnapshot (now : Nat) : QuorumStateMachine × List Action :=
  if !m.role.isLeader then (m, []) else m.recordQuorumContact fromId now

/-- Step down from the leadership of the current epoch. -/
def transitionToResigned (now : Nat) : QuorumStateMachine × List Action :=
  let role := if m.isVoter then Role.resigned else .observer none (m.fetchDeadline now)
  let timer :=
    if m.isVoter then Action.resetTimer .election (m.electionDeadline now)
    else .resetTimer .fetch (m.fetchDeadline now)
  ({ m with state := { m.state with leaderId := none }, role := role },
    [.sendEndQuorumEpoch m.state.leaderEpoch m.preferredSuccessors, .persistQuorumState,
      .transitionedTo role.name, timer])

def handleCheckQuorumTimeout (now : Nat) : QuorumStateMachine × List Action :=
  if !m.role.isLeader || !m.runsCheckQuorum then (m, []) else m.transitionToResigned now

/-- The leader whose Fetch answers this replica waits on. -/
def fetchingFrom : Option NodeId :=
  match m.role with
  | .follower leaderId _ _ => some leaderId
  | .observer leaderId _ => leaderId
  | _ => none

def handleFetchResponse (leaderId : NodeId)
    (leaderEpoch : Nat) (diverging : Option LogOffsetMetadata) (now : Nat) :
    QuorumStateMachine × List Action :=
  if m.fetchingFrom ≠ some leaderId || leaderEpoch ≠ m.state.leaderEpoch then (m, [])
  else
    let role :=
      match m.role with
      | .follower following deadline _ => Role.follower following deadline true
      | role => role
    -- The truncation comes first: the Fetch after it starts at the truncated end.
    ({ m with role := role },
      (diverging.map (fun point =>
        Action.truncateTo ⟨point.followerTruncationOffset log, point.epoch⟩)).toList ++
      [.sendFetch leaderId, .resetTimer .fetch (m.fetchDeadline now)])

def handleFetchTimeout (now : Nat) : QuorumStateMachine × List Action :=
  if m.isVoter then m.startElection log now else m.becomeDiscoveringObserver now

def handleLeaderlessEpoch (epoch : Nat) (now : Nat) : QuorumStateMachine × List Action :=
  if epoch ≤ m.state.leaderEpoch then (m, [])
  else if m.isVoter then
    m.transitionToUnattached epoch (m.unattachedElectionDeadline epoch now)
  else
    { m with state := { m.state with leaderEpoch := epoch, votedKey := none }
      }.becomeDiscoveringObserver now

def adoptReplicaProgress (id : NodeId) (progress : ReplicaProgress) : QuorumStateMachine :=
  match m.role with
  | .leader fields =>
    if id ≠ m.me && m.state.voters.contains id then
      { m with role := .leader { fields with replicas := fields.replicas.insert id progress } }
    else m
  | _ => m

/-! ## Membership: `core/membership.rs` -/

/-- The membership view after a voter set is read: the set it replaces stays
addressable as the adjacent one. -/
def withVoters (voters : VoterSet) : QuorumStateMachine :=
  { m with
    adjacentVoters := if m.state.voters ≠ voters then some m.state.voters else m.adjacentVoters
    state := { m.state with voters := voters } }

/-- The role change of a replica that does not lead and whose place in the
voter set changed. -/
def changeMembership (wasVoter : Bool) (now : Nat) : QuorumStateMachine × List Action :=
  match wasVoter, m.isVoter with
  | true, false =>
    ({ m with role := .observer m.state.leaderId (m.fetchDeadline now) },
      .transitionedTo "Observer" ::
        match m.state.leaderId with
        | some leaderId => [.sendFetch leaderId, .resetTimer .fetch (m.fetchDeadline now)]
        | none => [])
  | false, true =>
    match m.state.leaderId with
    | some leaderId =>
      ({ m with role := .follower leaderId (m.fetchDeadline now) false },
        [.transitionedTo "Follower", .sendFetch leaderId,
          .resetTimer .fetch (m.fetchDeadline now)])
    | none =>
      ({ m with role := .unattached (m.electionDeadline now) },
        [.transitionedTo "Unattached", .resetTimer .election (m.electionDeadline now)])
  | _, _ => (m, [])

def applyVoterSet (voters : VoterSet) (now : Nat) : QuorumStateMachine × List Action :=
  let wasVoter := m.isVoter
  let m := m.withVoters voters
  match m.role with
  | .leader fields =>
    let kept := fields.replicas.retain (fun id => voters.contains id && id ≠ m.me)
    let replicas :=
      (voters.ids.filter (fun id => id ≠ m.me)).foldl (fun acc id => acc.orInsert id {}) kept
    ({ m with role := .leader { fields with replicas := replicas, fetchedVoters := ∅ } },
      if m.runsCheckQuorum then [.resetTimer .checkQuorum (m.checkQuorumDeadline now)] else [])
  | _ => m.changeMembership wasVoter now

def setKraftVersion (version : Nat) : QuorumStateMachine :=
  { m with state := { m.state with kraftVersion := version } }

/-- Forget the preceding voter view once the latest voter record commits. -/
def commitVoterSet : QuorumStateMachine :=
  { m with adjacentVoters := none }

/-- Complete the removal of the local leader after the reduced voter set has
committed. -/
def finishLocalLeaderRemoval (now : Nat) : QuorumStateMachine × List Action :=
  if m.isVoter || !m.role.isLeader then (m, [])
  else
    ({ m with
        state := { m.state with leaderId := none }
        role := .observer none (m.fetchDeadline now) },
      [.sendEndQuorumEpoch m.state.leaderEpoch m.preferredSuccessors, .persistQuorumState,
        .transitionedTo "Observer", .resetTimer .fetch (m.fetchDeadline now)])

/-! ## Shutdown: `core/shutdown.rs` -/

def gracefulShutdownComplete : Bool :=
  !m.isVoter || m.state.voters.len = 1 || m.knownLeader.any (fun leader => leader ≠ m.me)

def resignForShutdown (now : Nat) : QuorumStateMachine × List Action :=
  if m.role.isLeader && !m.gracefulShutdownComplete then m.transitionToResigned now
  else (m, [])

/-! ## The dispatch -/

def onEvent (event : Event) (log : LogView) (now : Nat) : QuorumStateMachine × List Action :=
  match event with
  | .receiveVoteRequest request => m.handleVoteRequest request log now
  | .electionTimeout => m.handleElectionTimeout log now
  | .checkQuorumTimeout => m.handleCheckQuorumTimeout now
  | .receiveVoteResponse fromId epoch granted =>
    m.handleVoteResponse log fromId epoch granted now
  | .receiveBeginQuorumEpoch leaderId epoch => m.handleBeginQuorumEpoch leaderId epoch now
  | .receiveEndQuorumEpoch _ epoch rank => m.handleEndQuorumEpoch log epoch rank now
  | .receiveFetch fromId epoch offset => m.handleFetch log fromId epoch offset now
  | .receiveFetchSnapshot fromId => m.handleFetchSnapshot fromId now
  | .receiveFetchResponse leaderId epoch diverging =>
    m.handleFetchResponse log leaderId epoch diverging now
  | .fetchTimeout => m.handleFetchTimeout log now
  | .receiveLeaderlessEpoch epoch => m.handleLeaderlessEpoch epoch now

inductive Op where
  | event (event : Event) (log : LogView) (now : Nat)
  | applyVoterSet (voters : VoterSet) (now : Nat)
  | commitVoterSet
  | setKraftVersion (version : Nat)
  | advanceEpochForVote (candidate : ReplicaKey) (epoch : Nat) (now : Nat)
  | resignForShutdown (now : Nat)
  | finishLocalLeaderRemoval (now : Nat)
  | adoptReplicaProgress (id : NodeId) (progress : ReplicaProgress)

/-- One operation: the machine after it and the actions it returns. -/
def run : Op → QuorumStateMachine × List Action
  | .event event log now => m.onEvent event log now
  | .applyVoterSet voters now => m.applyVoterSet voters now
  | .commitVoterSet => (m.commitVoterSet, [])
  | .setKraftVersion version => (m.setKraftVersion version, [])
  | .advanceEpochForVote candidate epoch now => m.advanceEpochForVote candidate epoch now
  | .resignForShutdown now => m.resignForShutdown now
  | .finishLocalLeaderRemoval now => m.finishLocalLeaderRemoval now
  | .adoptReplicaProgress id progress => (m.adoptReplicaProgress id progress, [])

end QuorumStateMachine

end Krabka.KraftCore

import Krabka.Raft.Engine
import Krabka.Raft.QuorumStateFile

/-!
# A granted vote and the disk

`answer_vote` of `quorum_requests.rs` with `run_vote_request`,
`execute_local_only` and `execute_one_local`, over an engine with its
quorum-state file.  Every write of the file has an outcome that the caller does
not choose: `io i` is the outcome of the `i`-th write.

The core asks for its state to be persisted before it replies, but the actions
are executed when it is done, so every write of one request writes the same
state, and an error is only logged: the answer says that the vote is granted
whatever the outcomes were.  `granted_vote_durable_iff` says when the vote is on
disk.
-/

namespace Krabka.Raft

open List KraftCore KraftCore.QuorumStateMachine

/-! ## The request and its answer -/

/-- `VoteRequest` of the wire: one partition. -/
structure VotePartition where
  partitionIndex : Int
  replicaEpoch : Int
  replicaId : Int
  replicaDirectoryId : Uuid
  voterDirectoryId : Uuid
  lastOffsetEpoch : Int
  lastOffset : Int
  preVote : Bool

structure VoteTopic where
  topicName : String
  partitions : List VotePartition

/-- `VoteRequest` of the wire.  A cluster id that does not parse is
`some none`. -/
structure WireVoteRequest where
  clusterId : Option (Option Uuid)
  voterId : Int
  topics : List VoteTopic

/-- What `encode_vote_response` encodes, without the leader's endpoint. -/
structure WireVoteResponse where
  errorCode : Int
  partitionError : Int
  voteGranted : Bool
  leaderId : Option NodeId
  leaderEpoch : Nat

def invalidRequest : Int := 42
def fencedLeaderEpoch : Int := 74
def inconsistentClusterId : Int := 104
def invalidVoterKey : Int := 125

def metadataTopic : String := "__cluster_metadata"

def metadataPartition : Int := 0

def namesOnlyTheMetadataPartition (topics : List VoteTopic) : Bool :=
  match topics with
  | [topic] =>
    topic.topicName = metadataTopic &&
      topic.partitions.map (·.partitionIndex) = [metadataPartition]
  | _ => false

def WireVoteRequest.partition (request : WireVoteRequest) : Option VotePartition :=
  request.topics.head?.bind (·.partitions.head?)

/-- A candidate's last epoch is below the epoch it asks a vote for; a pre-vote
does not bump it. -/
def VotePartition.illegalEpoch (p : VotePartition) : Bool :=
  if p.preVote then p.replicaEpoch < p.lastOffsetEpoch else p.replicaEpoch ≤ p.lastOffsetEpoch

def VotePartition.key (p : VotePartition) : ReplicaKey := ⟨p.replicaId.toNat, p.replicaDirectoryId⟩

def VotePartition.epoch (p : VotePartition) : Nat := p.replicaEpoch.toNat

/-! ## The engine with its file -/

/-- How one write of `write_file_atomic` ends. -/
inductive WriteOutcome where
  | written
  /-- The directory sync fails after the rename. -/
  | unsynced
  /-- An error before the rename, which leaves the file as it was. -/
  | failed
  deriving DecidableEq

def WriteOutcome.replaces : WriteOutcome → Bool
  | .written | .unsynced => true
  | .failed => false

structure StoredEngine extends Engine where
  file : Option QuorumStateJson
  /-- How many writes were attempted. -/
  writes : Nat

namespace StoredEngine

variable (io : Nat → WriteOutcome)

variable (e : StoredEngine)

def persistQuorumState : Except QuorumStateError Unit × StoredEngine :=
  match saveQuorumState e.core.state with
  | .error error => (.error error, e)
  | .ok record =>
    match io e.writes with
    | .written => (.ok (), { e with file := some record, writes := e.writes + 1 })
    | .unsynced => (.error .io, { e with file := some record, writes := e.writes + 1 })
    | .failed => (.error .io, { e with writes := e.writes + 1 })

/-- `execute_one_local`, for the actions of a Vote request.  The error of a
write is logged and dropped. -/
def executeOneLocal : Action → StoredEngine
  | .persistQuorumState => (e.persistQuorumState io).2
  | action => { e with toEngine := e.toEngine.executeOne action }

def executeLocalOnly (actions : List Action) : StoredEngine :=
  actions.foldl (executeOneLocal io) e

def carryOutLocal (result : QuorumStateMachine × List Action) : StoredEngine :=
  let e' := { e with toEngine := { e.toEngine with core := result.1 } }.executeLocalOnly io result.2
  { e' with toEngine := e'.toEngine.reconcileTimers }

def isReplyVote : Action → Bool
  | .replyVote .. => true
  | _ => false

def replyOf (actions : List Action) : Bool :=
  actions.foldl (fun granted action =>
    match action with
    | .replyVote _ _ replyGranted => replyGranted
    | _ => granted) false

def runVoteRequest (event : Event) (log : LogView) (now : Nat) : Bool × StoredEngine :=
  let result := e.core.onEvent event log now
  (replyOf result.2, e.carryOutLocal io (result.1, result.2.filter fun a => !isReplyVote a))

def advanceEpochForVote (candidate : ReplicaKey) (epoch now : Nat) : StoredEngine :=
  e.carryOutLocal io (e.core.advanceEpochForVote candidate epoch now)

/-! ## `answer_vote` -/

/-- `has_valid_cluster_id`: an absent id is valid. -/
def hasValidClusterId (clusterId : Option (Option Uuid)) : Bool :=
  clusterId.all (fun id => id = some e.core.state.clusterId)

def voterOnlyRequestError (remoteId requestEpoch : Int) : Option Int :=
  if requestEpoch < e.core.state.leaderEpoch then some fencedLeaderEpoch
  else if remoteId < 0 then some invalidRequest
  else none

def localDirectoryId : Option Uuid :=
  ((e.core.state.voters.get e.core.me).map (·.directoryId)).filter (fun id => id ≠ Uuid.nil)

def isValidVoterKey (voterId : Int) (voterDirectoryId : Uuid) : Bool :=
  if voterId < 0 then true
  else
    voterId = e.core.me &&
      (voterDirectoryId = Uuid.nil || e.localDirectoryId.all (fun id => id = voterDirectoryId))

def voteEvent (p : VotePartition) (candidateEpoch candidate lastEpoch : Nat) :
    KraftCore.VoteRequest where
  fromId := candidate
  clusterId := some e.core.state.clusterId
  voterId := e.core.me
  voterDirectoryId := ((e.core.state.voters.get e.core.me).map (·.directoryId)).getD Uuid.nil
  candidateEpoch := candidateEpoch
  candidate := candidate
  candidateDirectoryId := p.replicaDirectoryId
  candidateLogEnd := ⟨lastEpoch, p.lastOffset⟩
  preVote := p.preVote

def response (errorCode partitionError : Int) (voteGranted : Bool) : WireVoteResponse where
  errorCode := errorCode
  partitionError := partitionError
  voteGranted := voteGranted
  leaderId := e.core.state.leaderId
  leaderEpoch := e.core.state.leaderEpoch

/-- `answer_vote` for a request that decodes. -/
def answerVote (request : WireVoteRequest) (log : LogView) (now : Nat) :
    WireVoteResponse × StoredEngine :=
  if !e.hasValidClusterId request.clusterId then (e.response inconsistentClusterId 0 false, e)
  else if !namesOnlyTheMetadataPartition request.topics then (e.response invalidRequest 0 false, e)
  else
    match request.partition with
    | none => (e.response invalidRequest 0 false, e)
    | some p =>
      if p.lastOffset < 0 || p.lastOffsetEpoch < 0 || p.illegalEpoch then
        (e.response 0 invalidRequest false, e)
      else
        match e.voterOnlyRequestError p.replicaId p.replicaEpoch with
        | some error => (e.response 0 error false, e)
        | none =>
          if !e.isValidVoterKey request.voterId p.voterDirectoryId then
            -- The refusal names the epoch that this replica is at afterwards.
            let e' :=
              match p.replicaId.toNat?, p.replicaEpoch.toNat? with
              | some candidate, some epoch =>
                e.advanceEpochForVote io ⟨candidate, p.replicaDirectoryId⟩ epoch now
              | _, _ => e
            (e'.response 0 invalidVoterKey false, e')
          else
            match p.replicaEpoch.toNat?, p.replicaId.toNat?, p.lastOffsetEpoch.toNat? with
            | some epoch, some candidate, some lastEpoch =>
              let answered :=
                e.runVoteRequest io (.receiveVoteRequest (e.voteEvent p epoch candidate lastEpoch))
                  log now
              (answered.2.response 0 0 answered.1, answered.2)
            | _, _, _ => (e.response 0 invalidRequest false, e)

variable {io} {e : StoredEngine}

/-! ## The engine of the other requests -/

@[simp]
theorem executeOneLocal_toEngine (a : Action) :
    (e.executeOneLocal io a).toEngine = e.toEngine.executeOne a := by
  cases a
  case persistQuorumState =>
    unfold executeOneLocal StoredEngine.persistQuorumState
    dsimp only
    split
    · rfl
    · split <;> rfl
  all_goals rfl

theorem answerVote_cases (request : WireVoteRequest) (log : LogView) (now : Nat) :
    ((e.answerVote io request log now).1.voteGranted = false ∧
        (e.answerVote io request log now).2 = e) ∨
      ((e.answerVote io request log now).1.voteGranted = false ∧
        ∃ candidate epoch, (e.answerVote io request log now).2 =
          e.advanceEpochForVote io candidate epoch now) ∨
      ∃ p lastEpoch, request.partition = some p ∧
        e.answerVote io request log now =
          let answered := e.runVoteRequest io
            (.receiveVoteRequest (e.voteEvent p p.epoch p.key.id lastEpoch)) log now
          (answered.2.response 0 0 answered.1, answered.2) := by
  unfold answerVote
  split
  · exact .inl ⟨rfl, rfl⟩
  split
  · exact .inl ⟨rfl, rfl⟩
  split
  · exact .inl ⟨rfl, rfl⟩
  rename_i p hpartition
  split
  · exact .inl ⟨rfl, rfl⟩
  split
  · exact .inl ⟨rfl, rfl⟩
  split
  · split
    · exact .inr (.inl ⟨rfl, _, _, rfl⟩)
    · exact .inl ⟨rfl, rfl⟩
  split
  · rename_i epoch candidate lastEpoch hepoch hcandidate _
    have hepoch' : p.epoch = epoch := by
      rw [VotePartition.epoch, Int.mem_toNat?.mp hepoch, Int.toNat_natCast]
    have hcandidate' : p.key.id = candidate := by
      rw [VotePartition.key, Int.mem_toNat?.mp hcandidate, Int.toNat_natCast]
    refine .inr (.inr ⟨p, lastEpoch, hpartition, ?_⟩)
    rw [hepoch', hcandidate']
  · exact .inl ⟨rfl, rfl⟩

/-! ## The writes of one request -/

/-- One of the next `n` writes replaces the file. -/
def replaced (io : Nat → WriteOutcome) (start : Nat) : Nat → Bool
  | 0 => false
  | n + 1 => (io start).replaces || replaced io (start + 1) n

theorem persistQuorumState_file :
    (e.persistQuorumState io).2.file =
      if representable e.core.state && (io e.writes).replaces
      then some (recordOf e.core.state) else e.file := by
  unfold StoredEngine.persistQuorumState saveQuorumState
  by_cases hfits : representable e.core.state = true
  · rw [if_pos hfits]
    cases hio : io e.writes <;> simp [hfits, WriteOutcome.replaces]
  · simp [hfits]

theorem persistQuorumState_writes (h : representable e.core.state = true) :
    (e.persistQuorumState io).2.writes = e.writes + 1 := by
  unfold StoredEngine.persistQuorumState saveQuorumState
  rw [if_pos h]
  cases hio : io e.writes <;> rfl

theorem executeLocalOnly_file (as : List Action) :
    (e.executeLocalOnly io as).file =
      if representable e.core.state && replaced io e.writes (as.count .persistQuorumState)
      then some (recordOf e.core.state) else e.file := by
  unfold executeLocalOnly
  induction as generalizing e with
  | nil => simp [replaced]
  | cons a as ih =>
    have hcore : (e.executeOneLocal io a).core = e.core := by simp
    rw [foldl_cons, ih, hcore]
    by_cases ha : a = .persistQuorumState
    · subst ha
      rw [count_cons_self, replaced, executeOneLocal, persistQuorumState_file]
      by_cases hfits : representable e.core.state = true
      · rw [persistQuorumState_writes hfits]
        by_cases hfirst : (io e.writes).replaces = true <;> simp [hfits, hfirst]
      · simp [hfits]
    · have hsame : (e.executeOneLocal io a).writes = e.writes ∧
          (e.executeOneLocal io a).file = e.file := by
        cases a <;> first | exact absurd rfl ha | exact ⟨rfl, rfl⟩
      rw [count_cons_of_ne ha, hsame.1, hsame.2]

/-! ## A granted request in the core -/

/-- The state in which a vote for `key` in `epoch` is recorded. -/
def votedState (state : QuorumState) (key : ReplicaKey) (epoch : Nat) : QuorumState :=
  { state with
    leaderEpoch := epoch
    leaderId := if state.leaderEpoch < epoch then none else state.leaderId
    votedKey := some key }

theorem replyOf_concat (as : List Action) (toId : NodeId) (epoch : Nat) (granted : Bool) :
    replyOf (as ++ [.replyVote toId epoch granted]) = granted := by
  simp [replyOf]

theorem handleVoteRequest_granted (m : QuorumStateMachine) (r : KraftCore.VoteRequest)
    (log : LogView) (now : Nat) (hpre : r.preVote = false)
    (hgranted : replyOf (m.handleVoteRequest r log now).2 = true) :
    (m.handleVoteRequest r log now).1.state = votedState m.state r.candidateKey r.candidateEpoch ∧
      ((m.handleVoteRequest r log now).2.filter fun a => !isReplyVote a).count
        .persistQuorumState = if m.state.leaderEpoch < r.candidateEpoch then 2 else 1 := by
  unfold handleVoteRequest at hgranted ⊢
  cases hconsider : m.admitVote r <;> rw [hconsider] at hgranted <;> dsimp only at hgranted ⊢
  · cases hgranted
  · cases hgranted
  obtain ⟨hvoter, hkey⟩ := admitVote_consider hconsider
  by_cases hstale : r.candidateEpoch < m.state.leaderEpoch
  · rw [if_pos hstale] at hgranted
    cases hgranted
  rw [if_neg hstale] at hgranted ⊢
  rw [replyOf_concat] at hgranted
  rw [hgranted, hpre, if_pos (by rfl)]
  -- Between voters, the epoch is taken over exactly when it is newer.
  unfold QuorumStateMachine.advanceEpochForVote
  simp only [hvoter, hkey, Bool.and_true, decide_eq_true_eq]
  by_cases hnewer : m.state.leaderEpoch < r.candidateEpoch
  · rw [if_pos hnewer, if_pos hnewer]
    exact ⟨by simp [votedState, castVote, transitionToUnattached, hnewer],
      by simp [castVote, transitionToUnattached, isReplyVote]⟩
  · have hsame : r.candidateEpoch = m.state.leaderEpoch := by omega
    rw [if_neg hnewer, if_neg hnewer]
    exact ⟨by simp [votedState, castVote, hsame], by simp [castVote, isReplyVote]⟩

/-! ## The vote on disk -/

/-- How often the state is written for a vote: a newer epoch is persisted on its
own. -/
def voteWrites (e : StoredEngine) (p : VotePartition) : Nat :=
  if e.core.state.leaderEpoch < p.epoch then 2 else 1

/-- The vote for the request is stored: a write of the request replaces the file
with a state that fits it, or the file had the vote already. -/
def StoresVote (io : Nat → WriteOutcome) (e : StoredEngine) (p : VotePartition) : Prop :=
  representable (votedState e.core.state p.key p.epoch) = true ∧
      replaced io e.writes (e.voteWrites p) = true ∨
    Carries e.file p.epoch p.key

/-- A machine as a restart builds it from the file.  Snapshot and log supply the
voters and the version. -/
def Restarts (file : Option QuorumStateJson) (m : QuorumStateMachine) : Prop :=
  ∃ clusterId configured state, loadQuorumState file clusterId configured = .ok (some state) ∧
    ∃ me voters kraftVersion electionTimeoutMs fetchTimeoutMs,
      m = .new me { state with voters := voters, kraftVersion := kraftVersion } electionTimeoutMs
        fetchTimeoutMs

theorem answerVote_file {request : WireVoteRequest} {log : LogView} {now : Nat} {p : VotePartition}
    (hpartition : request.partition = some p) (hbinding : p.preVote = false)
    (hgranted : (e.answerVote io request log now).1.voteGranted = true) :
    (e.answerVote io request log now).2.file =
      if representable (votedState e.core.state p.key p.epoch) &&
        replaced io e.writes (e.voteWrites p)
      then some (recordOf (votedState e.core.state p.key p.epoch)) else e.file := by
  rcases e.answerVote_cases request log now with ⟨h, -⟩ | ⟨h, -⟩ | ⟨p', lastEpoch, hp, h⟩
  · rw [h] at hgranted
    cases hgranted
  · rw [h] at hgranted
    cases hgranted
  · cases hpartition.symm.trans hp
    rw [h] at hgranted ⊢
    obtain ⟨hstate, hcount⟩ := handleVoteRequest_granted e.core
      (e.voteEvent p p.epoch p.key.id lastEpoch) log now hbinding hgranted
    refine (executeLocalOnly_file _).trans ?_
    simp only [QuorumStateMachine.onEvent, hstate, hcount]
    rfl

/-- **A granted vote is on disk exactly when it is stored**, and then a restart
grants no other candidate in its epoch: in every run of the restarted machine
that keeps the recorded vote, the votes of the epoch go to this candidate. -/
theorem granted_vote_durable_iff {request : WireVoteRequest} {log : LogView} {now : Nat}
    {p : VotePartition} (hpartition : request.partition = some p) (hbinding : p.preVote = false)
    (hgranted : (e.answerVote io request log now).1.voteGranted = true) :
    (Carries (e.answerVote io request log now).2.file p.epoch p.key ↔ e.StoresVote io p) ∧
      (e.StoresVote io p → ∀ m, Restarts (e.answerVote io request log now).2.file m →
        ∀ s, (VoteHistory.system.restrict fun s op _ => s.KeepsVote op).Leads
            ⟨m, [(p.epoch, p.key.id)]⟩ s →
          ∀ c, (p.epoch, c) ∈ s.grants → c = p.key.id) := by
  have hcarries : Carries (e.answerVote io request log now).2.file p.epoch p.key ↔
      e.StoresVote io p := by
    rw [answerVote_file hpartition hbinding hgranted, StoresVote]
    split_ifs with hwritten
    · exact iff_of_true (carries_recordOf rfl) (.inl (by simpa using hwritten))
    · exact ⟨.inr, fun h => h.resolve_left fun h' => hwritten (by simp [h'.1, h'.2])⟩
  refine ⟨hcarries, ?_⟩
  rintro hstored m
    ⟨clusterId, configured, state, hload, me, voters, version, et, ft, rfl⟩ s hleads c hc
  obtain ⟨hepoch, voted, hvoted, hid⟩ := (hcarries.mpr hstored).load hload
  have hstart : VoteHistory.Inv
      (.new me { state with voters := voters, kraftVersion := version } et ft)
      [(p.epoch, p.key.id)] := by
    refine ⟨fun _ a b ha hb => ?_, fun _ _ ha => ?_, fun a ha => ⟨voted, hvoted, ?_⟩⟩
    · cases mem_singleton.mp ha
      cases mem_singleton.mp hb
      rfl
    · cases mem_singleton.mp ha
      exact hepoch.ge
    · rw [hid]
      exact (congrArg Prod.snd (mem_singleton.mp ha)).symm
  have hinv : VoteHistory.Inv s.machine s.grants :=
    hleads.invariant (P := fun s => VoteHistory.Inv s.machine s.grants)
      (fun _ _ _ hs hstep => by
        obtain ⟨⟨rfl, hbound⟩, hkeep⟩ := hstep
        exact hs.step hkeep hbound) hstart
  have hkept : (p.epoch, p.key.id) ∈ s.grants :=
    hleads.invariant (P := fun s => (p.epoch, p.key.id) ∈ s.grants)
      (fun _ _ _ hs hstep => by
        obtain ⟨⟨rfl, -⟩, -⟩ := hstep
        exact mem_append_left _ hs) (by simp)
  exact hinv.unique _ _ _ hc hkept

/-- Voter 1 of the voters 1, 2 and 3, started without a file. -/
def fresh : StoredEngine where
  core := .new 1 (.bootstrap 7 (.ofIds [1, 2, 3])) 1000 2000
  electionAt := some 1000
  fetchAt := none
  checkQuorumAt := none
  fetchMisses := 0
  discoveryAttempts := 0
  controllerFetchMissLimit := 5
  discoveryPeers := []
  file := none
  writes := 0

/-- A binding request of `candidate`, with an empty log, in epoch 1. -/
def candidacy (candidate : Int) : VotePartition where
  partitionIndex := metadataPartition
  replicaEpoch := 1
  replicaId := candidate
  replicaDirectoryId := Uuid.nil
  voterDirectoryId := Uuid.nil
  lastOffsetEpoch := 0
  lastOffset := 0
  preVote := false

def requestOf (p : VotePartition) : WireVoteRequest := ⟨none, 1, [⟨metadataTopic, [p]⟩]⟩

/-- The first write fails and the second succeeds, and the vote is on disk. -/
theorem granted_vote_durable_second_write :
    let io : Nat → WriteOutcome := fun i => if i = 0 then .failed else .written
    (fresh.answerVote io (requestOf (candidacy 2)) .empty 0).1.voteGranted = true ∧
      Carries (fresh.answerVote io (requestOf (candidacy 2)) .empty 0).2.file 1 ⟨2, Uuid.nil⟩ := by
  intro io
  have hgranted :
      (fresh.answerVote io (requestOf (candidacy 2)) .empty 0).1.voteGranted = true := by
    decide
  refine ⟨hgranted, (granted_vote_durable_iff (p := candidacy 2) rfl rfl hgranted).1.mpr (.inl ?_)⟩
  decide

/-- Every write fails: voter 1 grants candidate 2 in epoch 1, nothing is on disk,
and after a restart it grants candidate 3 in the same epoch. -/
theorem granted_vote_lost : let io : Nat → WriteOutcome := fun _ => .failed
    let answered := fresh.answerVote io (requestOf (candidacy 2)) .empty 0
    answered.1.voteGranted = true ∧ ¬Carries answered.2.file 1 ⟨2, Uuid.nil⟩ ∧
      loadQuorumState answered.2.file 7 (.ofIds [1, 2, 3]) = .ok none ∧
      (fresh.answerVote io (requestOf (candidacy 3)) .empty 0).1.voteGranted = true := by
  intro io answered
  have hfile : answered.2.file = none := by decide
  refine ⟨by decide, ?_, by rw [hfile]; rfl, by decide⟩
  rintro ⟨record, hrecord, -⟩
  rw [hfile] at hrecord
  cases hrecord

end StoredEngine

end Krabka.Raft

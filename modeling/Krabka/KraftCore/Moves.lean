import Krabka.KraftCore.Machine

/-!
# What one operation can do

The handlers of the quorum state machine call each other: an election timeout
can follow the abandoned leader again, or begin a pre-vote round that a lone
voter wins at once, twice in a row.  `Move` lists the single changes that the
handlers are made of, each with the guards under which the source reaches it,
and `Moves` is a sequence of them.  `run_moves` says that every operation is a
sequence of moves, so an invariant of the machine is one case for each move.

The guards that read the operation itself, such as the epoch of the answered
request, are kept on the moves that need them.
-/

namespace Krabka.KraftCore

namespace QuorumStateMachine

/-- A rejection of a newer epoch, which `handle_vote_response` follows whether
or not this replica is a voter. -/
def Op.IsNewerRejection (m : QuorumStateMachine) : Op → Prop
  | .event (.receiveVoteResponse _ epoch granted) _ _ =>
    granted = false ∧ m.state.leaderEpoch < epoch
  | _ => False

/-- An `EndQuorumEpoch` that is not stale. -/
def Op.IsCurrentEnd (m : QuorumStateMachine) : Op → Prop
  | .event (.receiveEndQuorumEpoch _ epoch _) _ _ => m.state.leaderEpoch ≤ epoch
  | _ => False

/-- One change of the machine inside the operation `op`, with the actions it
emits. -/
inductive Move (op : Op) :
    QuorumStateMachine → QuorumStateMachine → List Action → Prop
  | deny {m r log now} (hop : op = .event (.receiveVoteRequest r) log now) :
      Move op m m [.replyVote r.fromId m.state.leaderEpoch false]
  | grantPreVote {m r log now} (hop : op = .event (.receiveVoteRequest r) log now)
      (hpre : r.preVote = true) (hepoch : r.candidateEpoch = m.state.leaderEpoch)
      (hvoter : m.isVoter = true) :
      Move op m m [.replyVote r.fromId m.state.leaderEpoch true]
  | castVote {m r log now} (hop : op = .event (.receiveVoteRequest r) log now)
      (hpre : r.preVote = false) (hepoch : r.candidateEpoch = m.state.leaderEpoch)
      (hvoter : m.isVoter = true)
      (hkey : m.currentOrAdjacentVoterKey r.candidateKey = true)
      (hcan : m.canGrantVote r.candidateKey (logUpToDate log r.candidateLogEnd) false = true) :
      Move op m (m.castVote r.candidateKey now).1
        ((m.castVote r.candidateKey now).2 ++
          [.replyVote r.fromId m.state.leaderEpoch true])
  | newEpoch {m epoch deadline} (hlt : m.state.leaderEpoch < epoch)
      (hvoter : m.isVoter = true ∨ op.IsNewerRejection m) :
      Move op m (m.transitionToUnattached epoch deadline).1
        (m.transitionToUnattached epoch deadline).2
  | endAsNonVoter {m deadline} (hop : op.IsCurrentEnd m) (hvoter : m.isVoter = false) :
      Move op m (m.transitionToUnattached m.state.leaderEpoch deadline).1
        (m.transitionToUnattached m.state.leaderEpoch deadline).2
  | follow {m leaderId leaderEpoch now}
      (hmember : m.membershipKnown = false ∨ m.currentOrAdjacentVoter leaderId = true)
      (hepoch : m.state.leaderEpoch < leaderEpoch ∨
        leaderEpoch = m.state.leaderEpoch ∧ m.state.leaderId = none)
      (hcause : (∃ log, op = .event (.receiveBeginQuorumEpoch leaderId leaderEpoch) log now) ∨
        ∃ granted rejected deadline, leaderEpoch = m.state.leaderEpoch ∧
          m.role = .prospective granted rejected deadline (some leaderId)) :
      Move op m (m.follow leaderId leaderEpoch now).1 (m.follow leaderId leaderEpoch now).2
  | loseRound {m granted rejected deadline deadline'}
      (hrole : m.role = .prospective granted rejected deadline none) :
      Move op m (m.awaitElection deadline').1 (m.awaitElection deadline').2
  | endAsVoter {m deadline} (hop : op.IsCurrentEnd m) (hvoter : m.isVoter = true) :
      Move op m
        ({ m with state := { m.state with leaderId := none } }.awaitElection deadline).1
        ({ m with state := { m.state with leaderId := none } }.awaitElection deadline).2
  | becomeProspective {m now} (hvoter : m.isVoter = true) :
      Move op m (m.becomeProspective now).1 (m.becomeProspective now).2
  | becomeCandidate {m granted rejected deadline abandoned now}
      (hrole : m.role = .prospective granted rejected deadline abandoned)
      (htally : m.tallyReachedMajority = true) :
      Move op m (m.becomeCandidate now).1 (m.becomeCandidate now).2
  | promoteToLeader {m granted deadline log now}
      (hlog : ∃ event, op = .event event log now)
      (hrole : m.role = .candidate granted deadline)
      (htally : m.tallyReachedMajority = true) :
      Move op m (m.promoteToLeader log now).1 (m.promoteToLeader log now).2
  | resign {m now} (hleader : m.role.isLeader = true) :
      Move op m (m.transitionToResigned now).1 (m.transitionToResigned now).2
  | finishRemoval {m now} (hvoter : m.isVoter = false) (hleader : m.role.isLeader = true) :
      Move op m (m.finishLocalLeaderRemoval now).1 (m.finishLocalLeaderRemoval now).2
  | discover {m epoch votedKey now} (hvoter : m.isVoter = false)
      (hepoch : epoch = m.state.leaderEpoch ∧ votedKey = m.state.votedKey ∨
        m.state.leaderEpoch < epoch ∧ votedKey = none) :
      Move op m
        ({ m with state := { m.state with leaderEpoch := epoch, votedKey := votedKey }
          }.becomeDiscoveringObserver now).1
        ({ m with state := { m.state with leaderEpoch := epoch, votedKey := votedKey }
          }.becomeDiscoveringObserver now).2
  | recordGrant {m fromId epoch log now}
      (hop : op = .event (.receiveVoteResponse fromId epoch true) log now)
      (hepoch : epoch = m.state.leaderEpoch) :
      Move op m (m.recordGrant fromId) []
  | recordRejection {m granted rejected deadline abandoned} (fromId : NodeId)
      (hrole : m.role = .prospective granted rejected deadline abandoned) :
      Move op m
        { m with role :=
          .prospective (granted.erase fromId) (insert fromId rejected) deadline abandoned } []
  | contact {m fromId now} (hleader : m.role.isLeader = true) :
      Move op m (m.recordQuorumContact fromId now).1 (m.recordQuorumContact fromId now).2
  | diverge {m fromId fetchEpoch fetchOffset log now}
      (hop : op = .event (.receiveFetch fromId fetchEpoch fetchOffset) log now)
      (hleader : m.role.isLeader = true)
      (hdiv : fetchDiverges log fetchEpoch fetchOffset = true) :
      Move op m m [.replyDivergingEpoch (log.endOffsetForEpoch fetchEpoch)]
  | progress {m fromId fetchEpoch fetchOffset log now}
      (hop : op = .event (.receiveFetch fromId fetchEpoch fetchOffset) log now)
      (hleader : m.role.isLeader = true)
      (hdiv : fetchDiverges log fetchEpoch fetchOffset = false) :
      Move op m (m.recordProgress log.endOffset fromId fetchOffset now).1
        (m.recordProgress log.endOffset fromId fetchOffset now).2
  | fetched {m leaderId leaderEpoch diverging log now}
      (hop : op = .event (.receiveFetchResponse leaderId leaderEpoch diverging) log now) :
      Move op m (m.handleFetchResponse log leaderId leaderEpoch diverging now).1
        (m.handleFetchResponse log leaderId leaderEpoch diverging now).2
  | applyVoterSet {m voters now} (hop : op = .applyVoterSet voters now) :
      Move op m (m.applyVoterSet voters now).1 (m.applyVoterSet voters now).2
  | commitVoterSet {m} (hop : op = .commitVoterSet) : Move op m m.commitVoterSet []
  | setKraftVersion {m version} (hop : op = .setKraftVersion version) :
      Move op m (m.setKraftVersion version) []
  | adoptReplicaProgress {m id progress} (hop : op = .adoptReplicaProgress id progress) :
      Move op m (m.adoptReplicaProgress id progress) []

/-- A sequence of moves inside one operation, with all their actions. -/
inductive Moves (op : Op) :
    QuorumStateMachine → QuorumStateMachine → List Action → Prop
  | nil {m} : Moves op m m []
  | cons {m m' m'' as bs} (head : Move op m m' as) (tail : Moves op m' m'' bs) :
      Moves op m m'' (as ++ bs)

variable {op : Op} {m m' m'' : QuorumStateMachine} {as bs : List Action}

theorem Moves.single (h : Move op m m' as) : Moves op m m' as := by
  simpa using Moves.cons h .nil

theorem Moves.append (h : Moves op m m' as) (h' : Moves op m' m'' bs) :
    Moves op m m'' (as ++ bs) := by
  induction h with
  | nil => exact h'
  | cons head _ ih =>
    rw [List.append_assoc]
    exact .cons head (ih h')

theorem Moves.silent (head : Move op m m' []) (tail : Moves op m' m'' bs) : Moves op m m'' bs :=
  .cons head tail

theorem Moves.exists_move (h : Moves op m m' as) {a : Action} (ha : a ∈ as) :
    ∃ m₁ m₂ bs, Move op m₁ m₂ bs ∧ a ∈ bs := by
  induction h with
  | nil => cases ha
  | cons head _ ih =>
    rcases List.mem_append.mp ha with ha | ha
    · exact ⟨_, _, _, head, ha⟩
    · exact ih ha

/-! ## The handlers as moves -/

variable {now : Nat}

theorem handleBeginQuorumEpoch_moves {leaderId : NodeId} {leaderEpoch : Nat}
    (hcause : (∃ log, op = .event (.receiveBeginQuorumEpoch leaderId leaderEpoch) log now) ∨
      ∃ granted rejected deadline, leaderEpoch = m.state.leaderEpoch ∧
        m.role = .prospective granted rejected deadline (some leaderId)) :
    Moves op m (m.handleBeginQuorumEpoch leaderId leaderEpoch now).1
      (m.handleBeginQuorumEpoch leaderId leaderEpoch now).2 := by
  unfold handleBeginQuorumEpoch
  split_ifs with hmember hepoch
  · exact .nil
  · refine .single (.follow ?_ ?_ hcause)
    · by_contra hcontra
      simp_all
    · simpa using hepoch
  · exact .nil

variable {event : Event} {log : LogView}

theorem promoteToCandidate_moves {granted rejected : Finset NodeId} {deadline : Nat}
    {abandoned : Option NodeId} (hop : op = .event event log now)
    (hrole : m.role = .prospective granted rejected deadline abandoned)
    (htally : m.tallyReachedMajority = true) :
    Moves op m (m.promoteToCandidate log now).1 (m.promoteToCandidate log now).2 := by
  have hfirst : Move op m (m.becomeCandidate now).1 (m.becomeCandidate now).2 :=
    .becomeCandidate hrole htally
  unfold promoteToCandidate
  dsimp only
  split_ifs with hwon
  · exact .cons hfirst (.single (.promoteToLeader ⟨event, hop⟩ rfl hwon))
  · exact .single hfirst

theorem startElection_moves (hop : op = .event event log now) (hvoter : m.isVoter = true) :
    Moves op m (m.startElection log now).1 (m.startElection log now).2 := by
  have hfirst : Move op m (m.becomeProspective now).1 (m.becomeProspective now).2 :=
    .becomeProspective hvoter
  unfold startElection
  dsimp only
  split_ifs with hwon
  · exact .cons hfirst (promoteToCandidate_moves hop rfl hwon)
  · exact .single hfirst

theorem handleElectionTimeout_moves (hop : op = .event event log now) :
    Moves op m (m.handleElectionTimeout log now).1 (m.handleElectionTimeout log now).2 := by
  unfold handleElectionTimeout
  split_ifs with hvoter
  · exact .nil
  have hstart := startElection_moves (m := m) hop (by simpa using hvoter)
  split
  · rename_i granted rejected deadline leaderId hrole
    dsimp only
    split_ifs with hfollowed
    · exact handleBeginQuorumEpoch_moves (.inr ⟨_, _, _, rfl, hrole⟩)
    · exact hstart
  · exact hstart

variable {fromId : NodeId} {epoch : Nat}

theorem recordPreVoteRejection_moves :
    Moves op m (m.recordPreVoteRejection fromId epoch now).1
      (m.recordPreVoteRejection fromId epoch now).2 := by
  unfold recordPreVoteRejection
  split_ifs with hstale
  · exact .nil
  have hepoch : epoch = m.state.leaderEpoch := by
    by_contra h
    simp [h] at hstale
  split
  · rename_i granted rejected deadline abandoned hrole
    have hrec : Move op m _ [] := .recordRejection fromId hrole
    dsimp only
    split_ifs with hopen
    · exact .single hrec
    · cases abandoned with
      | some leaderId =>
        exact Moves.silent hrec (handleBeginQuorumEpoch_moves (.inr ⟨_, _, _, hepoch, rfl⟩))
      | none => exact Moves.silent hrec (.single (.loseRound rfl))
  · exact .nil

theorem handleVoteResponse_moves {granted : Bool}
    (hop : op = .event (.receiveVoteResponse fromId epoch granted) log now) :
    Moves op m (m.handleVoteResponse log fromId epoch granted now).1
      (m.handleVoteResponse log fromId epoch granted now).2 := by
  unfold handleVoteResponse
  split_ifs with hnewer hrefused hstale
  · obtain ⟨hrefused, hlt⟩ : granted = false ∧ m.state.leaderEpoch < epoch := by
      simpa using hnewer
    refine .single (.newEpoch hlt (.inr ?_))
    rw [hop]
    exact ⟨hrefused, hlt⟩
  · exact recordPreVoteRejection_moves
  · exact .nil
  have hepoch : epoch = m.state.leaderEpoch := by simpa using hstale
  have hgranted : granted = true := by simpa using hrefused
  have hrec : Move op m (m.recordGrant fromId) [] :=
    .recordGrant (hgranted ▸ hop) hepoch
  split
  · rename_i g r d a hrole
    have hrole' : ∃ g r d a, (m.recordGrant fromId).role = .prospective g r d a := by
      unfold recordGrant
      split_ifs
      · exact ⟨_, _, _, _, hrole⟩
      · simp [hrole]
    obtain ⟨_, _, _, _, hrole'⟩ := hrole'
    dsimp only
    split_ifs with hwon
    · exact Moves.silent hrec (promoteToCandidate_moves hop hrole' hwon)
    · exact .single hrec
  · rename_i g d hrole
    have hrole' : ∃ g d, (m.recordGrant fromId).role = .candidate g d := by
      unfold recordGrant
      split_ifs
      · exact ⟨_, _, hrole⟩
      · simp [hrole]
    obtain ⟨_, _, hrole'⟩ := hrole'
    dsimp only
    split_ifs with hwon
    · exact Moves.silent hrec (.single (.promoteToLeader ⟨_, hop⟩ hrole' hwon))
    · exact .single hrec
  · exact .nil

theorem handleEndQuorumEpoch_moves {leaderId : NodeId} {leaderEpoch : Nat} {rank : SuccessorRank}
    (hop : op = .event (.receiveEndQuorumEpoch leaderId leaderEpoch rank) log now) :
    Moves op m (m.handleEndQuorumEpoch log leaderEpoch rank now).1
      (m.handleEndQuorumEpoch log leaderEpoch rank now).2 := by
  unfold handleEndQuorumEpoch
  split_ifs with hstale hvoter
  · exact .nil
  · refine .single (.endAsNonVoter ?_ (by simpa using hvoter))
    rw [hop]
    exact not_lt.mp hstale
  dsimp only
  split_ifs with hfirst
  · exact startElection_moves hop (by simpa using hvoter)
  · refine .single (.endAsVoter ?_ (by simpa using hvoter))
    rw [hop]
    exact not_lt.mp hstale

theorem recordQuorumContact_isLeader (h : m.role.isLeader = true) :
    (m.recordQuorumContact fromId now).1.role.isLeader = true := by
  unfold recordQuorumContact
  split_ifs
  · exact h
  · split
    · dsimp only
      split_ifs <;> rfl
    · exact h

theorem handleFetch_moves {fetchEpoch : Nat} {fetchOffset : Int}
    (hop : op = .event (.receiveFetch fromId fetchEpoch fetchOffset) log now) :
    Moves op m (m.handleFetch log fromId fetchEpoch fetchOffset now).1
      (m.handleFetch log fromId fetchEpoch fetchOffset now).2 := by
  unfold handleFetch
  split_ifs with hrole hdiv
  · exact .nil
  · exact .cons (.contact (by simpa using hrole))
      (.single (.diverge hop (recordQuorumContact_isLeader (by simpa using hrole)) hdiv))
  · exact .cons (.contact (by simpa using hrole))
      (.single (.progress hop (recordQuorumContact_isLeader (by simpa using hrole))
        (by simpa using hdiv)))

theorem advanceEpochForVote_moves {candidate : ReplicaKey} :
    Moves op m (m.advanceEpochForVote candidate epoch now).1
      (m.advanceEpochForVote candidate epoch now).2 := by
  unfold advanceEpochForVote
  split_ifs with h
  · simp only [Bool.and_eq_true, decide_eq_true_eq] at h
    exact .single (.newEpoch h.1.1 (.inl h.1.2))
  · exact .nil

theorem admitVote_consider {r : VoteRequest} (h : m.admitVote r = .consider) :
    m.isVoter = true ∧ m.currentOrAdjacentVoterKey r.candidateKey = true := by
  unfold admitVote voteAdmissionDecision at h
  split_ifs at h with _ hmember
  simp only [Bool.or_eq_true, not_or, Bool.not_eq_true, Bool.not_eq_false'] at hmember
  exact ⟨hmember.1.2, hmember.2⟩

theorem advanceEpochForVote_spec {candidate : ReplicaKey} (now : Nat)
    (hvoter : m.isVoter = true) (hkey : m.currentOrAdjacentVoterKey candidate = true)
    (hle : m.state.leaderEpoch ≤ epoch) :
    (m.advanceEpochForVote candidate epoch now).1.state.leaderEpoch = epoch ∧
      (m.advanceEpochForVote candidate epoch now).1.isVoter = true ∧
      (m.advanceEpochForVote candidate epoch now).1.currentOrAdjacentVoterKey candidate = true := by
  unfold advanceEpochForVote
  split_ifs with h
  · exact ⟨rfl, hvoter, hkey⟩
  · have hnot : ¬ m.state.leaderEpoch < epoch := by
      simpa [hvoter, hkey] using h
    exact ⟨le_antisymm hle (not_lt.mp hnot), hvoter, hkey⟩

theorem handleVoteRequest_moves {r : VoteRequest}
    (hop : op = .event (.receiveVoteRequest r) log now) :
    Moves op m (m.handleVoteRequest r log now).1 (m.handleVoteRequest r log now).2 := by
  unfold handleVoteRequest
  split
  · exact .nil
  · exact .single (.deny hop)
  rename_i hconsider
  obtain ⟨hvoter, hkey⟩ := admitVote_consider hconsider
  split_ifs with hfenced
  · exact .single (.deny hop)
  obtain ⟨hepoch, hvoter', hkey'⟩ :=
    advanceEpochForVote_spec now hvoter hkey (not_lt.mp hfenced)
  have hadvance : Moves op m (m.advanceEpochForVote r.candidateKey r.candidateEpoch now).1
      (m.advanceEpochForVote r.candidateKey r.candidateEpoch now).2 :=
    advanceEpochForVote_moves
  dsimp only
  generalize m.advanceEpochForVote r.candidateKey r.candidateEpoch now = advanced at *
  generalize hgranted : advanced.1.canGrantVote r.candidateKey
    (logUpToDate log r.candidateLogEnd) r.preVote = granted
  rw [List.append_assoc]
  refine hadvance.append (.single ?_)
  split_ifs with hbinding
  · -- The binding vote is cast in the epoch of the request.
    obtain ⟨rfl, hpre⟩ : granted = true ∧ r.preVote = false := by simpa using hbinding
    exact .castVote hop hpre hepoch.symm hvoter' hkey' (hpre ▸ hgranted)
  · cases granted with
    | false => exact .deny hop
    | true => exact .grantPreVote hop (by simpa using hbinding) hepoch.symm hvoter'

/-- **Every operation is a sequence of moves.** -/
theorem run_moves (m : QuorumStateMachine) (op : Op) : Moves op m (m.run op).1 (m.run op).2 := by
  cases op with
  | event event log now =>
    cases event with
    | electionTimeout => exact handleElectionTimeout_moves rfl
    | fetchTimeout =>
      show Moves _ m (m.handleFetchTimeout log now).1 (m.handleFetchTimeout log now).2
      unfold handleFetchTimeout
      split_ifs with hvoter
      · exact startElection_moves rfl hvoter
      · exact .single (.discover (by simpa using hvoter) (.inl ⟨rfl, rfl⟩))
    | checkQuorumTimeout =>
      show Moves _ m (m.handleCheckQuorumTimeout now).1 (m.handleCheckQuorumTimeout now).2
      unfold handleCheckQuorumTimeout
      split_ifs with hskip
      · exact .nil
      · exact .single (.resign (by simp at hskip; exact hskip.1))
    | receiveVoteRequest r => exact handleVoteRequest_moves rfl
    | receiveVoteResponse fromId epoch granted => exact handleVoteResponse_moves rfl
    | receiveBeginQuorumEpoch leaderId epoch =>
      exact handleBeginQuorumEpoch_moves (.inl ⟨log, rfl⟩)
    | receiveEndQuorumEpoch leaderId epoch rank => exact handleEndQuorumEpoch_moves rfl
    | receiveFetch fromId epoch offset => exact handleFetch_moves rfl
    | receiveFetchSnapshot fromId =>
      show Moves _ m (m.handleFetchSnapshot fromId now).1 (m.handleFetchSnapshot fromId now).2
      unfold handleFetchSnapshot
      split_ifs with hrole
      · exact .nil
      · exact .single (.contact (by simpa using hrole))
    | receiveFetchResponse leaderId epoch diverging => exact .single (.fetched rfl)
    | receiveLeaderlessEpoch epoch =>
      show Moves _ m (m.handleLeaderlessEpoch epoch now).1 (m.handleLeaderlessEpoch epoch now).2
      unfold handleLeaderlessEpoch
      split_ifs with hstale hvoter
      · exact .nil
      · exact .single (.newEpoch (not_le.mp hstale) (.inl hvoter))
      · exact .single (.discover (by simpa using hvoter) (.inr ⟨not_le.mp hstale, rfl⟩))
  | applyVoterSet voters now => exact .single (.applyVoterSet rfl)
  | commitVoterSet => exact .single (.commitVoterSet rfl)
  | setKraftVersion version => exact .single (.setKraftVersion rfl)
  | advanceEpochForVote candidate epoch now => exact advanceEpochForVote_moves
  | resignForShutdown now =>
    show Moves _ m (m.resignForShutdown now).1 (m.resignForShutdown now).2
    unfold resignForShutdown
    split_ifs with hskip
    · exact .single (.resign (by simp at hskip; exact hskip.1))
    · exact .nil
  | finishLocalLeaderRemoval now =>
    by_cases hskip : m.isVoter = true ∨ m.role.isLeader = false
    · have hnone : m.finishLocalLeaderRemoval now = (m, []) := by
        rw [finishLocalLeaderRemoval, if_pos (by simpa using hskip)]
      show Moves _ m (m.finishLocalLeaderRemoval now).1 (m.finishLocalLeaderRemoval now).2
      rw [hnone]
      exact .nil
    · simp only [not_or, Bool.not_eq_true, Bool.not_eq_false] at hskip
      exact .single (.finishRemoval hskip.1 hskip.2)
  | adoptReplicaProgress id progress => exact .single (.adoptReplicaProgress rfl)

end QuorumStateMachine

end Krabka.KraftCore

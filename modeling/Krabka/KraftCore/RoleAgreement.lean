import Krabka.KraftCore.Votes

/-!
# Role and durable state agree

A machine holds its role beside its `QuorumState`, and the handlers update the
two separately.  `RoleAgrees` is what the two owe each other.

`RoleInv` is the invariant behind it, read off the role: which roles only a
voter takes, and which leader the state names in each role.  Each transition of
the source establishes it under the guard it needs, and the handlers are put
together from the transitions.

Three operations break the agreement, and `Breaks` lists them: a current
`EndQuorumEpoch` and a newer-epoch vote rejection, which leave a replica
outside the voter set `Unattached`, and the end of a pre-vote round whose
abandoned leader is the replica itself, which then follows itself.
-/

namespace Krabka.KraftCore

namespace QuorumStateMachine

variable (m : QuorumStateMachine)

def VotedForItself : Prop :=
  ∃ key, m.state.votedKey = some key ∧ key.id = m.me

structure RoleAgrees (m : QuorumStateMachine) : Prop where
  leader_iff : m.state.leaderId = some m.me ↔ m.role.isLeader = true
  follower : ∀ l d b, m.role = .follower l d b → m.state.leaderId = some l ∧ l ≠ m.me
  observer : ∀ l d, m.role = .observer (some l) d → m.state.leaderId = some l ∧ l ≠ m.me
  nonVoter : m.isVoter = false →
    m.role.isLeader = true ∨ ∃ l d, m.role = .observer l d
  voted : m.role.isCandidate = true ∨ m.role.isLeader = true → m.VotedForItself

/-- What each role says about the state. -/
def RoleInv : Prop :=
  match m.role with
  | .unattached _ | .voted _ | .prospective .. | .resigned =>
    m.isVoter = true ∧ m.state.leaderId = none
  | .candidate .. => m.isVoter = true ∧ m.state.leaderId = none ∧ m.VotedForItself
  | .leader _ => m.state.leaderId = some m.me ∧ m.VotedForItself
  | .follower l _ _ => m.isVoter = true ∧ m.state.leaderId = some l ∧ l ≠ m.me
  | .observer l _ => m.isVoter = false ∧ m.state.leaderId = l ∧ l ≠ some m.me

variable {m : QuorumStateMachine}

theorem RoleInv.agrees (h : m.RoleInv) : m.RoleAgrees := by
  unfold RoleInv at h
  cases hrole : m.role <;> simp only [hrole] at h
  case unattached d | voted d | resigned | prospective g r d a =>
    constructor <;> simp [hrole, h, Role.isLeader, Role.isCandidate]
  case candidate g d =>
    constructor <;> simp [hrole, h, Role.isLeader, Role.isCandidate]
  case leader f =>
    constructor <;> simp [hrole, h, Role.isLeader, Role.isCandidate]
  case follower l d b =>
    constructor <;> simp [hrole, h, Role.isLeader, Role.isCandidate]
  case observer l d =>
    obtain ⟨hvoter, rfl, hother⟩ := h
    refine ⟨?_, by simp [hrole], ?_, fun _ => .inr ⟨_, _, hrole⟩, ?_⟩
    · simp [hrole, Role.isLeader, hother]
    · intro l' d' h
      rw [hrole] at h
      injection h with hl _
      exact ⟨hl, fun heq => hother (heq ▸ hl)⟩
    · simp [hrole, Role.isLeader, Role.isCandidate]

/-! ## The transitions -/

variable {epoch deadline : Nat}

theorem roleInv_transitionToUnattached (hvoter : m.isVoter = true) :
    (m.transitionToUnattached epoch deadline).1.RoleInv :=
  ⟨hvoter, rfl⟩

variable {leaderId now : Nat}

theorem roleInv_follow (hother : leaderId ≠ m.me) : (m.follow leaderId epoch now).1.RoleInv := by
  by_cases hvoter : m.isVoter = true
  · have hrole : (m.follow leaderId epoch now).1.role =
        .follower leaderId (m.fetchDeadline now) false := if_pos hvoter
    unfold RoleInv
    rw [hrole]
    exact ⟨hvoter, rfl, hother⟩
  · have hrole : (m.follow leaderId epoch now).1.role =
        .observer (some leaderId) (m.fetchDeadline now) := if_neg hvoter
    unfold RoleInv
    rw [hrole]
    exact ⟨(Bool.not_eq_true _).mp hvoter, rfl, fun h => hother (Option.some.inj h)⟩

theorem roleInv_awaitElection (hvoter : m.isVoter = true)
    (hleader : m.state.leaderId = none) : (m.awaitElection deadline).1.RoleInv := by
  unfold awaitElection RoleInv
  dsimp only
  split_ifs <;> exact ⟨hvoter, hleader⟩

theorem roleInv_becomeDiscoveringObserver (hvoter : m.isVoter = false) :
    (m.becomeDiscoveringObserver now).1.RoleInv :=
  ⟨hvoter, rfl, by simp⟩

theorem roleInv_transitionToResigned : (m.transitionToResigned now).1.RoleInv := by
  by_cases hvoter : m.isVoter = true
  · have hrole : (m.transitionToResigned now).1.role = .resigned := if_pos hvoter
    unfold RoleInv
    rw [hrole]
    exact ⟨hvoter, rfl⟩
  · have hrole : (m.transitionToResigned now).1.role =
        .observer none (m.fetchDeadline now) := if_neg hvoter
    unfold RoleInv
    rw [hrole]
    exact ⟨(Bool.not_eq_true _).mp hvoter, rfl, by simp⟩

theorem roleInv_promoteToLeader (log : LogView) (now : Nat) (hvoted : m.VotedForItself) :
    (m.promoteToLeader log now).1.RoleInv :=
  ⟨rfl, hvoted⟩

variable {log : LogView}

theorem roleInv_promoteToCandidate (hvoter : m.isVoter = true) :
    (m.promoteToCandidate log now).1.RoleInv := by
  have hvoted : (m.becomeCandidate now).1.VotedForItself := ⟨_, rfl, rfl⟩
  unfold promoteToCandidate
  dsimp only
  split_ifs with hwon
  · exact roleInv_promoteToLeader log now hvoted
  · exact ⟨hvoter, rfl, hvoted⟩

theorem roleInv_startElection (hvoter : m.isVoter = true) :
    (m.startElection log now).1.RoleInv := by
  unfold startElection
  dsimp only
  split_ifs with hwon
  · exact roleInv_promoteToCandidate hvoter
  · exact ⟨hvoter, rfl⟩

/-! ## The handlers -/

theorem RoleInv.ofLeader {m' : QuorumStateMachine} (h : m.RoleInv)
    (hstate : m'.state = m.state) (hme : m'.me = m.me)
    (hrole : m'.role = m.role ∨ (m.role.isLeader = true ∧ m'.role.isLeader = true)) :
    m'.RoleInv := by
  have hvoter : m'.isVoter = m.isVoter := by
    unfold isVoter
    rw [hstate, hme]
  have hvoted : m'.VotedForItself ↔ m.VotedForItself := by
    unfold VotedForItself
    rw [hstate, hme]
  rcases hrole with hsame | ⟨hlead, hlead'⟩
  · unfold RoleInv at h ⊢
    rwa [hsame, hstate, hme, hvoter, hvoted]
  · cases hrole : m.role <;> rw [hrole] at hlead <;> cases hlead
    cases hrole' : m'.role <;> rw [hrole'] at hlead' <;> cases hlead'
    simp only [RoleInv, hrole] at h
    simp only [RoleInv, hrole', hstate, hme, hvoted]
    exact h

theorem RoleInv.handleBeginQuorumEpoch (h : m.RoleInv)
    (hother : leaderId ≠ m.me) : (m.handleBeginQuorumEpoch leaderId epoch now).1.RoleInv := by
  unfold QuorumStateMachine.handleBeginQuorumEpoch
  split_ifs
  · exact h
  · exact roleInv_follow hother
  · exact h

theorem RoleInv.of_prospective {g r : Finset NodeId} {d : Nat} {a : Option NodeId}
    (h : m.RoleInv) (hrole : m.role = .prospective g r d a) :
    m.isVoter = true ∧ m.state.leaderId = none := by
  unfold RoleInv at h
  rwa [hrole] at h

theorem RoleInv.handleElectionTimeout (h : m.RoleInv)
    (hother : ∀ g r d, m.role ≠ .prospective g r d (some m.me)) :
    (m.handleElectionTimeout log now).1.RoleInv := by
  unfold QuorumStateMachine.handleElectionTimeout
  split_ifs with hvoter
  · exact h
  have hstart : (m.startElection log now).1.RoleInv := roleInv_startElection (by simpa using hvoter)
  split
  · rename_i g r d leaderId hrole
    dsimp only
    split_ifs
    · exact h.handleBeginQuorumEpoch (fun heq => hother g r d (heq ▸ hrole))
    · exact hstart
  · exact hstart

theorem RoleInv.recordPreVoteRejection {fromId : Nat} (h : m.RoleInv)
    (hother : ∀ g r d, m.role = .prospective g r d (some m.me) → epoch = m.state.leaderEpoch →
      m.state.voters.contains fromId = true →
      m.roundLost (g.erase fromId) (insert fromId r) = false) :
    (m.recordPreVoteRejection fromId epoch now).1.RoleInv := by
  unfold QuorumStateMachine.recordPreVoteRejection
  split_ifs with hskip
  · exact h
  simp only [Bool.or_eq_true, decide_eq_true_eq, Bool.not_eq_true', not_or, not_not,
    Bool.not_eq_false] at hskip
  split
  · rename_i g r d a hrole
    obtain ⟨hvoter, hleader⟩ := h.of_prospective hrole
    have hround : { m with
        role := .prospective (g.erase fromId) (insert fromId r) d a }.RoleInv :=
      ⟨hvoter, hleader⟩
    dsimp only
    split_ifs with hopen
    · exact hround
    · cases a with
      | none => exact roleInv_awaitElection hvoter hleader
      | some leaderId =>
        refine hround.handleBeginQuorumEpoch (fun heq => ?_)
        have hlost : m.roundLost (g.erase fromId) (insert fromId r) = false :=
          hother g r d (heq ▸ hrole) hskip.1 hskip.2
        exact hopen (congrArg (fun b => !b) hlost)
  · exact h

theorem RoleInv.recordGrant {fromId : NodeId} (h : m.RoleInv) : (m.recordGrant fromId).RoleInv := by
  unfold QuorumStateMachine.recordGrant
  split_ifs
  · exact h
  · unfold RoleInv at h
    cases hrole : m.role <;> simp only [hrole] at h ⊢
    case prospective => exact h
    case candidate => exact h
    all_goals simpa only [RoleInv, hrole] using h

theorem RoleInv.handleVoteResponse {fromId : Nat} {granted : Bool} (h : m.RoleInv)
    (hnewer : granted = false → m.state.leaderEpoch < epoch → m.isVoter = true)
    (hother : granted = false → ∀ g r d, m.role = .prospective g r d (some m.me) →
      epoch = m.state.leaderEpoch → m.state.voters.contains fromId = true →
      m.roundLost (g.erase fromId) (insert fromId r) = false) :
    (m.handleVoteResponse log fromId epoch granted now).1.RoleInv := by
  have hrec : (m.recordGrant fromId).RoleInv := h.recordGrant
  unfold QuorumStateMachine.handleVoteResponse
  split_ifs with hfence hrefused hstale
  · simp only [Bool.and_eq_true, Bool.not_eq_true', decide_eq_true_eq] at hfence
    exact roleInv_transitionToUnattached (hnewer hfence.1 hfence.2)
  · exact h.recordPreVoteRejection (hother (by simpa using hrefused))
  · exact h
  split
  · rename_i g r d a hrole
    have hvoter : (m.recordGrant fromId).isVoter = true := by
      rcases recordGrant_cases (m := m) fromId with heq | ⟨_, _, _, _, _, heq⟩ | ⟨_, _, _, heq⟩ <;>
        rw [heq] <;> exact (h.of_prospective hrole).1
    dsimp only
    split_ifs
    · exact roleInv_promoteToCandidate hvoter
    · exact hrec
  · rename_i g d hrole
    have hvoted : m.VotedForItself := by
      unfold RoleInv at h
      rw [hrole] at h
      exact h.2.2
    dsimp only
    split_ifs
    · refine roleInv_promoteToLeader log now ?_
      rcases recordGrant_cases (m := m) fromId with heq | ⟨_, _, _, _, _, heq⟩ | ⟨_, _, _, heq⟩ <;>
        rw [heq] <;> exact hvoted
    · exact hrec
  · exact h

theorem RoleInv.handleVoteRequest {r : VoteRequest}
    (h : m.RoleInv) : (m.handleVoteRequest r log now).1.RoleInv := by
  unfold QuorumStateMachine.handleVoteRequest
  split
  · exact h
  · exact h
  rename_i hconsider
  obtain ⟨hvoter, hkey⟩ := admitVote_consider hconsider
  split_ifs with hfenced
  · exact h
  obtain ⟨-, hvoter', -⟩ := advanceEpochForVote_spec now hvoter hkey (not_lt.mp hfenced)
  have hadvanced : (m.advanceEpochForVote r.candidateKey r.candidateEpoch now).1.RoleInv := by
    unfold advanceEpochForVote
    split_ifs
    · exact roleInv_transitionToUnattached hvoter
    · exact h
  dsimp only
  generalize m.advanceEpochForVote r.candidateKey r.candidateEpoch now = advanced at *
  split_ifs with hbinding
  · -- Only a replica without a leader casts a binding vote.
    refine And.intro hvoter' ?_
    simp only [Bool.and_eq_true, Bool.not_eq_true'] at hbinding
    obtain ⟨hcan, hpre⟩ := hbinding
    unfold canGrantVote at hcan
    unfold RoleInv at hadvanced
    cases hrole : advanced.1.role <;> simp [hrole, hpre] at hcan hadvanced
    all_goals exact hadvanced.2
  · exact hadvanced

theorem RoleInv.handleEndQuorumEpoch {rank : SuccessorRank}
    (h : m.RoleInv) (hvoter : m.state.leaderEpoch ≤ epoch → m.isVoter = true) :
    (m.handleEndQuorumEpoch log epoch rank now).1.RoleInv := by
  unfold QuorumStateMachine.handleEndQuorumEpoch
  split_ifs with hstale hnon
  · exact h
  · have := hvoter (not_lt.mp hstale)
    simp [this] at hnon
  · dsimp only
    split_ifs
    · exact roleInv_startElection (hvoter (not_lt.mp hstale))
    · exact roleInv_awaitElection (hvoter (not_lt.mp hstale)) rfl

theorem RoleInv.applyVoterSet {voters : VoterSet} (h : m.RoleInv) :
    (m.applyVoterSet voters now).1.RoleInv := by
  rcases applyVoterSet_cases (m := m) voters now with ⟨f, f', hlead, heq⟩ | ⟨hlead, heq⟩
  · rw [heq]
    unfold RoleInv at h ⊢
    rw [hlead] at h
    exact h
  · have hnot : m.state.leaderId ≠ some m.me := by
      intro hself
      rw [h.agrees.leader_iff.mp hself] at hlead
      cases hlead
    obtain ⟨hstate, hme, -, hrole⟩ :=
      changeMembership_frame (m := m.withVoters voters) m.isVoter now
    rw [heq]
    generalize (m.withVoters voters).changeMembership m.isVoter now = changed at *
    have hvoter : changed.1.isVoter = (m.withVoters voters).isVoter := by
      unfold isVoter
      rw [hstate, hme]
    have hleader : changed.1.state.leaderId = m.state.leaderId := by
      rw [hstate]
      rfl
    have hvoted : changed.1.VotedForItself ↔ m.VotedForItself := by
      unfold VotedForItself
      rw [hstate, hme]
      rfl
    rcases hrole with ⟨hsame, hvoter'⟩ | ⟨hwas, hnow, d, hobs⟩ |
      ⟨hwas, hnow, ⟨l, d, hl, hfol⟩ | ⟨hl, d, hun⟩⟩
    · unfold RoleInv at h ⊢
      rw [hsame]
      rw [hme, hleader, hvoter, hvoter', hvoted]
      exact h
    · unfold RoleInv
      rw [hobs]
      exact ⟨hvoter.trans hnow, hleader, hme ▸ hnot⟩
    · unfold RoleInv
      rw [hfol]
      exact ⟨hvoter.trans hnow, hleader.trans hl,
        fun heq => hnot (hl.trans (congrArg some (heq.trans hme)))⟩
    · unfold RoleInv
      rw [hun]
      exact ⟨hvoter.trans hnow, hleader.trans hl⟩

theorem RoleInv.handleFetchResponse {diverging : Option LogOffsetMetadata} (h : m.RoleInv) :
    (m.handleFetchResponse log leaderId epoch diverging now).1.RoleInv := by
  obtain ⟨hstate, hme, -, hsame | ⟨l, d, b, hrole, hrole'⟩⟩ :=
    handleFetchResponse_frame (m := m) log leaderId epoch diverging now
  · exact h.ofLeader hstate hme (.inl hsame)
  · unfold RoleInv isVoter at h ⊢
    rw [hrole] at h
    rw [hrole', hstate, hme]
    exact h

/-! ## Any operation -/

/-- `BeginQuorumEpoch` events name another replica. -/
def NamesOther (m : QuorumStateMachine) : Op → Prop
  | .event (.receiveBeginQuorumEpoch leaderId _) _ _ => leaderId ≠ m.me
  | _ => True

/-- The refusal of `fromId` ends a pre-vote round whose abandoned leader is the
replica itself. -/
def LosesOwnRound (m : QuorumStateMachine) (fromId : NodeId) : Prop :=
  match m.role with
  | .prospective granted rejected _ abandoned =>
    abandoned = some m.me ∧ m.state.voters.contains fromId = true ∧
      m.roundLost (granted.erase fromId) (insert fromId rejected) = true
  | _ => False

/-- The replica runs a pre-vote round whose abandoned leader is itself. -/
def AbandonedItself (m : QuorumStateMachine) : Prop :=
  match m.role with
  | .prospective _ _ _ abandoned => abandoned = some m.me
  | _ => False

/-- The operations after which role and state disagree. -/
def Breaks (m : QuorumStateMachine) : Op → Prop
  | .event (.receiveEndQuorumEpoch _ epoch _) _ _ =>
    m.state.leaderEpoch ≤ epoch ∧ m.isVoter = false
  | .event (.receiveVoteResponse fromId epoch granted) _ _ =>
    granted = false ∧ (m.state.leaderEpoch < epoch ∧ m.isVoter = false ∨
      epoch = m.state.leaderEpoch ∧ m.LosesOwnRound fromId)
  | .event .electionTimeout _ _ => m.AbandonedItself
  | _ => False

/-- **One operation that does not break the agreement keeps it.** -/
theorem RoleInv.run {op : Op} (h : m.RoleInv) (hother : m.NamesOther op)
    (hbreaks : ¬m.Breaks op) : (m.run op).1.RoleInv := by
  cases op with
  | event event log now =>
    cases event with
    | electionTimeout =>
      refine h.handleElectionTimeout (fun g r d hrole => hbreaks ?_)
      simp [Breaks, AbandonedItself, hrole]
    | fetchTimeout =>
      show (m.handleFetchTimeout log now).1.RoleInv
      unfold handleFetchTimeout
      split_ifs with hvoter
      · exact roleInv_startElection hvoter
      · exact roleInv_becomeDiscoveringObserver (by simpa using hvoter)
    | checkQuorumTimeout =>
      show (m.handleCheckQuorumTimeout now).1.RoleInv
      unfold handleCheckQuorumTimeout
      split_ifs
      · exact h
      · exact roleInv_transitionToResigned
    | receiveVoteRequest r => exact h.handleVoteRequest
    | receiveVoteResponse fromId epoch granted =>
      refine h.handleVoteResponse ?_ ?_
      · intro hrefused hlt
        by_contra hvoter
        exact hbreaks ⟨hrefused, .inl ⟨hlt, by simpa using hvoter⟩⟩
      · intro hrefused g r d hrole hepoch hmem
        by_contra hlost
        refine hbreaks ⟨hrefused, .inr ⟨hepoch, ?_⟩⟩
        unfold LosesOwnRound
        rw [hrole]
        exact ⟨rfl, hmem, by simpa using hlost⟩
    | receiveBeginQuorumEpoch leaderId epoch => exact h.handleBeginQuorumEpoch hother
    | receiveEndQuorumEpoch leaderId epoch rank =>
      refine h.handleEndQuorumEpoch (fun hle => ?_)
      by_contra hvoter
      exact hbreaks ⟨hle, by simpa using hvoter⟩
    | receiveFetch fromId epoch offset =>
      show (m.handleFetch log fromId epoch offset now).1.RoleInv
      obtain ⟨hstate, hme, -, hrole⟩ := recordQuorumContact_frame (m := m) fromId now
      have hcontact : (m.recordQuorumContact fromId now).1.RoleInv := h.ofLeader hstate hme hrole
      unfold handleFetch
      split_ifs
      · exact h
      · exact hcontact
      · obtain ⟨hstate, hme, -, hrole⟩ := recordProgress_frame
          (m := (m.recordQuorumContact fromId now).1) log.endOffset offset fromId now
        exact hcontact.ofLeader hstate hme hrole
    | receiveFetchSnapshot fromId =>
      show (m.handleFetchSnapshot fromId now).1.RoleInv
      obtain ⟨hstate, hme, -, hrole⟩ := recordQuorumContact_frame (m := m) fromId now
      unfold handleFetchSnapshot
      split_ifs
      · exact h
      · exact h.ofLeader hstate hme hrole
    | receiveFetchResponse leaderId epoch diverging => exact h.handleFetchResponse
    | receiveLeaderlessEpoch epoch =>
      show (m.handleLeaderlessEpoch epoch now).1.RoleInv
      unfold handleLeaderlessEpoch
      split_ifs with hstale hvoter
      · exact h
      · exact roleInv_transitionToUnattached hvoter
      · exact roleInv_becomeDiscoveringObserver ((Bool.not_eq_true _).mp hvoter)
  | applyVoterSet voters now => exact h.applyVoterSet
  | commitVoterSet => exact h
  | setKraftVersion version => exact h
  | advanceEpochForVote candidate epoch now =>
    show (m.advanceEpochForVote candidate epoch now).1.RoleInv
    unfold advanceEpochForVote
    split_ifs with hadvance
    · simp only [Bool.and_eq_true] at hadvance
      exact roleInv_transitionToUnattached hadvance.1.2
    · exact h
  | resignForShutdown now =>
    show (m.resignForShutdown now).1.RoleInv
    unfold resignForShutdown
    split_ifs
    · exact roleInv_transitionToResigned
    · exact h
  | finishLocalLeaderRemoval now =>
    show (m.finishLocalLeaderRemoval now).1.RoleInv
    unfold finishLocalLeaderRemoval
    split_ifs with hskip
    · exact h
    · simp only [Bool.or_eq_true, not_or, Bool.not_eq_true] at hskip
      exact ⟨hskip.1, rfl, by simp⟩
  | adoptReplicaProgress id progress =>
    obtain ⟨hstate, hme, -, hrole⟩ := adoptReplicaProgress_frame (m := m) id progress
    exact h.ofLeader hstate hme hrole

/-! ## The operations that break the agreement -/

theorem not_roleAgrees_unattached (hvoter : m.isVoter = false) :
    ¬(m.transitionToUnattached epoch deadline).1.RoleAgrees := by
  intro h
  rcases h.nonVoter hvoter with hlead | ⟨l, d, hrole⟩
  · cases hlead
  · cases hrole

theorem handleBeginQuorumEpoch_self (now : Nat) (hvoter : m.isVoter = true)
    (hleader : m.state.leaderId = none) :
    m.handleBeginQuorumEpoch m.me m.state.leaderEpoch now =
      m.follow m.me m.state.leaderEpoch now := by
  have hmem : m.currentOrAdjacentVoter m.me = true := by
    unfold currentOrAdjacentVoter
    rw [show m.state.voters.contains m.me = true from hvoter]
    rfl
  unfold handleBeginQuorumEpoch
  simp [hmem, hleader]

theorem not_roleAgrees_follow_self (hvoter : m.isVoter = true) :
    ¬(m.follow m.me epoch now).1.RoleAgrees := by
  intro h
  exact (h.follower m.me (m.fetchDeadline now) false (if_pos hvoter)).2 rfl

theorem recordPreVoteRejection_lost {g r : Finset NodeId} {d : Nat} {leaderId fromId : NodeId}
    (hrole : m.role = .prospective g r d (some leaderId))
    (hmem : m.state.voters.contains fromId = true)
    (hlost : m.roundLost (g.erase fromId) (insert fromId r) = true) :
    m.recordPreVoteRejection fromId m.state.leaderEpoch now =
      { m with role := .prospective (g.erase fromId) (insert fromId r) d (some leaderId)
        }.handleBeginQuorumEpoch leaderId m.state.leaderEpoch now := by
  unfold recordPreVoteRejection
  rw [if_neg (by simpa using hmem), hrole]
  refine if_neg (fun hopen => ?_)
  have hopen' : (!m.roundLost (g.erase fromId) (insert fromId r)) = true := hopen
  rw [hlost] at hopen'
  cases hopen'

/-- **A breaking operation breaks the agreement.** -/
theorem not_roleAgrees_of_breaks {op : Op} (h : m.RoleInv) (hbreaks : m.Breaks op) :
    ¬(m.run op).1.RoleAgrees := by
  cases op with
  | event event log now =>
    cases event with
    | electionTimeout =>
      replace hbreaks : m.AbandonedItself := hbreaks
      show ¬(m.handleElectionTimeout log now).1.RoleAgrees
      unfold AbandonedItself at hbreaks
      cases hrole : m.role <;> simp only [hrole] at hbreaks
      case prospective g r d a =>
        subst hbreaks
        obtain ⟨hvoter, hleader⟩ := h.of_prospective hrole
        have hfollow : m.handleElectionTimeout log now = m.follow m.me m.state.leaderEpoch now := by
          unfold handleElectionTimeout
          rw [hrole]
          simp only [hvoter, handleBeginQuorumEpoch_self now hvoter hleader]
          rfl
        rw [hfollow]
        exact not_roleAgrees_follow_self hvoter
    | receiveVoteResponse fromId epoch granted =>
      obtain ⟨rfl, hbreaks⟩ := hbreaks
      show ¬(m.handleVoteResponse log fromId epoch false now).1.RoleAgrees
      unfold handleVoteResponse
      rcases hbreaks with ⟨hlt, hvoter⟩ | ⟨rfl, hlost⟩
      · simp only [hlt, Bool.not_false, decide_true, Bool.and_self, if_true]
        exact not_roleAgrees_unattached hvoter
      · simp only [lt_irrefl, decide_false, Bool.and_false, Bool.false_eq_true, if_false,
          Bool.not_false, if_true]
        unfold LosesOwnRound at hlost
        cases hrole : m.role <;> simp only [hrole] at hlost
        case prospective g r d a =>
          obtain ⟨rfl, hmem, hlost⟩ := hlost
          obtain ⟨hvoter, hleader⟩ := h.of_prospective hrole
          rw [recordPreVoteRejection_lost hrole hmem hlost]
          have hself := handleBeginQuorumEpoch_self
            (m := { m with role := .prospective (g.erase fromId) (insert fromId r) d (some m.me) })
            now hvoter hleader
          rw [hself]
          exact not_roleAgrees_follow_self hvoter
    | receiveEndQuorumEpoch leaderId epoch rank =>
      obtain ⟨hle, hvoter⟩ := hbreaks
      show ¬(m.handleEndQuorumEpoch log epoch rank now).1.RoleAgrees
      unfold handleEndQuorumEpoch
      rw [if_neg (not_lt.mpr hle), if_pos (by simp [hvoter])]
      exact not_roleAgrees_unattached hvoter
    | _ => cases hbreaks
  | _ => cases hbreaks

/-- Any operations in any order, whose `BeginQuorumEpoch` events name another
replica, from a fresh machine.  Its state is `bootstrap` or was loaded from
disk, and either way it names no leader. -/
def system : TransitionSystem QuorumStateMachine Op :=
  (TransitionSystem.ofFun
    (fun m => ∃ me state electionMs fetchMs, state.leaderId = none ∧
      m = .new me state electionMs fetchMs)
    (fun m op => (m.run op).1)).restrict (fun m op _ => m.NamesOther op)

/-- **Role and durable state agree** in every run without a breaking operation,
and the breaking operations are exactly those after which they do not. -/
theorem role_agrees_until_break {m : QuorumStateMachine}
    (h : (system.restrict fun m op _ => ¬m.Breaks op).Reachable m) :
    m.RoleAgrees ∧ ∀ op, m.NamesOther op → ((m.run op).1.RoleAgrees ↔ ¬m.Breaks op) := by
  have hinv : m.RoleInv := by
    refine h.invariant (P := RoleInv) ?_ ?_
    · rintro m ⟨me, state, electionMs, fetchMs, hleader, rfl⟩
      cases hvoter : state.voters.contains me <;> simp [new, RoleInv, isVoter, hvoter, hleader]
    · rintro m op m' hm ⟨⟨rfl, hother⟩, hbreaks⟩
      exact hm.run hother hbreaks
  refine ⟨hinv.agrees, fun op hother => ⟨?_, fun hbreaks => (hinv.run hother hbreaks).agrees⟩⟩
  intro hagrees hbreaks
  exact not_roleAgrees_of_breaks hinv hbreaks hagrees

instance (m : QuorumStateMachine) (op : Op) : Decidable (m.NamesOther op) := by
  unfold NamesOther
  split <;> infer_instance

instance (m : QuorumStateMachine) (fromId : NodeId) : Decidable (m.LosesOwnRound fromId) := by
  unfold LosesOwnRound
  split <;> infer_instance

instance (m : QuorumStateMachine) : Decidable m.AbandonedItself := by
  unfold AbandonedItself
  split <;> infer_instance

instance (m : QuorumStateMachine) : DecidablePred m.Breaks
  | .event (.receiveEndQuorumEpoch ..) .. | .event (.receiveVoteResponse ..) .. =>
    inferInstanceAs (Decidable (_ ∧ _))
  | .event .electionTimeout .. => inferInstanceAs (Decidable m.AbandonedItself)
  | .event .fetchTimeout .. | .event .checkQuorumTimeout .. | .event (.receiveVoteRequest _) ..
  | .event (.receiveBeginQuorumEpoch ..) .. | .event (.receiveFetch ..) ..
  | .event (.receiveFetchSnapshot _) .. | .event (.receiveFetchResponse ..) ..
  | .event (.receiveLeaderlessEpoch _) .. | .applyVoterSet .. | .commitVoterSet
  | .setKraftVersion _ | .advanceEpochForVote .. | .resignForShutdown _
  | .finishLocalLeaderRemoval _ | .adoptReplicaProgress .. => .isFalse not_false

/-- Voter 1 of the voters 1, 2 and 3 leads epoch 1. -/
def winFirstEpoch : List Op :=
  [.event .electionTimeout .empty 0, .event (.receiveVoteResponse 2 0 true) .empty 0,
    .event (.receiveVoteResponse 2 1 true) .empty 0]

def firstVoter : QuorumStateMachine :=
  .new 1 (.bootstrap Uuid.nil (.ofIds [1, 2, 3])) 1000 2000

theorem role_agrees_until_break_leader :
    (winFirstEpoch.foldl (fun m op => (m.run op).1) firstVoter).role.isLeader = true ∧
      (winFirstEpoch.foldl (fun m op => (m.run op).1) firstVoter).RoleAgrees :=
  ⟨by decide,
    (role_agrees_until_break
      (.foldl (fun m op _ => m.NamesOther op ∧ ¬m.Breaks op)
        (.init ⟨1, _, _, _, rfl, rfl⟩) (fun _ _ h => ⟨⟨rfl, h.1⟩, h.2⟩) (by decide))).1⟩

/-- An observer that receives `EndQuorumEpoch` is `Unattached` outside the voter
set, one that receives a newer-epoch rejection too, and a leader whose election
timer fires twice follows itself. -/
theorem role_disagrees_somewhere :
    (∃ m, system.Reachable m ∧ m.isVoter = false ∧ (∃ d, m.role = .unattached d) ∧
      m.state.leaderEpoch = 0) ∧
    (∃ m, system.Reachable m ∧ m.isVoter = false ∧ (∃ d, m.role = .unattached d) ∧
      m.state.leaderEpoch = 5) ∧
    (∃ m, system.Reachable m ∧ (∃ d b, m.role = .follower m.me d b) ∧
      m.state.leaderId = some m.me) := by
  let observer : QuorumStateMachine := .new 4 (.bootstrap Uuid.nil (.ofIds [1, 2, 3])) 1000 2000
  have hobserver : system.Reachable observer := .init ⟨4, _, _, _, rfl, rfl⟩
  refine ⟨⟨_, .step hobserver (a := .event (.receiveEndQuorumEpoch 1 0 ⟨0, 1⟩) .empty 0)
      ⟨rfl, by decide⟩, by decide, ⟨0, by decide⟩, by decide⟩,
    ⟨_, .step hobserver (a := .event (.receiveVoteResponse 1 5 false) .empty 0)
      ⟨rfl, by decide⟩, by decide, ⟨_, rfl⟩, by decide⟩, ?_⟩
  let ops : List Op := winFirstEpoch ++
    [.event .electionTimeout .empty 0, .event .electionTimeout .empty 0]
  refine ⟨ops.foldl (fun m op => (m.run op).1) firstVoter, ?_, ⟨2000, false, by decide⟩, by decide⟩
  exact .foldl (fun m op _ => m.NamesOther op) (.init ⟨1, _, _, _, rfl, rfl⟩)
    (fun _ _ h => ⟨rfl, h⟩) (by decide)

end QuorumStateMachine

end Krabka.KraftCore

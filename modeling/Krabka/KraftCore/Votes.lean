import Krabka.KraftCore.Moves
import Krabka.Lib.Transition

/-!
# The vote of one replica

`VoteEffect` sorts the moves by what they do to the epoch, the recorded vote
and the election round; `Move.voteEffect` is the classification.  Everything
about votes is proved from it, one case for each effect.

The second half is one replica on its own: `VoteHistory` runs a machine through
any sequence of its operations and keeps the binding votes it has granted, its
own candidacies included.  A vote belongs to its epoch, and the recorded vote
carries it: `VoteInv` says that the grants of the current epoch all name the
recorded key.  One effect breaks it.  `forget` clears the recorded vote without
a newer epoch: an `EndQuorumEpoch` received outside the voter set.
-/

namespace Krabka.KraftCore

open List

namespace QuorumStateMachine

/-- What a move does to the epoch, the recorded vote and the election round. -/
inductive VoteEffect (op : Op) (m m' : QuorumStateMachine) : Prop
  /-- Epoch and vote stay, and no round is opened, extended or won. -/
  | quiet (hepoch : m'.state.leaderEpoch = m.state.leaderEpoch)
      (hvote : m'.state.votedKey = m.state.votedKey)
      (hcand : ∀ g d, m'.role = .candidate g d → m.role = .candidate g d)
      (hlead : m'.role.isLeader = true → m.role.isLeader = true)
  | newEpoch (hepoch : m.state.leaderEpoch < m'.state.leaderEpoch)
      (hvote : m'.state.votedKey = none)
      (hcand : m'.role.isCandidate = false) (hlead : m'.role.isLeader = false)
  /-- The vote is dropped inside its epoch. -/
  | forget (hop : op.IsCurrentEnd m) (hvoter : m.isVoter = false)
      (hepoch : m'.state.leaderEpoch = m.state.leaderEpoch)
      (hvote : m'.state.votedKey = none)
      (hcand : m'.role.isCandidate = false) (hlead : m'.role.isLeader = false)
  | vote (r : VoteRequest) (log : LogView) (now : Nat)
      (hop : op = .event (.receiveVoteRequest r) log now) (hpre : r.preVote = false)
      (hvoter : m.isVoter = true) (hcandEpoch : r.candidateEpoch = m.state.leaderEpoch)
      (hepoch : m'.state.leaderEpoch = m.state.leaderEpoch)
      (hold : ∀ key, m.state.votedKey = some key → key.id = r.candidate)
      (hfresh : m.state.votedKey = none → logUpToDate log r.candidateLogEnd = true)
      (hvote : m'.state.votedKey = some r.candidateKey)
      (hcand : m'.role.isCandidate = false) (hlead : m'.role.isLeader = false)
  | candidacy (hepoch : m'.state.leaderEpoch = nextEpoch m.state.leaderEpoch)
      (hvote : m'.state.votedKey = some ⟨m.me, Uuid.nil⟩)
      (hcand : ∃ d, m'.role = .candidate {m.me} d)
  | grant (fromId epoch : Nat) (log : LogView) (now : Nat)
      (hop : op = .event (.receiveVoteResponse fromId epoch true) log now)
      (hrespEpoch : epoch = m.state.leaderEpoch)
      (hepoch : m'.state.leaderEpoch = m.state.leaderEpoch)
      (hvote : m'.state.votedKey = m.state.votedKey)
      (hcand : ∃ g d, m.role = .candidate g d ∧ m'.role = .candidate (insert fromId g) d)
  | win (g : Finset NodeId) (d : Nat) (hcand : m.role = .candidate g d)
      (htally : electionHasQuorum m.state.voters.len
        (g.filter (fun id => m.state.voters.contains id)).card = true)
      (hepoch : m'.state.leaderEpoch = m.state.leaderEpoch)
      (hvote : m'.state.votedKey = m.state.votedKey)
      (hlead : m'.role.isLeader = true)

variable {op : Op} {m m' : QuorumStateMachine} {as : List Action}

/-- A binding vote goes to the candidate already voted for, or, in an epoch
without a vote, to one whose log is up to date. -/
theorem canGrantVote_binding {key : ReplicaKey} {upToDate : Bool}
    (h : m.canGrantVote key upToDate false = true) :
    (∀ voted, m.state.votedKey = some voted → voted.id = key.id) ∧
      (m.state.votedKey = none → upToDate = true) := by
  unfold canGrantVote at h
  cases hrole : m.role <;> simp only [hrole, Bool.false_and, Bool.false_eq_true, if_false] at h
  all_goals
    cases hvoted : m.state.votedKey with
    | none =>
      simp only [hvoted, Bool.and_eq_true] at h
      exact ⟨by simp, fun _ => h.2⟩
    | some voted =>
      simp only [hvoted, sameVoter, Bool.and_eq_true, decide_eq_true_eq] at h
      exact ⟨fun v hv => Option.some.inj hv ▸ h.1, by simp⟩

/-- Bookkeeping: the role may change only among those of a leader. -/
def KeepsRest (m m' : QuorumStateMachine) : Prop :=
  m'.state = m.state ∧ m'.me = m.me ∧ m'.adjacentVoters = m.adjacentVoters ∧
    (m'.role = m.role ∨ (m.role.isLeader = true ∧ m'.role.isLeader = true))

theorem recordQuorumContact_frame (fromId now : Nat) :
    m.KeepsRest (m.recordQuorumContact fromId now).1 := by
  unfold recordQuorumContact
  split_ifs with h
  · exact ⟨rfl, rfl, rfl, .inl rfl⟩
  · cases hrole : m.role <;> dsimp only
    case leader fields => split_ifs <;> exact ⟨rfl, rfl, rfl, .inr ⟨by rw [hrole]; rfl, rfl⟩⟩
    all_goals exact ⟨rfl, rfl, rfl, .inl rfl⟩

theorem recordProgress_frame (logEnd fetchOffset : Int) (fromId now : Nat) :
    m.KeepsRest (m.recordProgress logEnd fromId fetchOffset now).1 := by
  unfold recordProgress
  cases hrole : m.role <;> dsimp only
  case leader fields => split_ifs <;> exact ⟨rfl, rfl, rfl, .inr ⟨by rw [hrole]; rfl, rfl⟩⟩
  all_goals exact ⟨rfl, rfl, rfl, .inl rfl⟩

theorem handleFetchResponse_frame (log : LogView) (leaderId leaderEpoch : Nat)
    (diverging : Option LogOffsetMetadata) (now : Nat) {r : QuorumStateMachine}
    (hr : (m.handleFetchResponse log leaderId leaderEpoch diverging now).1 = r := by rfl) :
    r.state = m.state ∧ r.me = m.me ∧ r.adjacentVoters = m.adjacentVoters ∧
      (r.role = m.role ∨ ∃ l d b, m.role = .follower l d b ∧ r.role = .follower l d true) := by
  subst hr
  unfold handleFetchResponse
  split_ifs with h
  · exact ⟨rfl, rfl, rfl, .inl rfl⟩
  · refine ⟨rfl, rfl, rfl, ?_⟩
    cases m.role with
    | follower l d b => exact .inr ⟨l, d, b, rfl, rfl⟩
    | _ => exact .inl rfl

theorem recordGrant_cases (fromId : NodeId) :
    m.recordGrant fromId = m ∨
      (∃ g r d a, m.role = .prospective g r d a ∧
        m.recordGrant fromId =
          { m with role := .prospective (insert fromId g) (r.erase fromId) d a }) ∨
      (∃ g d, m.role = .candidate g d ∧
        m.recordGrant fromId = { m with role := .candidate (insert fromId g) d }) := by
  unfold recordGrant
  split_ifs with hmem
  · exact .inl rfl
  · cases hrole : m.role with
    | prospective g r d a => exact .inr (.inl ⟨g, r, d, a, rfl, rfl⟩)
    | candidate g d => exact .inr (.inr ⟨g, d, rfl, rfl⟩)
    | _ => exact .inl rfl

theorem changeMembership_frame (wasVoter : Bool) (now : Nat) {r : QuorumStateMachine}
    (hr : (m.changeMembership wasVoter now).1 = r := by rfl) :
    r.state = m.state ∧ r.me = m.me ∧ r.adjacentVoters = m.adjacentVoters ∧
      (r.role = m.role ∧ m.isVoter = wasVoter ∨
        wasVoter = true ∧ m.isVoter = false ∧ (∃ d, r.role = .observer m.state.leaderId d) ∨
        wasVoter = false ∧ m.isVoter = true ∧
          ((∃ l d, m.state.leaderId = some l ∧ r.role = .follower l d false) ∨
            m.state.leaderId = none ∧ ∃ d, r.role = .unattached d)) := by
  subst hr
  unfold changeMembership
  cases wasVoter <;> cases his : m.isVoter
  · exact ⟨rfl, rfl, rfl, .inl ⟨rfl, rfl⟩⟩
  · cases hlead : m.state.leaderId with
    | none => exact ⟨rfl, rfl, rfl, .inr (.inr ⟨rfl, rfl, .inr ⟨rfl, _, rfl⟩⟩)⟩
    | some l => exact ⟨rfl, rfl, rfl, .inr (.inr ⟨rfl, rfl, .inl ⟨l, _, rfl, rfl⟩⟩)⟩
  · exact ⟨rfl, rfl, rfl, .inr (.inl ⟨rfl, rfl, _, rfl⟩)⟩
  · exact ⟨rfl, rfl, rfl, .inl ⟨rfl, rfl⟩⟩

theorem applyVoterSet_cases (voters : VoterSet) (now : Nat) :
    (∃ f f', m.role = .leader f ∧
        m.applyVoterSet voters now = ({ m.withVoters voters with role := .leader f' },
          if (m.withVoters voters).runsCheckQuorum then
            [.resetTimer .checkQuorum ((m.withVoters voters).checkQuorumDeadline now)]
          else [])) ∨
      m.role.isLeader = false ∧
        m.applyVoterSet voters now = (m.withVoters voters).changeMembership m.isVoter now := by
  have hrole : (m.withVoters voters).role = m.role := rfl
  unfold applyVoterSet
  simp only [hrole]
  cases m.role
  case leader f => exact .inl ⟨f, _, rfl, rfl⟩
  all_goals exact .inr ⟨rfl, rfl⟩

variable {now : Nat}

theorem applyVoterSet_frame {voters : VoterSet} :
    (m.applyVoterSet voters now).1.state = { m.state with voters := voters } ∧
      (m.applyVoterSet voters now).1.me = m.me := by
  rcases applyVoterSet_cases (m := m) voters now with ⟨f, f', -, h⟩ | ⟨-, h⟩
  · rw [h]
    exact ⟨rfl, rfl⟩
  · obtain ⟨hstate, hme, -⟩ :=
      changeMembership_frame (m := m.withVoters voters) m.isVoter now
    rw [h, hstate, hme]
    exact ⟨rfl, rfl⟩

theorem adoptReplicaProgress_frame (id : NodeId) (progress : ReplicaProgress) :
    m.KeepsRest (m.adoptReplicaProgress id progress) := by
  unfold adoptReplicaProgress
  cases hrole : m.role <;> dsimp only
  case leader fields =>
    split_ifs
    · exact ⟨rfl, rfl, rfl, .inr ⟨by rw [hrole]; rfl, rfl⟩⟩
    · exact ⟨rfl, rfl, rfl, .inl rfl⟩
  all_goals exact ⟨rfl, rfl, rfl, .inl rfl⟩

theorem adoptReplicaProgress_foldl (joined : List (NodeId × ReplicaProgress)) :
    m.KeepsRest
      (joined.foldl (fun core entry => core.adoptReplicaProgress entry.1 entry.2) m) := by
  induction joined generalizing m with
  | nil => exact ⟨rfl, rfl, rfl, .inl rfl⟩
  | cons entry joined ih =>
    obtain ⟨hstate, hme, hadjacent, hrole⟩ := adoptReplicaProgress_frame (m := m) entry.1 entry.2
    obtain ⟨hstate', hme', hadjacent', hrole'⟩ := ih (m := m.adoptReplicaProgress entry.1 entry.2)
    refine ⟨hstate'.trans hstate, hme'.trans hme, hadjacent'.trans hadjacent, ?_⟩
    rcases hrole' with hsame' | ⟨hlead, hlead'⟩
    · exact hrole.imp hsame'.trans (fun h => ⟨h.1, by rw [foldl_cons, hsame']; exact h.2⟩)
    · exact .inr ⟨hrole.elim (fun h => h ▸ hlead) And.left, hlead'⟩

theorem VoteEffect.ofFrame (hstate : m'.state = m.state)
    (hrole : m'.role = m.role ∨ (m.role.isLeader = true ∧ m'.role.isLeader = true)) :
    VoteEffect op m m' := by
  refine .quiet (by rw [hstate]) (by rw [hstate]) ?_ ?_
  · intro g d hcand
    rcases hrole with hsame | ⟨_, hlead⟩
    · rw [← hsame, hcand]
    · rw [hcand] at hlead
      cases hlead
  · intro hlead
    rcases hrole with hsame | ⟨hlead', _⟩
    · rw [← hsame, hlead]
    · exact hlead'

theorem VoteEffect.ofWaiting (hepoch : m'.state.leaderEpoch = m.state.leaderEpoch)
    (hvote : m'.state.votedKey = m.state.votedKey)
    (hrole : m'.role.isCandidate = false ∧ m'.role.isLeader = false) : VoteEffect op m m' := by
  refine .quiet hepoch hvote ?_ ?_
  · intro g d hcand
    rw [hcand] at hrole
    cases hrole.1
  · intro hlead
    rw [hrole.2] at hlead
    cases hlead

theorem awaitElection_role {deadline : Nat} :
    (m.awaitElection deadline).1.role.isCandidate = false ∧
      (m.awaitElection deadline).1.role.isLeader = false := by
  unfold awaitElection
  dsimp only
  split_ifs <;> exact ⟨rfl, rfl⟩

/-- **What a move does to the vote.** -/
theorem Move.voteEffect (h : Move op m m' as) : VoteEffect op m m' := by
  cases h with
  | deny | grantPreVote => exact .ofFrame rfl (.inl rfl)
  | castVote hop hpre hepoch hvoter hkey hcan =>
    obtain ⟨hold, hfresh⟩ := canGrantVote_binding hcan
    exact .vote _ _ _ hop hpre hvoter hepoch rfl hold hfresh rfl rfl rfl
  | newEpoch hlt => exact .newEpoch hlt rfl rfl rfl
  | endAsNonVoter hop hvoter => exact .forget hop hvoter rfl rfl rfl rfl
  | @follow leaderId leaderEpoch now hmember hepoch hcause =>
    have hrole : (m.follow leaderId leaderEpoch now).1.role.isCandidate = false ∧
        (m.follow leaderId leaderEpoch now).1.role.isLeader = false := by
      unfold QuorumStateMachine.follow
      split_ifs <;> exact ⟨rfl, rfl⟩
    rcases hepoch with hlt | ⟨rfl, _⟩
    · exact .newEpoch hlt (if_pos hlt) hrole.1 hrole.2
    · exact .ofWaiting rfl (if_neg (lt_irrefl _)) hrole
  | loseRound | endAsVoter => exact .ofWaiting rfl rfl awaitElection_role
  | becomeProspective => exact .ofWaiting rfl rfl ⟨rfl, rfl⟩
  | becomeCandidate => exact .candidacy rfl rfl ⟨_, rfl⟩
  | promoteToLeader hlog hrole htally =>
    refine .win _ _ hrole ?_ rfl rfl rfl
    rwa [tallyReachedMajority, hrole] at htally
  | resign =>
    refine .ofWaiting rfl rfl ?_
    unfold transitionToResigned
    dsimp only
    split_ifs <;> exact ⟨rfl, rfl⟩
  | finishRemoval hvoter hleader =>
    rw [finishLocalLeaderRemoval, if_neg (by simp [hvoter, hleader])]
    exact .ofWaiting rfl rfl ⟨rfl, rfl⟩
  | discover hvoter hepoch =>
    rcases hepoch with ⟨rfl, rfl⟩ | ⟨hlt, rfl⟩
    · exact .ofWaiting rfl rfl ⟨rfl, rfl⟩
    · exact .newEpoch hlt rfl rfl rfl
  | @recordGrant fromId _ _ _ hop hepoch =>
    rcases recordGrant_cases (m := m) fromId with h | ⟨g, r, d, a, hrole, h⟩ | ⟨g, d, hrole, h⟩
    · rw [h]
      exact .ofFrame rfl (.inl rfl)
    · rw [h]
      exact .ofWaiting rfl rfl ⟨rfl, rfl⟩
    · rw [h]
      exact .grant _ _ _ _ hop hepoch rfl rfl ⟨g, d, hrole, rfl⟩
  | recordRejection hrole =>
    exact .ofWaiting rfl rfl ⟨rfl, rfl⟩
  | contact =>
    obtain ⟨hstate, -, -, hrole⟩ := recordQuorumContact_frame _ _
    exact .ofFrame hstate hrole
  | diverge => exact .ofFrame rfl (.inl rfl)
  | progress =>
    obtain ⟨hstate, -, -, hrole⟩ := recordProgress_frame _ _ _ _
    exact .ofFrame hstate hrole
  | fetched =>
    obtain ⟨hstate, -, -, hsame | ⟨l, d, b, hrole, hrole'⟩⟩ := handleFetchResponse_frame _ _ _ _ _
    · exact .ofFrame hstate (.inl hsame)
    · refine .ofWaiting (by rw [hstate]) (by rw [hstate]) ?_
      rw [hrole']
      exact ⟨rfl, rfl⟩
  | @applyVoterSet voters now hop =>
    rcases applyVoterSet_cases (m := m) voters now with ⟨f, f', hlead, h⟩ | ⟨-, h⟩
    · rw [h]
      refine .quiet rfl rfl (fun _ _ h => by cases h) (fun _ => ?_)
      rw [hlead]
      rfl
    · obtain ⟨hstate, -, -, hrole⟩ :=
        changeMembership_frame (m := m.withVoters voters) m.isVoter now
      rw [h]
      rcases hrole with ⟨hsame, -⟩ | ⟨-, -, d, hobs⟩ | ⟨-, -, ⟨l, d, -, hfol⟩ | ⟨-, d, hun⟩⟩
      · exact .quiet (by rw [hstate]; rfl) (by rw [hstate]; rfl)
          (fun _ _ h => hsame ▸ h) (fun h => hsame ▸ h)
      · exact .ofWaiting (by rw [hstate]; rfl) (by rw [hstate]; rfl)
          (by rw [hobs]; exact ⟨rfl, rfl⟩)
      · exact .ofWaiting (by rw [hstate]; rfl) (by rw [hstate]; rfl)
          (by rw [hfol]; exact ⟨rfl, rfl⟩)
      · exact .ofWaiting (by rw [hstate]; rfl) (by rw [hstate]; rfl) (by rw [hun]; exact ⟨rfl, rfl⟩)
  | commitVoterSet => exact .ofFrame rfl (.inl rfl)
  | setKraftVersion => exact .quiet rfl rfl (fun _ _ h => h) (fun h => h)
  | adoptReplicaProgress =>
    obtain ⟨hstate, -, -, hrole⟩ := adoptReplicaProgress_frame _ _
    exact .ofFrame hstate hrole

/-! ## What stays -/

/-- What every operation leaves of the state: the voters change with theirs only,
and the epoch and the vote with a write. -/
structure Kept (op : Op) (m m' : QuorumStateMachine) (as : List Action) : Prop where
  me : m'.me = m.me
  voters : (∀ voters now, op ≠ .applyVoterSet voters now) → m'.state.voters = m.state.voters
  persists : .persistQuorumState ∉ as → m'.state.leaderEpoch = m.state.leaderEpoch ∧
    m'.state.votedKey = m.state.votedKey

/-- The actions `done` write the epoch and the vote, if those have changed. -/
def Saves (done : List Action) (m m' : QuorumStateMachine) : Prop :=
  .persistQuorumState ∈ done ∨
    m'.state.leaderEpoch = m.state.leaderEpoch ∧ m'.state.votedKey = m.state.votedKey

theorem Kept.saves (h : Kept op m m' as) : Saves as m m' := by
  by_cases hwritten : .persistQuorumState ∈ as
  · exact .inl hwritten
  · exact .inr (h.persists hwritten)

theorem Kept.of_state (hstate : m'.state = m.state) (hme : m'.me = m.me) : Kept op m m' as := by
  refine ⟨hme, ?_, ?_⟩ <;> rw [hstate]
  · exact fun _ => rfl
  · exact fun _ => ⟨rfl, rfl⟩

theorem Kept.trans {m₁ : QuorumStateMachine} {bs : List Action} (h : Kept op m m₁ as)
    (h' : Kept op m₁ m' bs) : Kept op m m' (as ++ bs) := by
  refine ⟨h'.me.trans h.me, fun hop => (h'.voters hop).trans (h.voters hop), fun hno => ?_⟩
  rw [mem_append, not_or] at hno
  exact ⟨(h'.persists hno.2).1.trans (h.persists hno.1).1,
    (h'.persists hno.2).2.trans (h.persists hno.1).2⟩

theorem Move.kept (h : Move op m m' as) : Kept op m m' as := by
  cases h
  case castVote | newEpoch | endAsNonVoter | follow | becomeCandidate | discover =>
    exact ⟨rfl, fun _ => rfl, fun hno => absurd mem_cons_self hno⟩
  case recordGrant fromId _ _ _ _ _ =>
    rcases recordGrant_cases (m := m) fromId with
      h | ⟨g, r, d, a, _, h⟩ | ⟨g, d, _, h⟩ <;> rw [h] <;>
      exact .of_state rfl rfl
  case finishRemoval hvoter hleader =>
    rw [finishLocalLeaderRemoval, if_neg (by simp [hvoter, hleader])]
    exact ⟨rfl, fun _ => rfl, fun _ => ⟨rfl, rfl⟩⟩
  case contact =>
    obtain ⟨hstate, hme, -⟩ := recordQuorumContact_frame _ _
    exact .of_state hstate hme
  case progress =>
    obtain ⟨hstate, hme, -⟩ := recordProgress_frame _ _ _ _
    exact .of_state hstate hme
  case fetched =>
    obtain ⟨hstate, hme, -⟩ := handleFetchResponse_frame _ _ _ _ _
    exact .of_state hstate hme
  case applyVoterSet hop =>
    refine ⟨applyVoterSet_frame.2, fun hne => absurd hop (hne _ _), fun _ => ?_⟩
    rw [applyVoterSet_frame.1]
    exact ⟨rfl, rfl⟩
  case adoptReplicaProgress =>
    obtain ⟨hstate, hme, -⟩ := adoptReplicaProgress_frame _ _
    exact .of_state hstate hme
  all_goals exact ⟨rfl, fun _ => rfl, fun _ => ⟨rfl, rfl⟩⟩

theorem Moves.kept (h : Moves op m m' as) : Kept op m m' as := by
  induction h with
  | nil => exact .of_state rfl rfl
  | cons head _ ih => exact head.kept.trans ih

theorem Op.ne_applyVoterSet (hop : ∃ event log now, op = .event event log now) (voters : VoterSet)
    (now : Nat) : op ≠ .applyVoterSet voters now := by
  obtain ⟨event, log, now', rfl⟩ := hop
  exact nofun

theorem Move.isVoter (h : Move op m m' as) (hop : ∀ voters now, op ≠ .applyVoterSet voters now) :
    m'.isVoter = m.isVoter := by
  unfold QuorumStateMachine.isVoter
  rw [h.kept.voters hop, h.kept.me]

theorem VoteEffect.epoch_le (h : VoteEffect op m m') :
    m.state.leaderEpoch ≤ m'.state.leaderEpoch := by
  cases h with
  | candidacy hepoch => exact hepoch ▸ le_nextEpoch _
  | newEpoch hepoch => exact hepoch.le
  | quiet hepoch | forget _ _ hepoch | vote _ _ _ _ _ _ _ hepoch | grant _ _ _ _ _ _ hepoch
  | win _ _ _ _ hepoch => rw [hepoch]

theorem VoteEffect.keeps_vote (h : VoteEffect op m m')
    (hkeep : ¬(op.IsCurrentEnd m ∧ m.isVoter = false)) (hbound : m'.state.leaderEpoch < u32Max)
    (hsame : m'.state.leaderEpoch = m.state.leaderEpoch) {key : ReplicaKey}
    (hkey : m.state.votedKey = some key) :
    ∃ key', m'.state.votedKey = some key' ∧ key'.id = key.id := by
  cases h with
  | quiet _ hvote | grant _ _ _ _ _ _ _ hvote | win _ _ _ _ _ hvote =>
    exact ⟨key, hvote.trans hkey, rfl⟩
  | newEpoch hlt => exact absurd hsame hlt.ne'
  | forget hop hvoter => exact absurd ⟨hop, hvoter⟩ hkeep
  | vote r _ _ _ _ _ _ _ hold _ hvote => exact ⟨r.candidateKey, hvote, (hold key hkey).symm⟩
  | candidacy hepoch =>
    rw [hepoch] at hbound hsame
    rw [nextEpoch_of_lt hbound] at hsame
    omega

theorem Moves.epoch_le (h : Moves op m m' as) : m.state.leaderEpoch ≤ m'.state.leaderEpoch := by
  induction h with
  | nil => exact le_rfl
  | cons head _ ih => exact head.voteEffect.epoch_le.trans ih

/-! ## The actions of a move -/

inductive ActionEffect (op : Op) (m m' : QuorumStateMachine) : Action → Prop
  | deny (r : VoteRequest) (log : LogView) (now : Nat)
      (hop : op = .event (.receiveVoteRequest r) log now) :
      ActionEffect op m m' (.replyVote r.fromId m.state.leaderEpoch false)
  | grantPreVote (r : VoteRequest) (log : LogView) (now : Nat)
      (hop : op = .event (.receiveVoteRequest r) log now) (hpre : r.preVote = true)
      (hepoch : r.candidateEpoch = m.state.leaderEpoch) (hsame : m' = m) :
      ActionEffect op m m' (.replyVote r.fromId m.state.leaderEpoch true)
  | grantVote (r : VoteRequest) (log : LogView) (now : Nat)
      (hop : op = .event (.receiveVoteRequest r) log now) (hpre : r.preVote = false)
      (hepoch : r.candidateEpoch = m.state.leaderEpoch)
      (hnew : m' = (m.castVote r.candidateKey now).1) :
      ActionEffect op m m' (.replyVote r.fromId m.state.leaderEpoch true)
  | preVote (now : Nat) (hnew : m' = (m.becomeProspective now).1) :
      ActionEffect op m m' (.sendVoteRequest m.state.leaderEpoch true)
  | candidacy (now : Nat) (hnew : m' = (m.becomeCandidate now).1) :
      ActionEffect op m m' (.sendVoteRequest m'.state.leaderEpoch false)
  | beginEpoch (hlead : m'.role.isLeader = true) :
      ActionEffect op m m' (.sendBeginQuorumEpoch m.state.leaderEpoch)
  | endEpoch (successors : List NodeId) (hlead : m.role.isLeader = true) :
      ActionEffect op m m' (.sendEndQuorumEpoch m.state.leaderEpoch successors)
  | fetch (leaderId : NodeId) : ActionEffect op m m' (.sendFetch leaderId)
  | appendLeaderChange (log : LogView) (now : Nat) (hop : ∃ event, op = .event event log now)
      (hrole : m.role.isCandidate = true) (hnew : m' = (m.promoteToLeader log now).1) :
      ActionEffect op m m' (.appendLeaderChange m.state.leaderEpoch)
  | advance (log : LogView) (now : Nat) (fromId epoch : Nat) (offset target : Int)
      (hop : op = .event (.receiveFetch fromId epoch offset) log now)
      (hdiv : fetchDiverges log epoch offset = false)
      (hnew : m' = (m.recordProgress log.endOffset fromId offset now).1)
      (hact : .advanceHighWatermark target ∈
        (m.recordProgress log.endOffset fromId offset now).2) :
      ActionEffect op m m' (.advanceHighWatermark target)
  | truncate (log : LogView) (now : Nat) (leaderId epoch : Nat) (point : LogOffsetMetadata)
      (hop : op = .event (.receiveFetchResponse leaderId epoch (some point)) log now)
      (hfrom : m.fetchingFrom = some leaderId) (hepoch : epoch = m.state.leaderEpoch) :
      ActionEffect op m m' (.truncateTo ⟨point.followerTruncationOffset log, point.epoch⟩)
  | diverge (log : LogView) (now : Nat) (fromId epoch : Nat) (offset : Int)
      (hop : op = .event (.receiveFetch fromId epoch offset) log now)
      (hlead : m.role.isLeader = true) (hdiv : fetchDiverges log epoch offset = true) :
      ActionEffect op m m' (.replyDivergingEpoch (log.endOffsetForEpoch epoch))
  | persist : ActionEffect op m m' .persistQuorumState
  | transitioned (name : String) : ActionEffect op m m' (.transitionedTo name)
  | timer (kind : TimerKind) (deadline : Nat) : ActionEffect op m m' (.resetTimer kind deadline)

variable {a : Action}

theorem recordQuorumContact_actions {fromId : Nat} (ha : a ∈ (m.recordQuorumContact fromId now).2) :
    a = .resetTimer .checkQuorum (m.checkQuorumDeadline now) := by
  unfold recordQuorumContact at ha
  split_ifs at ha
  · cases ha
  · split at ha
    · dsimp only at ha
      split_ifs at ha
      · cases ha
      · simpa using ha
    · cases ha

theorem recordProgress_actions {logEnd fetchOffset : Int} {fromId : Nat}
    (ha : a ∈ (m.recordProgress logEnd fromId fetchOffset now).2) :
    ∃ target, a = .advanceHighWatermark target := by
  unfold recordProgress at ha
  split at ha
  · dsimp only at ha
    split_ifs at ha
    · exact ⟨_, by simpa using ha⟩
    · cases ha
  · cases ha

theorem handleFetchResponse_actions {log : LogView} {leaderId leaderEpoch : Nat}
    {diverging : Option LogOffsetMetadata}
    (ha : a ∈ (m.handleFetchResponse log leaderId leaderEpoch diverging now).2) :
    (∃ point, diverging = some point ∧ m.fetchingFrom = some leaderId ∧
        leaderEpoch = m.state.leaderEpoch ∧
        a = .truncateTo ⟨point.followerTruncationOffset log, point.epoch⟩) ∨
      a = .sendFetch leaderId ∨ a = .resetTimer .fetch (m.fetchDeadline now) := by
  unfold handleFetchResponse at ha
  split_ifs at ha with hskip
  · cases ha
  simp only [Bool.or_eq_true, decide_eq_true_eq, not_or, not_not] at hskip
  rw [mem_append] at ha
  rcases ha with ha | ha
  · cases diverging with
    | none => simp at ha
    | some point =>
      exact .inl ⟨point, rfl, hskip.1, hskip.2, by simpa using ha⟩
  · exact .inr (by simpa using ha)

theorem applyVoterSet_actions {voters : VoterSet} (ha : a ∈ (m.applyVoterSet voters now).2) :
    (∃ name, a = .transitionedTo name) ∨ (∃ l, a = .sendFetch l) ∨
      ∃ kind deadline, a = .resetTimer kind deadline := by
  rcases applyVoterSet_cases (m := m) voters now with ⟨f, f', -, h⟩ | ⟨-, h⟩
  · rw [h] at ha
    split_ifs at ha
    · exact .inr (.inr ⟨_, _, mem_singleton.mp ha⟩)
    · cases ha
  · rw [h] at ha
    unfold changeMembership at ha
    split at ha
    · rcases mem_cons.mp ha with rfl | ha
      · exact .inl ⟨_, rfl⟩
      · split at ha <;> aesop
    · split at ha <;> aesop
    · cases ha

/-- **Where the actions of a move come from.** -/
theorem Move.actionEffect (h : Move op m m' as) (ha : a ∈ as) : ActionEffect op m m' a := by
  cases h
  case deny hop =>
    rw [mem_singleton.mp ha]
    exact .deny _ _ _ hop
  case grantPreVote hop hpre hepoch hvoter =>
    rw [mem_singleton.mp ha]
    exact .grantPreVote _ _ _ hop hpre hepoch rfl
  case castVote hop hpre hepoch hvoter hkey hcan =>
    simp only [QuorumStateMachine.castVote, mem_append, mem_cons, not_mem_nil,
      or_false] at ha
    rcases ha with (rfl | rfl | rfl) | rfl
    · exact .persist
    · exact .transitioned _
    · exact .timer _ _
    · exact .grantVote _ _ _ hop hpre hepoch rfl
  case newEpoch | endAsNonVoter =>
    simp only [transitionToUnattached, mem_cons, not_mem_nil, or_false] at ha
    rcases ha with rfl | rfl | rfl
    exacts [.persist, .transitioned _, .timer _ _]
  case follow =>
    simp only [QuorumStateMachine.follow, mem_cons, not_mem_nil, or_false] at ha
    rcases ha with rfl | rfl | rfl | rfl
    exacts [.persist, .transitioned _, .fetch _, .timer _ _]
  case loseRound | endAsVoter =>
    simp only [awaitElection, mem_cons, not_mem_nil, or_false] at ha
    rcases ha with rfl | rfl | rfl
    exacts [.persist, .transitioned _, .timer _ _]
  case becomeProspective now _ =>
    simp only [QuorumStateMachine.becomeProspective, mem_cons, not_mem_nil,
      or_false] at ha
    rcases ha with rfl | rfl | rfl
    exacts [.transitioned _, .preVote now rfl, .timer _ _]
  case becomeCandidate now _ _ =>
    simp only [QuorumStateMachine.becomeCandidate, mem_cons, not_mem_nil,
      or_false] at ha
    rcases ha with rfl | rfl | rfl | rfl
    exacts [.persist, .transitioned _, .candidacy now rfl, .timer _ _]
  case promoteToLeader log now hlog hrole htally =>
    simp only [QuorumStateMachine.promoteToLeader, mem_append, mem_cons,
      not_mem_nil, or_false] at ha
    rcases ha with (rfl | rfl | rfl | rfl) | ha
    · exact .appendLeaderChange log now hlog (by rw [hrole]; rfl) rfl
    · exact .beginEpoch rfl
    · exact .persist
    · exact .transitioned _
    · split_ifs at ha
      · rw [mem_singleton.mp ha]
        exact .timer _ _
      · cases ha
  case resign hleader =>
    simp only [transitionToResigned, mem_cons, not_mem_nil, or_false] at ha
    rcases ha with rfl | rfl | rfl | rfl
    · exact .endEpoch _ hleader
    · exact .persist
    · exact .transitioned _
    · split_ifs <;> exact .timer _ _
  case finishRemoval hvoter hleader =>
    rw [finishLocalLeaderRemoval, if_neg (by simp [hvoter, hleader])] at ha ⊢
    simp only [mem_cons, not_mem_nil, or_false] at ha
    rcases ha with rfl | rfl | rfl | rfl
    exacts [.endEpoch _ hleader, .persist, .transitioned _, .timer _ _]
  case discover =>
    simp only [becomeDiscoveringObserver, mem_cons, not_mem_nil, or_false] at ha
    rcases ha with rfl | rfl | rfl
    exacts [.persist, .transitioned _, .timer _ _]
  case contact =>
    rw [recordQuorumContact_actions ha]
    exact .timer _ _
  case diverge hop hleader hdiv =>
    rw [mem_singleton.mp ha]
    exact .diverge _ _ _ _ _ hop hleader hdiv
  case progress hop hleader hdiv =>
    obtain ⟨target, rfl⟩ := recordProgress_actions ha
    exact .advance _ _ _ _ _ _ hop hdiv rfl ha
  case fetched hop =>
    rcases handleFetchResponse_actions ha with ⟨point, rfl, hfrom, hepoch, rfl⟩ | rfl | rfl
    · exact .truncate _ _ _ _ _ hop hfrom hepoch
    · exact .fetch _
    · exact .timer _ _
  case applyVoterSet =>
    rcases applyVoterSet_actions ha with ⟨_, rfl⟩ | ⟨_, rfl⟩ | ⟨_, _, rfl⟩
    exacts [.transitioned _, .fetch _, .timer _ _]
  all_goals cases ha

/-! ## The binding votes of an operation -/

/-- The binding vote, with its epoch, that an action of `op` gives away: a
granted reply to a binding request, or the replica's own candidacy. -/
def grantOf (me : NodeId) (op : Op) : Action → Option (Nat × NodeId)
  | .replyVote _ epoch true =>
    match op with
    | .event (.receiveVoteRequest r) _ _ => if r.preVote then none else some (epoch, r.candidate)
    | _ => none
  | .sendVoteRequest epoch false => some (epoch, me)
  | _ => none

theorem Move.grant (h : Move op m m' as) (ha : a ∈ as) {e : Nat} {c : NodeId}
    (hg : grantOf m.me op a = some (e, c)) :
    e = m'.state.leaderEpoch ∧ ∃ key, m'.state.votedKey = some key ∧ key.id = c := by
  cases h.actionEffect ha with
  | grantPreVote r log now hop hpre =>
    subst hop
    simp [grantOf, hpre] at hg
  | grantVote r log now hop hpre hepoch hnew =>
    subst hop hnew
    simp only [grantOf, hpre, Bool.false_eq_true, if_false, Option.some.injEq,
      Prod.mk.injEq] at hg
    exact ⟨hg.1.symm, r.candidateKey, rfl, hg.2⟩
  | candidacy now hnew =>
    subst hnew
    simp only [grantOf, Option.some.injEq, Prod.mk.injEq] at hg
    exact ⟨hg.1.symm, _, rfl, hg.2⟩
  | _ => cases hg

/-! ## One replica through any operations -/

/-- A replica and the binding votes it has given away so far. -/
structure VoteHistory where
  machine : QuorumStateMachine
  grants : List (Nat × NodeId)

namespace VoteHistory

def step (s : VoteHistory) (op : Op) : VoteHistory where
  machine := (s.machine.run op).1
  grants := s.grants ++ (s.machine.run op).2.filterMap (grantOf s.machine.me op)

/-- Any operations in any order from `bootstrap`, while epochs stay below
`u32::MAX`. -/
def system : TransitionSystem VoteHistory Op :=
  (TransitionSystem.ofFun
    (fun s => ∃ me clusterId voters electionMs fetchMs,
      s = ⟨.new me (.bootstrap clusterId voters) electionMs fetchMs, []⟩) step).restrict
    (fun _ _ s' => s'.machine.state.leaderEpoch < u32Max)

def OneVotePerEpoch (s : VoteHistory) : Prop :=
  ∀ e a b, (e, a) ∈ s.grants → (e, b) ∈ s.grants → a = b

instance (m : QuorumStateMachine) (op : Op) : Decidable (op.IsCurrentEnd m) := by
  unfold Op.IsCurrentEnd
  split <;> infer_instance

/-- The recorded vote carries the grants of the current epoch. -/
structure Inv (m : QuorumStateMachine) (grants : List (Nat × NodeId)) : Prop where
  unique : ∀ e a b, (e, a) ∈ grants → (e, b) ∈ grants → a = b
  epoch_le : ∀ e a, (e, a) ∈ grants → e ≤ m.state.leaderEpoch
  recorded : ∀ a, (m.state.leaderEpoch, a) ∈ grants →
    ∃ key, m.state.votedKey = some key ∧ key.id = a

theorem Inv.move {grants : List (Nat × NodeId)} (h : Inv m grants) (hmove : Move op m m' as)
    (hkeep : ¬(op.IsCurrentEnd m ∧ m.isVoter = false)) (hbound : m'.state.leaderEpoch < u32Max) :
    Inv m' (grants ++ as.filterMap (grantOf m.me op)) := by
  have hle := hmove.voteEffect.epoch_le
  have hnew : ∀ e c, (e, c) ∈ as.filterMap (grantOf m.me op) →
      e = m'.state.leaderEpoch ∧ ∃ key, m'.state.votedKey = some key ∧ key.id = c := by
    intro e c hc
    obtain ⟨a, ha, hg⟩ := mem_filterMap.mp hc
    exact hmove.grant ha hg
  -- A grant of the epoch that the move ends in names the vote recorded then.
  have hold : ∀ c, (m'.state.leaderEpoch, c) ∈ grants →
      ∃ key, m'.state.votedKey = some key ∧ key.id = c := by
    intro c hc
    have hsame : m'.state.leaderEpoch = m.state.leaderEpoch :=
      le_antisymm (h.epoch_le _ _ hc) hle
    obtain ⟨key, hkey, rfl⟩ := h.recorded c (hsame ▸ hc)
    exact hmove.voteEffect.keeps_vote hkeep hbound hsame hkey
  have hrecorded : ∀ c, (m'.state.leaderEpoch, c) ∈ grants ++ as.filterMap (grantOf m.me op) →
      ∃ key, m'.state.votedKey = some key ∧ key.id = c := by
    intro c hc
    rcases mem_append.mp hc with hc | hc
    · exact hold c hc
    · exact (hnew _ c hc).2
  refine ⟨?_, ?_, hrecorded⟩
  · intro e a b ha hb
    by_cases he : e = m'.state.leaderEpoch
    · subst he
      obtain ⟨key, hkey, rfl⟩ := hrecorded a ha
      obtain ⟨key', hkey', rfl⟩ := hrecorded b hb
      rw [Option.some.inj (hkey.symm.trans hkey')]
    · rcases mem_append.mp ha with ha | ha
      · rcases mem_append.mp hb with hb | hb
        · exact h.unique e a b ha hb
        · exact absurd (hnew e b hb).1 he
      · exact absurd (hnew e a ha).1 he
  · intro e a ha
    rcases mem_append.mp ha with ha | ha
    · exact (h.epoch_le e a ha).trans hle
    · exact (hnew e a ha).1.le

theorem Inv.moves {grants : List (Nat × NodeId)} (h : Inv m grants) (hmoves : Moves op m m' as)
    (hkeep : ∀ m₀, op.IsCurrentEnd m₀ → m.isVoter = true) (hbound : m'.state.leaderEpoch < u32Max) :
    Inv m' (grants ++ as.filterMap (grantOf m.me op)) := by
  induction hmoves generalizing grants with
  | nil => simpa using h
  | @cons m m₁ m' as bs head tail ih =>
    have hfirst := h.move head
      (fun hforget => by simp [hkeep m hforget.1] at hforget)
      (lt_of_le_of_lt tail.epoch_le hbound)
    rw [filterMap_append, ← append_assoc, ← head.kept.me]
    rw [← head.kept.me] at hfirst
    refine ih hfirst ?_ hbound
    intro m₀ hend
    -- `EndQuorumEpoch` is an event, and events keep the voter set.
    cases op with
    | event event log now => rw [head.isVoter (fun _ _ => nofun), hkeep m₀ hend]
    | _ => cases hend

/-- The operation does not drop a recorded vote: it is no current
`EndQuorumEpoch` at a replica outside its own voter set that has voted. -/
def KeepsVote (s : VoteHistory) (op : Op) : Prop :=
  ¬(op.IsCurrentEnd s.machine ∧ s.machine.isVoter = false ∧
    s.machine.state.votedKey.isSome = true)

instance (s : VoteHistory) (op : Op) : Decidable (s.KeepsVote op) :=
  inferInstanceAs (Decidable (¬(_ ∧ _ ∧ _)))

theorem Inv.step {s : VoteHistory} (h : Inv s.machine s.grants) (hkeep : s.KeepsVote op)
    (hbound : (s.step op).machine.state.leaderEpoch < u32Max) :
    Inv (s.step op).machine (s.step op).grants := by
  obtain ⟨m, grants⟩ := s
  by_cases hend : ∃ m₀, op.IsCurrentEnd m₀ ∧ m.isVoter = false
  · -- An `EndQuorumEpoch` outside the voter set: stale, or nothing to forget.
    obtain ⟨m₀, hend, hvoter⟩ := hend
    cases op with
    | event event log now =>
      cases event with
      | receiveEndQuorumEpoch leaderId epoch rank =>
        by_cases hstale : epoch < m.state.leaderEpoch
        · simpa [VoteHistory.step, run, onEvent, handleEndQuorumEpoch, hstale] using h
        · have hnone : m.state.votedKey = none := by
            by_contra hsome
            exact hkeep ⟨not_lt.mp hstale, hvoter, Option.isSome_iff_ne_none.mpr hsome⟩
          simp only [VoteHistory.step, run, onEvent, handleEndQuorumEpoch, hstale, hvoter,
            transitionToUnattached, if_false, Bool.not_false, if_true]
          refine ⟨?_, ?_, ?_⟩
          · simpa [grantOf] using h.unique
          · simpa [grantOf] using h.epoch_le
          · simpa [grantOf, hnone] using h.recorded
      | _ => cases hend
    | _ => cases hend
  · refine h.moves (run_moves m op) (fun m₀ hop => ?_) hbound
    by_contra hvoter
    exact hend ⟨m₀, hop, by simpa using hvoter⟩

/-- **One vote per epoch.**  In every run whose operations all keep the
recorded vote, the binding votes of one epoch name one candidate. -/
theorem one_vote_per_epoch {s : VoteHistory}
    (h : (system.restrict fun s op _ => s.KeepsVote op).Reachable s) : s.OneVotePerEpoch := by
  have hinv : Inv s.machine s.grants := by
    refine h.invariant (P := fun s => Inv s.machine s.grants) ?_ ?_
    · rintro s ⟨me, clusterId, voters, electionMs, fetchMs, rfl⟩
      exact ⟨by simp, by simp, by simp⟩
    · rintro s op s' hs ⟨⟨rfl, hbound⟩, hkeep⟩
      exact hs.step hkeep hbound
  exact hinv.unique

def freshVoter : VoteHistory :=
  ⟨.new 3 (.bootstrap Uuid.nil (.ofIds [1, 2, 3])) 1000 2000, []⟩

/-- A binding request of `candidate` to voter 3 in `epoch`. -/
def bindingRequest (candidate epoch : Nat) : Op :=
  .event (.receiveVoteRequest
    { fromId := candidate, clusterId := none, voterId := 3, voterDirectoryId := Uuid.nil
      candidateEpoch := epoch, candidate := candidate, candidateDirectoryId := Uuid.nil
      candidateLogEnd := ⟨0, 0⟩, preVote := false }) .empty 0

/-- The vote of epoch 1 is given once, also when a second candidate asks. -/
theorem one_vote_per_epoch_second_request :
    ([bindingRequest 1 1, bindingRequest 2 1].foldl step freshVoter).grants = [(1, 1)] ∧
      ([bindingRequest 1 1, bindingRequest 2 1].foldl step freshVoter).OneVotePerEpoch :=
  ⟨by decide,
    one_vote_per_epoch
      (.foldl (fun s op s' => s'.machine.state.leaderEpoch < u32Max ∧ s.KeepsVote op)
        (.init ⟨3, _, _, _, _, rfl⟩) (fun _ _ h => ⟨⟨rfl, h.1⟩, h.2⟩) (by decide))⟩

/-- Voter 3 grants candidate 1, is removed from the voter set, receives an
`EndQuorumEpoch`, is added again and grants candidate 2 in the same epoch. -/
theorem second_vote_after_removal :
    ∃ s, system.Reachable s ∧ (1, 1) ∈ s.grants ∧ (1, 2) ∈ s.grants ∧ ¬s.OneVotePerEpoch := by
  let ops : List Op :=
    [bindingRequest 1 1, .applyVoterSet (.ofIds [1, 2]) 0,
      .event (.receiveEndQuorumEpoch 1 1 ⟨0, 1⟩) .empty 0,
      .applyVoterSet (.ofIds [1, 2, 3]) 0, bindingRequest 2 1]
  have hgrants : (ops.foldl step freshVoter).grants = [(1, 1), (1, 2)] := by decide
  refine ⟨ops.foldl step freshVoter, ?_, ?_, ?_, ?_⟩
  · exact .foldl (fun _ _ s' => s'.machine.state.leaderEpoch < u32Max)
      (.init ⟨3, _, _, _, _, rfl⟩) (fun _ _ h => ⟨rfl, h⟩) (by decide)
  · simp [hgrants]
  · simp [hgrants]
  · intro hone
    exact absurd (hone 1 1 2 (by simp [hgrants]) (by simp [hgrants])) (by decide)

end VoteHistory

end QuorumStateMachine

end Krabka.KraftCore

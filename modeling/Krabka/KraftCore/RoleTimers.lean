import Krabka.KraftCore.Votes

/-!
# The timer of a role

Every role has a timer that carries the replica on: `neededTimer`.  A move that
makes another timer necessary asks for it (`Moves.neededTimer`), and a move keeps
the roles that wait for an election to voters (`Moves.wellPlaced`), up to a newer
rejection and an `EndQuorumEpoch` outside the voter set.  A new voter set is the
one operation that can need a timer without asking for it
(`applyVoterSet_of_dropsLeaderless`).
-/

namespace Krabka.KraftCore

open QuorumStateMachine

/-- The roles that only an election timeout moves on. -/
def Role.awaitsElection : Role → Bool
  | .unattached _ | .voted _ | .prospective .. | .candidate .. | .resigned => true
  | .follower .. | .observer .. | .leader _ => false

namespace QuorumStateMachine

variable {op : Op} {m m' : QuorumStateMachine} {as : List Action} {k : TimerKind}

/-- The timer that moves the replica on. -/
def neededTimer (m : QuorumStateMachine) : Option TimerKind :=
  match m.role with
  | .unattached _ | .voted _ | .prospective .. | .candidate .. | .resigned => some .election
  | .follower .. | .observer .. => some .fetch
  | .leader _ => if m.runsCheckQuorum then some .checkQuorum else none

def WellPlaced (m : QuorumStateMachine) : Prop := m.role.awaitsElection = true → m.isVoter = true

theorem neededTimer_of_awaitsElection (h : m.role.awaitsElection = true) :
    m.neededTimer = some .election := by
  unfold neededTimer
  cases hrole : m.role <;> rw [hrole] at h <;> first | rfl | cases h

theorem awaitsElection_of_neededTimer (h : m.neededTimer = some .election) :
    m.role.awaitsElection = true := by
  unfold neededTimer at h
  cases hrole : m.role with
  | leader f => rw [hrole] at h; dsimp only at h; split_ifs at h; cases h
  | follower | observer => rw [hrole] at h; cases h
  | _ => rfl

theorem isLeader_of_neededTimer (h : m.neededTimer = some .checkQuorum) :
    m.role.isLeader = true := by
  unfold neededTimer at h
  cases hrole : m.role with
  | leader f => rfl
  | _ => rw [hrole] at h; cases h

theorem awaitsElection_of_isLeader (h : m.role.isLeader = true) :
    m.role.awaitsElection = false := by
  cases hrole : m.role <;> rw [hrole] at h <;> first | rfl | cases h

theorem awaitsElection_of_sameRole
    (h : m'.role = m.role ∨ (m.role.isLeader = true ∧ m'.role.isLeader = true))
    (hrole : m'.role.awaitsElection = true) : m.role.awaitsElection = true := by
  rcases h with hsame | ⟨-, hlead⟩
  · rwa [← hsame]
  · rw [awaitsElection_of_isLeader hlead] at hrole
    cases hrole

theorem Op.IsNewerRejection.mono (h : op.IsNewerRejection m')
    (hle : m.state.leaderEpoch ≤ m'.state.leaderEpoch) : op.IsNewerRejection m := by
  unfold Op.IsNewerRejection at h ⊢
  split at h
  · exact ⟨h.1, hle.trans_lt h.2⟩
  · exact h

theorem Op.IsCurrentEnd.mono (h : op.IsCurrentEnd m')
    (hle : m.state.leaderEpoch ≤ m'.state.leaderEpoch) : op.IsCurrentEnd m := by
  unfold Op.IsCurrentEnd at h ⊢
  split at h
  · exact hle.trans h
  · exact h

theorem runsCheckQuorum_congr (hvoters : m'.state.voters = m.state.voters) (hme : m'.me = m.me) :
    m'.runsCheckQuorum = m.runsCheckQuorum := by
  rw [runsCheckQuorum, runsCheckQuorum, QuorumStateMachine.isVoter, QuorumStateMachine.isVoter,
    hvoters, hme]

theorem neededTimer_of_sameRole (hvoters : m'.state.voters = m.state.voters) (hme : m'.me = m.me)
    (hrole : m'.role = m.role ∨ (m.role.isLeader = true ∧ m'.role.isLeader = true)) :
    m'.neededTimer = m.neededTimer := by
  unfold neededTimer
  rw [runsCheckQuorum_congr hvoters hme]
  rcases hrole with hsame | ⟨hlead, hlead'⟩
  · rw [hsame]
  · cases h : m.role with
    | leader f =>
      cases h' : m'.role with
      | leader f' => rfl
      | _ => rw [h'] at hlead'; cases hlead'
    | _ => rw [h] at hlead; cases hlead

theorem neededTimer_of_role (hlead : m.role.isLeader = false) (hrole : m'.role = m.role) :
    m'.neededTimer = m.neededTimer := by
  unfold neededTimer
  rw [hrole]
  cases h : m.role with
  | leader f => rw [h] at hlead; cases hlead
  | _ => rfl

/-! ## The transitions that ask for the timer of their new role -/

variable {now : Nat}

theorem follow_neededTimer {leaderId leaderEpoch : Nat}
    (hk : (m.follow leaderId leaderEpoch now).1.neededTimer = some k) :
    ∃ d, .resetTimer k d ∈ (m.follow leaderId leaderEpoch now).2 := by
  have hfetch : k = .fetch := by
    simp only [neededTimer, follow] at hk
    split_ifs at hk <;> cases hk <;> rfl
  subst hfetch
  simp [follow]

theorem awaitElection_neededTimer {deadline : Nat}
    (hk : (m.awaitElection deadline).1.neededTimer = some k) :
    ∃ d, .resetTimer k d ∈ (m.awaitElection deadline).2 := by
  have helection : k = .election := by
    simp only [neededTimer, awaitElection] at hk
    split_ifs at hk <;> cases hk <;> rfl
  subst helection
  simp [awaitElection]

theorem promoteToLeader_neededTimer (log : LogView) (now : Nat)
    (hk : (m.promoteToLeader log now).1.neededTimer = some k) :
    ∃ d, .resetTimer k d ∈ (m.promoteToLeader log now).2 := by
  change (if m.runsCheckQuorum = true then some TimerKind.checkQuorum else none) = some k at hk
  split_ifs at hk with hcheck
  cases hk
  simp [promoteToLeader, hcheck]

theorem transitionToResigned_neededTimer
    (hk : (m.transitionToResigned now).1.neededTimer = some k) :
    ∃ d, .resetTimer k d ∈ (m.transitionToResigned now).2 := by
  simp only [neededTimer, transitionToResigned] at hk ⊢
  split_ifs at hk ⊢ <;> cases hk <;> simp

/-- **A move that makes a timer necessary asks for it.** -/
theorem Move.neededTimer (h : Move op m m' as) (hop : ∀ voters now, op ≠ .applyVoterSet voters now)
    (hk : m'.neededTimer = some k) : (∃ d, .resetTimer k d ∈ as) ∨ m.neededTimer = some k := by
  cases h
  case deny | grantPreVote | diverge => exact .inr hk
  case castVote =>
    cases hk
    exact .inl (by simp [QuorumStateMachine.castVote])
  case newEpoch | endAsNonVoter =>
    cases hk
    exact .inl (by simp [transitionToUnattached])
  case follow => exact .inl (follow_neededTimer hk)
  case loseRound | endAsVoter => exact .inl (awaitElection_neededTimer hk)
  case becomeProspective =>
    cases hk
    exact .inl (by simp [QuorumStateMachine.becomeProspective])
  case becomeCandidate =>
    cases hk
    exact .inl (by simp [QuorumStateMachine.becomeCandidate])
  case promoteToLeader => exact .inl (promoteToLeader_neededTimer _ _ hk)
  case resign => exact .inl (transitionToResigned_neededTimer hk)
  case finishRemoval now hvoter hleader =>
    rw [finishLocalLeaderRemoval, if_neg (by simp [hvoter, hleader])] at hk ⊢
    cases hk
    exact .inl (by simp)
  case discover =>
    cases hk
    exact .inl (by simp [becomeDiscoveringObserver])
  case recordGrant fromId _ _ _ _ _ =>
    refine .inr ?_
    rcases recordGrant_cases (m := m) fromId with h | ⟨g, r, d, a, hrole, h⟩ | ⟨g, d, hrole, h⟩
    · rwa [h] at hk
    · rw [h] at hk
      cases hk
      exact neededTimer_of_awaitsElection (by rw [hrole]; rfl)
    · rw [h] at hk
      cases hk
      exact neededTimer_of_awaitsElection (by rw [hrole]; rfl)
  case recordRejection hrole =>
    cases hk
    exact .inr (neededTimer_of_awaitsElection (by rw [hrole]; rfl))
  case contact fromId now _ =>
    obtain ⟨hstate, hme, -, hrole⟩ := recordQuorumContact_frame (m := m) fromId now
    rw [neededTimer_of_sameRole (by rw [hstate]) hme hrole] at hk
    exact .inr hk
  case progress fromId _ offset log now _ _ _ =>
    obtain ⟨hstate, hme, -, hrole⟩ := recordProgress_frame (m := m) log.endOffset offset fromId now
    rw [neededTimer_of_sameRole (by rw [hstate]) hme hrole] at hk
    exact .inr hk
  case fetched l e diverging log now _ =>
    obtain ⟨hstate, hme, -, hsame | ⟨l', d, b, hrole, hnew⟩⟩ :=
      handleFetchResponse_frame (m := m) log l e diverging now
    · rw [neededTimer_of_sameRole (by rw [hstate]) hme (.inl hsame)] at hk
      exact .inr hk
    · rw [QuorumStateMachine.neededTimer, hnew] at hk
      rw [QuorumStateMachine.neededTimer, hrole]
      exact .inr hk
  case applyVoterSet voters now hop' => exact absurd hop' (hop voters now)
  case commitVoterSet | setKraftVersion => exact .inr hk
  case adoptReplicaProgress id progress _ =>
    obtain ⟨hstate, hme, -, hrole⟩ := adoptReplicaProgress_frame (m := m) id progress
    rw [neededTimer_of_sameRole (by rw [hstate]) hme hrole] at hk
    exact .inr hk

theorem Moves.neededTimer (h : Moves op m m' as)
    (hop : ∀ voters now, op ≠ .applyVoterSet voters now) (hk : m'.neededTimer = some k) :
    (∃ d, .resetTimer k d ∈ as) ∨ m.neededTimer = some k := by
  induction h with
  | nil => exact .inr hk
  | cons head _ ih =>
    rcases ih hk with ⟨d, hd⟩ | hk
    · exact .inl ⟨d, List.mem_append_right _ hd⟩
    · rcases Move.neededTimer head hop hk with ⟨d, hd⟩ | hk
      · exact .inl ⟨d, List.mem_append_left _ hd⟩
      · exact .inr hk

theorem Move.wellPlaced (h : Move op m m' as) (hop : ∀ voters now, op ≠ .applyVoterSet voters now)
    (hrejection : ¬op.IsNewerRejection m) (hend : ¬(op.IsCurrentEnd m ∧ m.isVoter = false))
    (hm : m.WellPlaced) : m'.WellPlaced := by
  intro hrole
  rw [Move.isVoter h hop]
  cases h
  case deny | grantPreVote | diverge | commitVoterSet | setKraftVersion => exact hm hrole
  case castVote hvoter _ _ => exact hvoter
  case newEpoch hvoter => exact hvoter.resolve_right hrejection
  case endAsNonVoter hend' hvoter => exact absurd ⟨hend', hvoter⟩ hend
  case endAsVoter hvoter => exact hvoter
  case becomeProspective hvoter => exact hvoter
  case promoteToLeader | discover => cases hrole
  case follow =>
    simp only [QuorumStateMachine.follow] at hrole
    split_ifs at hrole <;> cases hrole
  case loseRound hrole' | becomeCandidate hrole' _ | recordRejection hrole' =>
    exact hm (by rw [hrole']; rfl)
  case resign =>
    simp only [transitionToResigned] at hrole
    split_ifs at hrole with hvoter
    · exact hvoter
    · cases hrole
  case finishRemoval hvoter hleader =>
    rw [finishLocalLeaderRemoval, if_neg (by simp [hvoter, hleader])] at hrole
    cases hrole
  case recordGrant fromId _ _ _ _ _ =>
    rcases recordGrant_cases (m := m) fromId with h | ⟨g, r, d, a, hrole', -⟩ | ⟨g, d, hrole', -⟩
    · rw [h] at hrole
      exact hm hrole
    · exact hm (by rw [hrole']; rfl)
    · exact hm (by rw [hrole']; rfl)
  case contact fromId now hleader =>
    exact hm (awaitsElection_of_sameRole
      (recordQuorumContact_frame (m := m) fromId now).2.2.2 hrole)
  case progress fromId _ offset log now _ hleader _ =>
    exact hm (awaitsElection_of_sameRole
      (recordProgress_frame (m := m) log.endOffset offset fromId now).2.2.2 hrole)
  case fetched l e diverging log now _ =>
    obtain ⟨-, -, -, hsame | ⟨l', d, b, -, hnew⟩⟩ :=
      handleFetchResponse_frame (m := m) log l e diverging now
    · exact hm (hsame ▸ hrole)
    · rw [hnew] at hrole
      cases hrole
  case applyVoterSet voters now hop' => exact absurd hop' (hop voters now)
  case adoptReplicaProgress id progress _ =>
    exact hm (awaitsElection_of_sameRole
      (adoptReplicaProgress_frame (m := m) id progress).2.2.2 hrole)

theorem Moves.wellPlaced (h : Moves op m m' as) (hop : ∀ voters now, op ≠ .applyVoterSet voters now)
    (hrejection : ¬op.IsNewerRejection m) (hend : ¬(op.IsCurrentEnd m ∧ m.isVoter = false))
    (hm : m.WellPlaced) : m'.WellPlaced := by
  induction h with
  | nil => exact hm
  | cons head _ ih =>
    -- The epoch never goes back, so what is stale for `m` stays stale.
    have hle := (Move.voteEffect head).epoch_le
    refine ih (fun h => hrejection (h.mono hle)) (fun h => hend ⟨h.1.mono hle, ?_⟩)
      (head.wellPlaced hop hrejection hend hm)
    rw [← Move.isVoter head hop]
    exact h.2

variable {log : LogView}

theorem startElection_neededTimer (hk : (m.startElection log now).1.neededTimer = some k) :
    ∃ d, .resetTimer k d ∈ (m.startElection log now).2 := by
  unfold startElection promoteToCandidate at hk ⊢
  dsimp only at hk ⊢
  split_ifs at hk ⊢
  · obtain ⟨d, hd⟩ := promoteToLeader_neededTimer log now hk
    exact ⟨d, by simp [hd]⟩
  · cases hk
    simp [becomeCandidate]
  · cases hk
    simp [becomeProspective]

theorem handleElectionTimeout_neededTimer (hvoter : m.isVoter = true)
    (hk : (m.handleElectionTimeout log now).1.neededTimer = some k) :
    ∃ d, .resetTimer k d ∈ (m.handleElectionTimeout log now).2 := by
  unfold handleElectionTimeout at hk ⊢
  rw [hvoter] at hk ⊢
  rw [if_neg (by simp)] at hk ⊢
  split at hk
  case h_1 leaderId hrole =>
    dsimp only at hk ⊢
    split_ifs at hk ⊢ with hfollowed
    · -- The abandoned leader is followed again.
      unfold handleBeginQuorumEpoch at hk hfollowed ⊢
      split_ifs at hk hfollowed ⊢
      · simp at hfollowed
      · exact follow_neededTimer hk
      · simp at hfollowed
    · exact startElection_neededTimer hk
  case h_2 => exact startElection_neededTimer hk

theorem handleFetchTimeout_neededTimer
    (hk : (m.handleFetchTimeout log now).1.neededTimer = some k) :
    ∃ d, .resetTimer k d ∈ (m.handleFetchTimeout log now).2 := by
  unfold handleFetchTimeout at hk ⊢
  split_ifs at hk ⊢
  · exact startElection_neededTimer hk
  · cases hk
    simp [becomeDiscoveringObserver]

theorem handleCheckQuorumTimeout_neededTimer (hleader : m.role.isLeader = true)
    (hk : (m.handleCheckQuorumTimeout now).1.neededTimer = some k) :
    ∃ d, .resetTimer k d ∈ (m.handleCheckQuorumTimeout now).2 := by
  unfold handleCheckQuorumTimeout at hk ⊢
  split_ifs at hk ⊢ with hskip
  · -- A leader that runs no check quorum needs no timer.
    simp only [hleader, Bool.not_true, Bool.false_or, Bool.not_eq_true'] at hskip
    obtain ⟨f, hrole⟩ : ∃ f, m.role = .leader f := by
      cases hrole : m.role <;> rw [hrole] at hleader <;> first | exact ⟨_, rfl⟩ | cases hleader
    rw [neededTimer, hrole] at hk
    simp [hskip] at hk
  · exact transitionToResigned_neededTimer hk

/-! ## Voter sets -/

/-- The voter set drops a voter that does not lead and knows no leader. -/
def DropsLeaderless (m : QuorumStateMachine) (voters : VoterSet) : Prop :=
  m.role.isLeader = false ∧ m.isVoter = true ∧ voters.contains m.me = false ∧
    m.state.leaderId = none

variable {voters : VoterSet}

theorem applyVoterSet_neededTimer (hk : (m.applyVoterSet voters now).1.neededTimer = some k) :
    (∃ d, .resetTimer k d ∈ (m.applyVoterSet voters now).2) ∨ m.neededTimer = some k ∨
      k = .fetch ∧ m.DropsLeaderless voters := by
  rcases applyVoterSet_cases (m := m) voters now with ⟨f, f', -, h⟩ | ⟨hlead, h⟩ <;> rw [h] at hk ⊢
  · change (if (m.withVoters voters).runsCheckQuorum = true then some TimerKind.checkQuorum
      else none) = some k at hk
    split_ifs at hk with hcheck
    cases hk
    exact .inl (by simp [hcheck])
  · have hsame : (m.withVoters voters).neededTimer = m.neededTimer := neededTimer_of_role hlead rfl
    unfold changeMembership at hk ⊢
    cases hwas : m.isVoter <;> cases his : (m.withVoters voters).isVoter <;>
      rw [hwas, his] at hk <;> dsimp only at hk ⊢
    · exact .inr (.inl (hsame.symm.trans hk))
    · cases hleader : (m.withVoters voters).state.leaderId <;> rw [hleader] at hk <;> cases hk <;>
        exact .inl (by simp)
    · cases hk
      cases hleader : (m.withVoters voters).state.leaderId with
      | some l => exact .inl (by simp)
      | none => exact .inr (.inr ⟨rfl, hlead, hwas, his, hleader⟩)
    · exact .inr (.inl (hsame.symm.trans hk))

theorem applyVoterSet_wellPlaced (hm : m.WellPlaced) :
    (m.applyVoterSet voters now).1.WellPlaced := by
  intro hrole
  rcases applyVoterSet_cases (m := m) voters now with ⟨f, f', -, h⟩ | ⟨-, h⟩ <;> rw [h] at hrole ⊢
  · cases hrole
  obtain ⟨hstate, hme, -, ⟨hsame, hvoter⟩ | ⟨-, -, d, hnew⟩ | ⟨-, hvoter, -⟩⟩ :=
    changeMembership_frame (m := m.withVoters voters) m.isVoter now
  all_goals rw [QuorumStateMachine.isVoter, hstate, hme]
  · exact hvoter.trans (hm (hsame ▸ hrole))
  · rw [hnew] at hrole
    cases hrole
  · exact hvoter

theorem applyVoterSet_of_dropsLeaderless (now : Nat) (h : m.DropsLeaderless voters) :
    (m.applyVoterSet voters now).1.neededTimer = some .fetch ∧
      (m.applyVoterSet voters now).2 = [.transitionedTo "Observer"] := by
  obtain ⟨hlead, hwas, his, hleader⟩ := h
  rcases applyVoterSet_cases (m := m) voters now with ⟨f, f', hrole, -⟩ | ⟨-, h⟩
  · rw [hrole] at hlead
    cases hlead
  have his' : (m.withVoters voters).isVoter = false := his
  have hleader' : (m.withVoters voters).state.leaderId = none := hleader
  rw [h]
  unfold changeMembership
  rw [hwas, his']
  rw [hleader']
  exact ⟨rfl, rfl⟩

end QuorumStateMachine

end Krabka.KraftCore

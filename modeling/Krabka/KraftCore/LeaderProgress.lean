import Krabka.KraftCore.Votes
import Krabka.Lib.Ballots

/-!
# How a leadership begins and goes on

What the operations do to the fields of `Role::Leader`: a leadership is kept,
with the fetch offsets it has validated, or it is won, with offsets at 0 and
the log end of the election as its start.  `Moves.leadership` is the
classification over a whole event.

A promotion is always the last thing that an event does
(`onEvent_promotion`), so the `LeaderChange` record is appended in the epoch
that was won.  `recordProgress_advances` is the arithmetic of the high
watermark: an offset that is announced lies behind the start of the epoch, and a
majority of the voters has reached it.
-/

namespace Krabka.KraftCore

open List

namespace QuorumStateMachine

variable {op : Op} {m m' m'' : QuorumStateMachine} {as : List Action}

/-! ## Candidates -/

theorem VoteEffect.candidate (h : VoteEffect op m m') (hbound : m'.state.leaderEpoch < u32Max)
    (hcand : m'.role.isCandidate = true) :
    m.role.isCandidate = true ∧ m'.state.leaderEpoch = m.state.leaderEpoch ∨
      m.state.leaderEpoch < m'.state.leaderEpoch := by
  cases h with
  | quiet hepoch _ hsame _ =>
    cases hrole : m'.role with
    | candidate g d =>
      rw [hsame g d hrole]
      exact .inl ⟨rfl, hepoch⟩
    | _ => rw [hrole] at hcand; cases hcand
  | newEpoch hlt => exact .inr hlt
  | forget _ _ _ _ hno | vote _ _ _ _ _ _ _ _ _ _ _ hno => rw [hno] at hcand; cases hcand
  | candidacy hepoch =>
    rw [hepoch] at hbound ⊢
    rw [nextEpoch_of_lt hbound]
    exact .inr (Nat.lt_succ_self _)
  | grant _ _ _ _ _ _ hepoch _ hrole =>
    obtain ⟨g, d, hrole, -⟩ := hrole
    rw [hrole]
    exact .inl ⟨rfl, hepoch⟩
  | win _ _ hrole _ hepoch =>
    rw [hrole]
    exact .inl ⟨rfl, hepoch⟩

theorem Moves.candidate (h : Moves op m m' as) (hbound : m'.state.leaderEpoch < u32Max)
    (hcand : m'.role.isCandidate = true) :
    m.role.isCandidate = true ∧ m'.state.leaderEpoch = m.state.leaderEpoch ∨
      m.state.leaderEpoch < m'.state.leaderEpoch := by
  induction h with
  | nil => exact .inl ⟨hcand, rfl⟩
  | cons head tail ih =>
    have hle := head.voteEffect.epoch_le
    rcases ih hbound hcand with ⟨hcand₁, hepoch⟩ | hlt
    · rw [hepoch] at hbound ⊢
      exact head.voteEffect.candidate hbound hcand₁
    · exact .inr (lt_of_le_of_lt hle hlt)

/-! ## The fields of a leader -/

/-- `op` is a Fetch of `y` at `offset` that the log accepts. -/
def Fetched (op : Op) (y : NodeId) (offset : Int) : Prop :=
  ∃ epoch log now, op = .event (.receiveFetch y epoch offset) log now ∧
    fetchDiverges log epoch offset = false

/-- Where the leadership with the fields `f'` comes from. -/
inductive Leadership (op : Op) (m m' : QuorumStateMachine) (f' : LeaderFields) : Prop
  | kept (f : LeaderFields) (hrole : m.role = .leader f)
      (hepoch : m'.state.leaderEpoch = m.state.leaderEpoch)
      (hstart : f'.epochStartOffset = f.epochStartOffset)
      (hprogress : ∀ y p', f'.replicas.get? y = some p' → ∃ p, f.replicas.get? y = some p ∧
        (p'.fetchOffset = p.fetchOffset ∨ Fetched op y p'.fetchOffset))
  | won (hcause : m.role.isCandidate = true ∧ m'.state.leaderEpoch = m.state.leaderEpoch ∨
        m.state.leaderEpoch < m'.state.leaderEpoch)
      (hstart : ∃ event log now, op = .event event log now ∧
        f'.epochStartOffset = log.endOffset)
      (hprogress : ∀ y p', f'.replicas.get? y = some p' →
        m.state.voters.contains y = true ∧ y ≠ m.me ∧
          (p'.fetchOffset = 0 ∨ Fetched op y p'.fetchOffset))

variable {f f' : LeaderFields}

theorem Leadership.same (hrole : m.role = .leader f)
    (hepoch : m'.state.leaderEpoch = m.state.leaderEpoch)
    (hstart : f'.epochStartOffset = f.epochStartOffset) (hreplicas : f'.replicas = f.replicas) :
    Leadership op m m' f' :=
  .kept f hrole hepoch hstart (fun _ p' hp => ⟨p', hreplicas ▸ hp, .inl rfl⟩)

theorem get?_foldl_insert (ids : List NodeId) (acc : SortedMap NodeId ReplicaProgress)
    {y : NodeId} {p : ReplicaProgress}
    (h : (ids.foldl (fun acc id => acc.insert id {}) acc).get? y = some p) :
    y ∈ ids ∧ p.fetchOffset = 0 ∨ acc.get? y = some p := by
  induction ids generalizing acc with
  | nil => exact .inr h
  | cons id ids ih =>
    rcases ih (acc.insert id {}) h with ⟨hmem, hp⟩ | hget
    · exact .inl ⟨mem_cons_of_mem id hmem, hp⟩
    · rw [SortedMap.get?_insert] at hget
      split_ifs at hget with hy
      · subst hy
        rw [← Option.some.inj hget]
        exact .inl ⟨mem_cons_self, rfl⟩
      · exact .inr hget

theorem recordProgress_fields (logEnd fetchOffset : Int) (fromId now : Nat)
    (hrole : m.role = .leader f) :
    ∃ hwm, (m.recordProgress logEnd fromId fetchOffset now).1.role = .leader
      { f with
        replicas := f.replicas.modify fromId (·.recordFetch now fetchOffset logEnd)
        highWatermark := hwm } := by
  unfold recordProgress
  rw [hrole]
  dsimp only
  split_ifs
  · exact ⟨_, rfl⟩
  · exact ⟨f.highWatermark, rfl⟩

theorem recordQuorumContact_fields (fromId now : Nat) (hrole : m.role = .leader f) :
    ∃ fetched, (m.recordQuorumContact fromId now).1.role =
      .leader { f with fetchedVoters := fetched } := by
  unfold recordQuorumContact
  split_ifs
  · exact ⟨f.fetchedVoters, hrole⟩
  · rw [hrole]
    dsimp only
    split_ifs <;> exact ⟨_, rfl⟩

theorem Move.leadership (h : Move op m m' as) (hop : ∃ event log now, op = .event event log now)
    (hrole : m'.role = .leader f') : Leadership op m m' f' := by
  cases h
  case deny | grantPreVote | diverge => exact .same hrole rfl rfl rfl
  case castVote | newEpoch | endAsNonVoter | becomeProspective | becomeCandidate | discover
      | recordRejection => cases hrole
  case follow leaderId leaderEpoch now _ _ _ =>
    exfalso
    revert hrole
    simp only [QuorumStateMachine.follow]
    split_ifs <;> simp
  case loseRound | endAsVoter =>
    refine absurd (congrArg Role.isLeader hrole) ?_
    rw [awaitElection_role.2]
    simp [Role.isLeader]
  case promoteToLeader log now hlog hcand htally =>
    obtain ⟨event, hop⟩ := hlog
    simp only [QuorumStateMachine.promoteToLeader, Role.leader.injEq] at hrole
    subst hrole
    refine .won (.inl ⟨by rw [hcand]; rfl, rfl⟩) ⟨event, log, now, hop, rfl⟩ ?_
    intro y p' hp
    rcases get?_foldl_insert _ _ hp with ⟨hmem, hzero⟩ | hget
    · rw [mem_filter] at hmem
      exact ⟨(m.state.voters.map.mem_keys_iff y).mp hmem.1, by simpa using hmem.2, .inl hzero⟩
    · cases hget
  case resign =>
    simp only [transitionToResigned] at hrole
    split_ifs at hrole
  case finishRemoval hvoter hleader =>
    rw [finishLocalLeaderRemoval, if_neg (by simp [hvoter, hleader])] at hrole
    cases hrole
  case recordGrant fromId _ _ _ _ _ =>
    rcases recordGrant_cases (m := m) fromId with h | ⟨g, r, d, a, _, h⟩ | ⟨g, d, _, h⟩ <;>
      rw [h] at hrole ⊢
    · exact .same hrole rfl rfl rfl
    · cases hrole
    · cases hrole
  case contact fromId now hleader =>
    cases hm : m.role with
    | leader f =>
      obtain ⟨fetched, hrole'⟩ := recordQuorumContact_fields fromId now hm
      rw [hrole', Role.leader.injEq] at hrole
      subst hrole
      exact .same hm (by rw [(recordQuorumContact_frame _ _).1]) rfl rfl
    | _ => rw [hm] at hleader; cases hleader
  case progress fromId fetchEpoch fetchOffset log now hop' hleader hdiv =>
    cases hm : m.role with
    | leader f =>
      obtain ⟨hwm, hrole'⟩ := recordProgress_fields log.endOffset fetchOffset fromId now hm
      rw [hrole', Role.leader.injEq] at hrole
      subst hrole
      refine .kept f hm (by rw [(recordProgress_frame _ _ _ _).1]) rfl ?_
      intro y p' hp
      rw [SortedMap.get?_modify] at hp
      split_ifs at hp with hy
      · subst hy
        obtain ⟨p, hget, rfl⟩ := Option.map_eq_some_iff.mp hp
        exact ⟨p, hget, .inr ⟨fetchEpoch, log, now, hop', hdiv⟩⟩
      · exact ⟨p', hp, .inl rfl⟩
    | _ => rw [hm] at hleader; cases hleader
  case fetched =>
    obtain ⟨hstate, -, -, hsame | ⟨l, d, b, hrole', hnew⟩⟩ := handleFetchResponse_frame _ _ _ _ _
    · rw [hsame] at hrole
      exact .same hrole (by rw [hstate]) rfl rfl
    · rw [hnew] at hrole
      cases hrole
  all_goals
    obtain ⟨event, log, now, hop⟩ := hop
    simp_all

/-- **Where the leadership after an event comes from.** -/
theorem Moves.leadership (h : Moves op m m' as)
    (hop : ∃ event log now, op = .event event log now) (hbound : m'.state.leaderEpoch < u32Max)
    (hrole : m'.role = .leader f') : Leadership op m m' f' := by
  induction h with
  | nil => exact .same hrole rfl rfl rfl
  | @cons m m₁ m' as bs head tail ih =>
    have hle := head.voteEffect.epoch_le
    cases ih hbound hrole with
    | kept f₁ hrole₁ hepoch hstart hprogress =>
      cases head.leadership hop hrole₁ with
      | kept f hrole hepoch' hstart' hprogress' =>
        refine .kept f hrole (hepoch.trans hepoch') (hstart.trans hstart') ?_
        intro y p' hp
        obtain ⟨p₁, hp₁, hoff⟩ := hprogress y p' hp
        obtain ⟨p, hp, hoff'⟩ := hprogress' y p₁ hp₁
        refine ⟨p, hp, ?_⟩
        rcases hoff with hoff | hf
        · rwa [hoff]
        · exact .inr hf
      | won hcause hstart' hprogress' =>
        obtain ⟨event, log, now, hop', hstart'⟩ := hstart'
        refine .won (by rwa [hepoch]) ⟨event, log, now, hop', hstart.trans hstart'⟩ ?_
        intro y p' hp
        obtain ⟨p₁, hp₁, hoff⟩ := hprogress y p' hp
        obtain ⟨hv, hne, hoff'⟩ := hprogress' y p₁ hp₁
        refine ⟨hv, hne, ?_⟩
        rcases hoff with hoff | hf
        · rwa [hoff]
        · exact .inr hf
    | won hcause hstart hprogress =>
      refine .won ?_ hstart ?_
      · rcases hcause with ⟨hcand, hepoch⟩ | hlt
        · rw [hepoch] at hbound ⊢
          exact head.voteEffect.candidate hbound hcand
        · exact .inr (lt_of_le_of_lt hle hlt)
      · intro y p' hp
        obtain ⟨hv, hne, hoff⟩ := hprogress y p' hp
        rw [head.kept.voters (Op.ne_applyVoterSet hop)] at hv
        rw [head.kept.me] at hne
        exact ⟨hv, hne, hoff⟩

/-! ## A promotion comes last -/

/-- No `LeaderChange` is appended. -/
def NoAppend (as : List Action) : Prop := ∀ e, .appendLeaderChange e ∉ as

/-- The result appends no `LeaderChange`, or ends in a promotion. -/
def EndsInPromotion (op : Op) (log : LogView) (now : Nat) (m : QuorumStateMachine)
    (r : QuorumStateMachine × List Action) : Prop :=
  NoAppend r.2 ∨ ∃ m₁ pre, Moves op m m₁ pre ∧ NoAppend pre ∧
    r = ((m₁.promoteToLeader log now).1, pre ++ (m₁.promoteToLeader log now).2)

section

variable {log : LogView} {now : Nat}

theorem promoteToCandidate_promotion {granted rejected : Finset NodeId} {deadline : Nat}
    {abandoned : Option NodeId} (hrole : m.role = .prospective granted rejected deadline abandoned)
    (htally : m.tallyReachedMajority = true) :
    EndsInPromotion op log now m (m.promoteToCandidate log now) := by
  have hpre : NoAppend (m.becomeCandidate now).2 := by
    simp [NoAppend, QuorumStateMachine.becomeCandidate]
  unfold promoteToCandidate
  dsimp only
  split_ifs with hwon
  · exact .inr ⟨_, _, .single (.becomeCandidate hrole htally), hpre, rfl⟩
  · exact .inl hpre

theorem startElection_promotion (hvoter : m.isVoter = true) :
    EndsInPromotion op log now m (m.startElection log now) := by
  have hpre : NoAppend (m.becomeProspective now).2 := by
    simp [NoAppend, QuorumStateMachine.becomeProspective]
  have hfirst : Moves op m (m.becomeProspective now).1 (m.becomeProspective now).2 :=
    .single (.becomeProspective hvoter)
  unfold startElection
  dsimp only
  split_ifs with hwon
  · have hrole : ∃ g r d a, (m.becomeProspective now).1.role = .prospective g r d a :=
      ⟨_, _, _, _, rfl⟩
    obtain ⟨g, r, d, a, hrole⟩ := hrole
    rcases promoteToCandidate_promotion hrole hwon with hno | ⟨m₁, pre, hmoves, hno, heq⟩
    · refine .inl (fun e he => ?_)
      rcases mem_append.mp he with he | he
      exacts [hpre e he, hno e he]
    · refine .inr ⟨m₁, (m.becomeProspective now).2 ++ pre, hfirst.append hmoves, ?_, ?_⟩
      · intro e he
        rcases mem_append.mp he with he | he
        exacts [hpre e he, hno e he]
      · rw [heq, append_assoc]
  · exact .inl hpre

theorem noAppend_handleBeginQuorumEpoch {leaderId : NodeId} {leaderEpoch : Nat} :
    NoAppend (m.handleBeginQuorumEpoch leaderId leaderEpoch now).2 := by
  unfold handleBeginQuorumEpoch
  split_ifs <;> simp [NoAppend, QuorumStateMachine.follow]

theorem handleElectionTimeout_promotion :
    EndsInPromotion op log now m (m.handleElectionTimeout log now) := by
  unfold handleElectionTimeout
  split_ifs with hvoter
  · exact .inl (by simp [NoAppend])
  · rw [Bool.not_eq_true, Bool.not_eq_false'] at hvoter
    split
    · dsimp only
      split_ifs
      · exact .inl noAppend_handleBeginQuorumEpoch
      · exact startElection_promotion hvoter
    · exact startElection_promotion hvoter

theorem handleVoteResponse_promotion {fromId : NodeId} {epoch : Nat} {granted : Bool}
    (hop : op = .event (.receiveVoteResponse fromId epoch granted) log now) :
    EndsInPromotion op log now m (m.handleVoteResponse log fromId epoch granted now) := by
  unfold handleVoteResponse
  split_ifs with hnewer hrejected hepoch
  · exact .inl (by simp [NoAppend, transitionToUnattached])
  · refine .inl ?_
    unfold recordPreVoteRejection
    split_ifs
    · simp [NoAppend]
    · split
      · dsimp only
        split_ifs
        · simp [NoAppend]
        · split
          · exact noAppend_handleBeginQuorumEpoch
          · simp [NoAppend, awaitElection]
      · simp [NoAppend]
  · exact .inl (by simp [NoAppend])
  · have hgranted : granted = true := by simpa using hrejected
    subst hgranted
    have hgrant : Moves op m (m.recordGrant fromId) [] :=
      .single (.recordGrant hop (not_not.mp hepoch))
    split
    · rename_i g r d a hrole
      dsimp only
      split_ifs with hwon
      · have hrole' : ∃ g' r' d' a', (m.recordGrant fromId).role = .prospective g' r' d' a' := by
          rcases recordGrant_cases (m := m) fromId with h | ⟨_, _, _, _, _, h⟩ | ⟨_, _, hc, _⟩
          · exact ⟨g, r, d, a, by rw [h, hrole]⟩
          · exact ⟨_, _, _, _, by rw [h]⟩
          · rw [hrole] at hc
            cases hc
        obtain ⟨g', r', d', a', hrole'⟩ := hrole'
        rcases promoteToCandidate_promotion hrole' hwon with
          hno | ⟨m₁, pre, hmoves, hno, heq⟩
        · exact .inl hno
        · exact .inr ⟨m₁, pre, by simpa using hgrant.append hmoves, hno, heq⟩
      · exact .inl (by simp [NoAppend])
    · dsimp only
      split_ifs with hwon
      · exact .inr ⟨_, [], hgrant, by simp [NoAppend], rfl⟩
      · exact .inl (by simp [NoAppend])
    · exact .inl (by simp [NoAppend])

/-- **A promotion is the last thing that an event does.** -/
theorem onEvent_promotion (event : Event) (log : LogView) (now : Nat) :
    EndsInPromotion (.event event log now) log now m (m.onEvent event log now) := by
  cases event with
  | electionTimeout => exact handleElectionTimeout_promotion
  | fetchTimeout =>
    unfold onEvent handleFetchTimeout
    split_ifs with hvoter
    · exact startElection_promotion hvoter
    · exact .inl (by simp [NoAppend, becomeDiscoveringObserver])
  | checkQuorumTimeout =>
    refine .inl ?_
    unfold onEvent handleCheckQuorumTimeout
    split_ifs
    · simp [NoAppend]
    · simp only [NoAppend, transitionToResigned]
      split_ifs <;> simp
  | receiveVoteRequest r =>
    refine .inl ?_
    unfold onEvent handleVoteRequest
    dsimp only
    split
    · simp [NoAppend]
    · simp [NoAppend]
    · have hadvance : NoAppend (m.advanceEpochForVote r.candidateKey r.candidateEpoch now).2 := by
        unfold advanceEpochForVote
        split_ifs <;> simp [NoAppend, transitionToUnattached]
      split_ifs
      · simp [NoAppend]
      · intro e he
        simp [QuorumStateMachine.castVote, hadvance e] at he
      · intro e he
        simp [hadvance e] at he
  | receiveVoteResponse fromId epoch granted => exact handleVoteResponse_promotion rfl
  | receiveBeginQuorumEpoch leaderId epoch => exact .inl noAppend_handleBeginQuorumEpoch
  | receiveEndQuorumEpoch leaderId epoch rank =>
    unfold onEvent handleEndQuorumEpoch
    dsimp only
    split_ifs with hstale hvoter
    · exact .inl (by simp [NoAppend])
    · exact .inl (by simp [NoAppend, transitionToUnattached])
    · exact startElection_promotion (by simpa using hvoter)
    · exact .inl (by simp [NoAppend, awaitElection])
  | receiveFetch fromId epoch offset =>
    refine .inl (fun e he => ?_)
    unfold onEvent handleFetch at he
    dsimp only at he
    split_ifs at he
    · cases he
    · rcases mem_append.mp he with he | he
      · cases recordQuorumContact_actions he
      · simp at he
    · rcases mem_append.mp he with he | he
      · cases recordQuorumContact_actions he
      · obtain ⟨_, heq⟩ := recordProgress_actions he
        cases heq
  | receiveFetchSnapshot fromId =>
    refine .inl (fun e he => ?_)
    unfold onEvent handleFetchSnapshot at he
    split_ifs at he
    · cases he
    · cases recordQuorumContact_actions he
  | receiveFetchResponse leaderId epoch diverging =>
    refine .inl (fun e he => ?_)
    rcases handleFetchResponse_actions he with ⟨_, _, _, _, heq⟩ | heq | heq <;> cases heq
  | receiveLeaderlessEpoch epoch =>
    refine .inl ?_
    unfold onEvent handleLeaderlessEpoch
    dsimp only
    split_ifs <;> simp [NoAppend, transitionToUnattached, becomeDiscoveringObserver]

end

/-! ## The high watermark -/

variable {logEnd : Int}

theorem majorityOffset_spec {offsets : List Int} (majority : Nat) (counts : Bool)
    (hoffsets : ∀ x ∈ offsets, x ≤ logEnd) :
    majorityOffset logEnd offsets majority counts = i64Min ∨
      majorityOffset logEnd offsets majority counts ≤ logEnd ∧
        majority ≤ countGe logEnd offsets
          (majorityOffset logEnd offsets majority counts) counts := by
  let Good (best : Int) : Prop := best = i64Min ∨ best ≤ logEnd ∧
    majority ≤ countGe logEnd offsets best counts
  have hloop : ∀ (cands : List Int) (best : Int), (∀ x ∈ cands, x ≤ logEnd) → Good best →
      Good (cands.foldl (fun best cand =>
        if best < cand && candidateHasMajority logEnd offsets cand majority counts
        then cand else best) best) := by
    intro cands
    induction cands with
    | nil => exact fun _ _ h => h
    | cons cand cands ih =>
      intro best hle hbest
      refine ih _ (fun x hx => hle x (mem_cons_of_mem _ hx)) ?_
      dsimp only
      split_ifs with hcand
      · rw [Bool.and_eq_true] at hcand
        exact .inr ⟨hle cand mem_cons_self, of_decide_eq_true hcand.2⟩
      · exact hbest
  refine hloop offsets _ hoffsets ?_
  split_ifs with hend
  · exact .inr ⟨le_rfl, of_decide_eq_true hend⟩
  · exact .inl rfl

theorem recomputeHighWatermark_gt {start current : Int} {offsets : List Int}
    {majority : Nat} {counts : Bool} (hoffsets : ∀ x ∈ offsets, x ≤ logEnd) (hstart : 0 ≤ start)
    (h : current < KraftCore.recomputeHighWatermark logEnd offsets majority start current counts) :
    start < KraftCore.recomputeHighWatermark logEnd offsets majority start current counts ∧
      KraftCore.recomputeHighWatermark logEnd offsets majority start current counts ≤ logEnd ∧
      majority ≤ countGe logEnd offsets
        (KraftCore.recomputeHighWatermark logEnd offsets majority start current counts) counts := by
  have hmin : i64Min < 0 := by decide
  have hbest : KraftCore.recomputeHighWatermark logEnd offsets majority start current counts =
      majorityOffset logEnd offsets majority counts ∧
      start < majorityOffset logEnd offsets majority counts := by
    unfold KraftCore.recomputeHighWatermark at h ⊢
    dsimp only at h ⊢
    split_ifs at h ⊢ with hgate
    · exact ⟨by omega, hgate⟩
    · omega
  rw [hbest.1]
  rcases majorityOffset_spec majority counts hoffsets with heq | ⟨hle, hcount⟩
  · omega
  · exact ⟨hbest.2, hle, hcount⟩

/-- **An announced high watermark** lies behind the start of the epoch, within
the log, and a majority has reached it. -/
theorem recordProgress_advances {fetchOffset target : Int} {fromId now : Nat}
    (hrole : m.role = .leader f) (hstart : 0 ≤ f.epochStartOffset)
    (h : .advanceHighWatermark target ∈ (m.recordProgress logEnd fromId fetchOffset now).2) :
    f.epochStartOffset < target ∧ target ≤ logEnd ∧
      m.majority ≤ countGe logEnd
        ((f.replicas.modify fromId (·.recordFetch now fetchOffset logEnd)).values.map
          (fun p => min p.fetchOffset logEnd)) target m.isVoter := by
  unfold recordProgress at h
  rw [hrole] at h
  dsimp only at h
  split_ifs at h with hlt
  · rw [mem_singleton, Action.advanceHighWatermark.injEq] at h
    subst h
    refine recomputeHighWatermark_gt ?_ hstart (lt_of_le_of_lt (min_le_left _ _) hlt)
    intro x hx
    obtain ⟨p, -, rfl⟩ := mem_map.mp hx
    exact min_le_right _ _
  · cases h

theorem isMajority_of_countGe {target : Int} {replicas : SortedMap NodeId ReplicaProgress}
    (hkeys : ∀ y p, replicas.get? y = some p → m.state.voters.contains y = true ∧ y ≠ m.me)
    (hcount : m.majority ≤ countGe logEnd (replicas.values.map (fun p => min p.fetchOffset logEnd))
      target m.isVoter) :
    ∃ M, IsMajority m.state.voters.idSet M ∧
      ∀ y ∈ M, y = m.me ∨ ∃ p, replicas.get? y = some p ∧ target ≤ p.fetchOffset := by
  let reached : Finset NodeId :=
    ((replicas.entries.filter (fun e => target ≤ min e.2.fetchOffset logEnd)).map
      Prod.fst).toFinset
  have hreached : ∀ y ∈ reached, ∃ p, replicas.get? y = some p ∧ target ≤ p.fetchOffset := by
    intro y hy
    obtain ⟨e, he, rfl⟩ := mem_map.mp (mem_toFinset.mp hy)
    obtain ⟨he, hle⟩ := mem_filter.mp he
    exact ⟨e.2, replicas.get?_of_mem he, (of_decide_eq_true hle).trans (min_le_left _ _)⟩
  have hcard : (replicas.values.map (fun p => min p.fetchOffset logEnd)).countP
      (fun x => target ≤ x) = reached.card := by
    rw [countP_map]
    exact replicas.countP_values _
  rw [countGe, hcard, majority, majoritySize] at hcount
  have hsub : ∀ y ∈ reached, y ∈ m.state.voters.idSet ∧ y ≠ m.me := by
    intro y hy
    obtain ⟨p, hp, -⟩ := hreached y hy
    rw [VoterSet.mem_idSet]
    exact hkeys y p hp
  by_cases hself : m.isVoter = true ∧ target ≤ logEnd
  · refine ⟨insert m.me reached, ⟨?_, ?_⟩, ?_⟩
    · intro y hy
      rcases Finset.mem_insert.mp hy with rfl | hy
      · rw [VoterSet.mem_idSet]
        exact hself.1
      · exact (hsub y hy).1
    · rw [VoterSet.card_idSet, Finset.card_insert_of_notMem (fun hy => (hsub _ hy).2 rfl)]
      rw [if_pos (by simpa using hself)] at hcount
      omega
    · intro y hy
      rcases Finset.mem_insert.mp hy with rfl | hy
      · exact .inl rfl
      · exact .inr (hreached y hy)
  · refine ⟨reached, ⟨fun y hy => (hsub y hy).1, ?_⟩, fun y hy => .inr (hreached y hy)⟩
    rw [VoterSet.card_idSet]
    rw [if_neg (by simpa using hself)] at hcount
    omega

end QuorumStateMachine

end Krabka.KraftCore

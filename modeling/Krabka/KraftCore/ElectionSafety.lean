import Krabka.KraftCore.Cluster
import Krabka.Lib.Ballots

/-!
# Election safety

No two replicas ever hold the leadership of one epoch.  The argument is the
usual one: a leader has the votes of a majority, two majorities share a voter,
and a voter votes once in an epoch.  The votes are a ghost, `Ballots`, that
grows along the run; a restart does not lose one, because a vote is on disk
before it is answered.

What is particular to the source is the answer to a Vote request: it does not
say whether it answers a pre-vote or a binding vote.  A grant of a pre-vote must
therefore never be counted as a vote.  `Passed` is why it is not: a pre-vote of
epoch `e` is asked by a replica that is not, and never again will be, a
candidate in `e`, because a candidacy always opens a newer epoch.
-/

namespace Krabka.KraftCore

open QuorumStateMachine Function Ballots List

variable {V : VoterSet} {op : Op} {m m' : QuorumStateMachine} {as : List Action}

/-! ## A replica that is not a candidate any more -/

/-- The replica is not a candidate in `e` and will not be one again. -/
def Passed (m : QuorumStateMachine) (e : Nat) : Prop :=
  e < m.state.leaderEpoch ∨ e = m.state.leaderEpoch ∧ m.role.isCandidate = false

variable {e : Nat}

theorem Passed.voteEffect (h : Passed m e) (heffect : VoteEffect op m m')
    (hbound : m'.state.leaderEpoch < u32Max) : Passed m' e := by
  have hle := heffect.epoch_le
  rcases h with hlt | ⟨rfl, hcand⟩
  · exact .inl (by omega)
  cases heffect with
  | quiet hepoch _ hcand' _ =>
    refine .inr ⟨hepoch.symm, ?_⟩
    cases hrole : m'.role with
    | candidate g d =>
      rw [hcand' g d hrole] at hcand
      cases hcand
    | _ => rfl
  | newEpoch hlt => exact .inl hlt
  | forget _ _ hepoch _ hcand' | vote _ _ _ _ _ _ _ hepoch _ _ _ hcand' =>
    exact .inr ⟨hepoch.symm, hcand'⟩
  | candidacy hepoch =>
    refine .inl ?_
    rw [hepoch] at hbound ⊢
    rw [nextEpoch_of_lt hbound]
    omega
  | grant _ _ _ _ _ _ _ _ hcand' =>
    obtain ⟨g, d, hrole, -⟩ := hcand'
    rw [hrole] at hcand
    cases hcand
  | win _ _ hrole =>
    rw [hrole] at hcand
    cases hcand

theorem Passed.moves (h : Passed m e) (hmoves : Moves op m m' as)
    (hbound : m'.state.leaderEpoch < u32Max) : Passed m' e := by
  induction hmoves with
  | nil => exact h
  | cons head tail ih =>
    exact ih (h.voteEffect head.voteEffect (lt_of_le_of_lt tail.epoch_le hbound)) hbound

/-! ## The invariant -/

/-- The votes, the round and the leadership of one machine. -/
structure ReplicaInv (V : VoterSet) (b : Ballots NodeId Nat NodeId) (id : NodeId)
    (m : QuorumStateMachine) : Prop where
  me : m.me = id
  voters : m.state.voters = V
  ballot : ∀ e c, V.contains id = true → b id e = some c → e ≤ m.state.leaderEpoch ∧
    (e = m.state.leaderEpoch → ∃ key, m.state.votedKey = some key ∧ key.id = c)
  voted : ∀ key, V.contains id = true → m.state.votedKey = some key →
    b id m.state.leaderEpoch = some key.id
  candidate : ∀ g d, m.role = .candidate g d →
    ∀ x ∈ g, V.contains x = true → b x m.state.leaderEpoch = some id
  leader : m.role.isLeader = true → b.Elected V.idSet m.state.leaderEpoch id

/-- What a message promises: a pre-vote is asked by a replica that has passed
its epoch, and a grant is a vote unless its receiver has passed the epoch. -/
def Message.Sound (V : VoterSet) (b : Ballots NodeId Nat NodeId)
    (ms : NodeId → QuorumStateMachine) : Message → Prop
  | .vote r => r.fromId = r.candidate ∧
    (r.preVote = true → Passed (ms r.candidate) r.candidateEpoch)
  | .voteResponse q c e granted => granted = true → V.contains q = true →
    b q e = some c ∨ Passed (ms c) e
  | _ => True

/-- The election invariant of the machines and the messages sent so far. -/
structure ElectionInv (V : VoterSet) (b : Ballots NodeId Nat NodeId)
    (ms : NodeId → QuorumStateMachine) (net : List Message) : Prop where
  replica : ∀ id, ReplicaInv V b id (ms id)
  sound : ∀ msg ∈ net, msg.Sound V b ms

variable {b b' : Ballots NodeId Nat NodeId} {ms ms' : NodeId → QuorumStateMachine}
  {net net' : List Message} {id : NodeId}

theorem ReplicaInv.mono (h : ReplicaInv V b id m) (hle : b ≤ b')
    (hframe : ∀ e, b' id e = b id e) : ReplicaInv V b' id m where
  me := h.me
  voters := h.voters
  ballot e c hmem hb := h.ballot e c hmem (hframe e ▸ hb)
  voted key hmem hkey := hle _ _ _ (h.voted key hmem hkey)
  candidate g d hrole x hx hmem := hle _ _ _ (h.candidate g d hrole x hx hmem)
  leader hrole := (h.leader hrole).mono hle

theorem Message.Sound.mono {msg : Message} (h : msg.Sound V b ms) (hle : b ≤ b')
    (hpassed : ∀ x e, Passed (ms x) e → Passed (ms' x) e) : msg.Sound V b' ms' := by
  cases msg with
  | vote r => exact ⟨h.1, fun hpre => hpassed _ _ (h.2 hpre)⟩
  | voteResponse q c e granted =>
    intro hgranted hmem
    rcases h hgranted hmem with hb | hp
    · exact .inl (hle _ _ _ hb)
    · exact .inr (hpassed _ _ hp)
  | _ => trivial

theorem ElectionInv.update (h : ElectionInv V b ms net) (hle : b ≤ b')
    (hframe : ∀ x e, x ≠ id → b' x e = b x e) (hreplica : ReplicaInv V b' id m')
    (hpassed : ∀ e, Passed (ms id) e → Passed m' e)
    (hnet : ∀ msg ∈ net', msg ∈ net ∨ msg.Sound V b' (Function.update ms id m')) :
    ElectionInv V b' (Function.update ms id m') net' := by
  constructor
  · intro x
    by_cases hx : x = id
    · subst hx
      rwa [update_self]
    · rw [update_of_ne hx]
      exact (h.replica x).mono hle (fun e => hframe x e hx)
  · intro msg hmsg
    rcases hnet msg hmsg with hold | hnew
    · refine (h.sound msg hold).mono hle (fun x e hx => ?_)
      by_cases hxid : x = id
      · subst hxid
        rw [update_self]
        exact hpassed e hx
      · rwa [update_of_ne hxid]
    · exact hnew

theorem ElectionInv.subset (h : ElectionInv V b ms net) (hsub : ∀ msg ∈ net', msg ∈ net) :
    ElectionInv V b ms net' :=
  ⟨h.replica, fun msg hmsg => h.sound msg (hsub msg hmsg)⟩

/-! ## One move -/

/-- The votes in `b'` that are not in `b` are those that the replica `id` casts
while `op` takes it from `m` to `m'`: for itself in a newer epoch, or for a
candidate whose binding request it has compared with its log. -/
def CastBy (op : Op) (m m' : QuorumStateMachine) (id : NodeId)
    (b b' : Ballots NodeId Nat NodeId) : Prop :=
  ∀ x e c, b' x e = some c → b x e = some c ∨
    x = id ∧ m.state.leaderEpoch ≤ e ∧ e ≤ m'.state.leaderEpoch ∧
      (c = id ∧ m.state.leaderEpoch < e ∨
        ∃ r log now, op = .event (.receiveVoteRequest r) log now ∧ r.preVote = false ∧
          r.candidate = c ∧ r.candidateEpoch = e ∧ logUpToDate log r.candidateLogEnd = true)

theorem CastBy.refl : CastBy op m m' id b b := fun _ _ _ h => .inl h

theorem CastBy.trans {m₁ : QuorumStateMachine} {b₁ : Ballots NodeId Nat NodeId}
    (h : CastBy op m m₁ id b b₁) (h' : CastBy op m₁ m' id b₁ b')
    (hle : m.state.leaderEpoch ≤ m₁.state.leaderEpoch)
    (hle' : m₁.state.leaderEpoch ≤ m'.state.leaderEpoch) : CastBy op m m' id b b' := by
  intro x e c hb
  rcases h' x e c hb with hb | ⟨rfl, h₁, h₂, hcause⟩
  · rcases h x e c hb with hb | ⟨rfl, h₁, h₂, hcause⟩
    · exact .inl hb
    · exact .inr ⟨rfl, h₁, h₂.trans hle', hcause⟩
  · refine .inr ⟨rfl, hle.trans h₁, h₂, hcause.imp_left (fun hself => ?_)⟩
    exact ⟨hself.1, lt_of_le_of_lt hle hself.2⟩

theorem CastBy.frame (h : CastBy op m m' id b b') (hle : b ≤ b') {x : NodeId} (hx : x ≠ id)
    (e : Nat) : b' x e = b x e := by
  cases hb' : b' x e with
  | none =>
    cases hb : b x e with
    | none => rfl
    | some c => rw [hle x e c hb] at hb'; cases hb'
  | some c =>
    rcases h x e c hb' with hb | ⟨hx', -⟩
    · exact hb.symm
    · exact absurd hx' hx

theorem CastBy.cast {c : NodeId} (hle : m.state.leaderEpoch ≤ m'.state.leaderEpoch)
    (hcause : b id m'.state.leaderEpoch = some c ∨ c = id ∧
      m.state.leaderEpoch < m'.state.leaderEpoch ∨
      ∃ r log now, op = .event (.receiveVoteRequest r) log now ∧ r.preVote = false ∧
        r.candidate = c ∧ r.candidateEpoch = m'.state.leaderEpoch ∧
        logUpToDate log r.candidateLogEnd = true) :
    CastBy op m m' id b (b.cast id m'.state.leaderEpoch c) := by
  intro x e c' hb
  by_cases hx : x = id ∧ e = m'.state.leaderEpoch
  · obtain ⟨rfl, rfl⟩ := hx
    rw [cast_self, Option.some.injEq] at hb
    subst hb
    rcases hcause with hold | hnew
    · exact .inl hold
    · exact .inr ⟨rfl, hle, le_rfl, hnew⟩
  · rw [cast_of_ne hx] at hb
    exact .inl hb

theorem ReplicaInv.ofQuiet (h : ReplicaInv V b id m) (hme : m'.me = id)
    (hvoters : m'.state.voters = V) (hepoch : m'.state.leaderEpoch = m.state.leaderEpoch)
    (hvote : m'.state.votedKey = m.state.votedKey) (hcand : ∀ g d, m'.role = .candidate g d →
      ∀ x ∈ g, V.contains x = true → b x m.state.leaderEpoch = some id)
    (hlead : m'.role.isLeader = true → b.Elected V.idSet m.state.leaderEpoch id) :
    ReplicaInv V b id m' := by
  refine ⟨hme, hvoters, ?_, ?_, ?_, ?_⟩
  · rw [hepoch, hvote]
    exact h.ballot
  · rw [hepoch, hvote]
    exact h.voted
  · rw [hepoch]
    exact hcand
  · rw [hepoch]
    exact hlead

theorem ReplicaInv.ofCast (hme : m'.me = id) (hvoters : m'.state.voters = V)
    (hbefore : ∀ e c, V.contains id = true → b id e = some c → e ≤ m'.state.leaderEpoch)
    {key : ReplicaKey} (hvote : m'.state.votedKey = some key)
    (hcand : ∀ g d, m'.role = .candidate g d → ∀ x ∈ g, x = id ∧ key.id = id)
    (hlead : m'.role.isLeader = false) :
    ReplicaInv V (b.cast id m'.state.leaderEpoch key.id) id m' := by
  refine ⟨hme, hvoters, ?_, ?_, ?_, ?_⟩
  · intro e c hmem hb
    by_cases he : e = m'.state.leaderEpoch
    · subst he
      rw [cast_self] at hb
      exact ⟨le_rfl, fun _ => ⟨key, hvote, Option.some.inj hb⟩⟩
    · rw [cast_of_ne (fun hx => he hx.2)] at hb
      exact ⟨hbefore e c hmem hb, fun heq => absurd heq he⟩
  · intro key' _ hkey'
    rw [hvote] at hkey'
    rw [cast_self, Option.some.inj hkey']
  · intro g d hrole x hx _
    obtain ⟨rfl, hid⟩ := hcand g d hrole x hx
    rw [cast_self, hid]
  · rw [hlead]
    intro h
    cases h

theorem isMajority_of_tally {g : Finset NodeId}
    (h : electionHasQuorum V.len (g.filter (fun x => V.contains x)).card = true) :
    IsMajority V.idSet (g.filter (fun x => V.contains x)) := by
  constructor
  · intro x hx
    rw [Finset.mem_filter] at hx
    rw [VoterSet.mem_idSet]
    exact hx.2
  · have : V.len / 2 + 1 ≤ (g.filter (fun x => V.contains x)).card := of_decide_eq_true h
    rw [VoterSet.card_idSet]
    omega

/-- **The votes after one move.**  `hgrant` is the promise of the answer that
the move counts. -/
theorem ReplicaInv.voteEffect (h : ReplicaInv V b id m) (heffect : VoteEffect op m m')
    (hme : m'.me = id) (hvoters : m'.state.voters = V) (hbound : m'.state.leaderEpoch < u32Max)
    (hgrant : ∀ fromId epoch log now, op = .event (.receiveVoteResponse fromId epoch true) log now →
      V.contains fromId = true → b fromId epoch = some id ∨ Passed m epoch) :
    ∃ b', b ≤ b' ∧ CastBy op m m' id b b' ∧ ReplicaInv V b' id m' := by
  cases heffect with
  | quiet hepoch hvote hcand hlead =>
    exact ⟨b, le_refl b, .refl, h.ofQuiet hme hvoters hepoch hvote
      (fun g d hrole => h.candidate g d (hcand g d hrole)) (fun hrole => h.leader (hlead hrole))⟩
  | newEpoch hepoch hvote hcand hlead =>
    refine ⟨b, le_refl b, .refl, hme, hvoters, ?_, by simp [hvote], ?_, by simp [hlead]⟩
    · intro e c hmem hb
      have := (h.ballot e c hmem hb).1
      exact ⟨by omega, fun he => by omega⟩
    · intro g d hrole
      rw [hrole] at hcand
      cases hcand
  | forget hop hvoter hepoch hvote hcand hlead =>
    -- Outside the voter set there is no vote to lose.
    have hmem : V.contains id = false := by
      rw [← hvoter, isVoter, h.voters, h.me]
    refine ⟨b, le_refl b, .refl, hme, hvoters, by simp [hmem], by simp [hmem], ?_,
      by simp [hlead]⟩
    intro g d hrole
    rw [hrole] at hcand
    cases hcand
  | vote r log now hop hpre hvoter hcandEpoch hepoch hold hfresh hvote hcand hlead =>
    have hmem : V.contains id = true := by
      rw [← hvoter, isVoter, h.voters, h.me]
    refine ⟨b.cast id m'.state.leaderEpoch r.candidateKey.id, ?_, .cast hepoch.ge ?_,
      .ofCast hme hvoters ?_ hvote ?_ hlead⟩
    · refine le_cast (fun c hb => ?_)
      rw [hepoch] at hb
      obtain ⟨key, hkey, rfl⟩ := (h.ballot _ c hmem hb).2 rfl
      exact hold key hkey
    · cases hvoted : m.state.votedKey with
      | some key =>
        refine .inl ?_
        rw [hepoch, h.voted key hmem hvoted, hold key hvoted]
        rfl
      | none =>
        exact .inr (.inr ⟨r, log, now, hop, hpre, rfl, hcandEpoch.trans hepoch.symm,
          hfresh hvoted⟩)
    · exact fun e c hmem hb => hepoch ▸ (h.ballot e c hmem hb).1
    · intro g d hrole
      rw [hrole] at hcand
      cases hcand
  | candidacy hepoch hvote hcand =>
    obtain ⟨d, hrole⟩ := hcand
    rw [h.me] at hvote hrole
    have hnext : m'.state.leaderEpoch = m.state.leaderEpoch + 1 := by
      rw [hepoch] at hbound ⊢
      exact nextEpoch_of_lt hbound
    have hlead : m'.role.isLeader = false := by rw [hrole]; rfl
    by_cases hmem : V.contains id = true
    · refine ⟨b.cast id m'.state.leaderEpoch id, ?_,
        .cast (by omega) (.inr (.inl ⟨rfl, by omega⟩)), .ofCast hme hvoters ?_ hvote ?_ hlead⟩
      · refine le_cast (fun c hb => ?_)
        have := (h.ballot _ c hmem hb).1
        omega
      · intro e c hmem hb
        have := (h.ballot e c hmem hb).1
        omega
      · intro g d' hrole' x hx
        rw [hrole] at hrole'
        injection hrole' with hg _
        exact ⟨by simpa [← hg] using hx, rfl⟩
    · refine ⟨b, le_refl b, .refl, hme, hvoters, by simp [hmem], by simp [hmem], ?_,
        by simp [hlead]⟩
      intro g d' hrole' x hx hmem'
      rw [hrole] at hrole'
      injection hrole' with hg _
      rw [← hg, Finset.mem_singleton] at hx
      exact absurd (hx ▸ hmem') hmem
  | grant fromId epoch log now hop hrespEpoch hepoch hvote hcand =>
    obtain ⟨g, d, hrole, hrole'⟩ := hcand
    refine ⟨b, le_refl b, .refl, h.ofQuiet hme hvoters hepoch hvote ?_ ?_⟩
    · intro g' d' hg' x hx hmem
      rw [hrole'] at hg'
      injection hg' with hg' _
      rw [← hg', Finset.mem_insert] at hx
      rcases hx with rfl | hx
      · rcases hgrant x epoch log now hop hmem with hb | hlt | ⟨-, hnot⟩
        · exact hrespEpoch ▸ hb
        · omega
        · rw [hrole] at hnot
          cases hnot
      · exact h.candidate g d hrole x hx hmem
    · rw [hrole']
      intro hlead
      cases hlead
  | win g d hcand htally hepoch hvote hlead =>
    refine ⟨b, le_refl b, .refl, h.ofQuiet hme hvoters hepoch hvote ?_ ?_⟩
    · intro g' d' hrole'
      rw [hrole'] at hlead
      cases hlead
    · intro _
      rw [h.voters] at htally
      refine ⟨g.filter (fun x => V.contains x = true), isMajority_of_tally htally, ?_⟩
      intro x hx
      rw [Finset.mem_filter] at hx
      exact h.candidate g d hcand x hx.1 hx.2

theorem mem_messagesOf {log : LogView} {a : Action} {msg : Message} (h : msg ∈ m.messagesOf log a) :
    (∃ r preVote, msg = .vote r ∧ a = .sendVoteRequest r.candidateEpoch preVote ∧
        r.preVote = preVote ∧ r.fromId = m.me ∧ r.candidate = m.me ∧
        r.candidateLogEnd = ⟨log.lastEpoch, log.endOffset⟩) ∨
      (∃ c e granted, msg = .voteResponse m.me c e granted ∧ a = .replyVote c e granted) ∨
      (∃ x e, msg = .beginQuorumEpoch m.me x e ∧ a = .sendBeginQuorumEpoch e) ∨
      ∃ x e p, msg = .endQuorumEpoch m.me x e p ∧ a = .sendEndQuorumEpoch e p := by
  unfold messagesOf at h
  split at h
  · unfold broadcastVote at h
    split at h
    · cases h
    · obtain ⟨peer, -, hpeer⟩ := mem_filterMap.mp h
      obtain ⟨voter, -, rfl⟩ := Option.map_eq_some_iff.mp hpeer
      exact .inl ⟨_, _, rfl, rfl, rfl, rfl, rfl, rfl⟩
  · exact .inr (.inl ⟨_, _, _, mem_singleton.mp h, rfl⟩)
  · obtain ⟨x, -, rfl⟩ := mem_map.mp h
    exact .inr (.inr (.inl ⟨x, _, rfl, rfl⟩))
  · obtain ⟨x, -, rfl⟩ := mem_map.mp h
    exact .inr (.inr (.inr ⟨x, _, _, rfl, rfl⟩))
  · cases h

/-- The event of `op` was delivered from the network. -/
def Delivered (net : List Message) (id : NodeId) (op : Op) : Prop :=
  (∀ r log now, op = .event (.receiveVoteRequest r) log now → .vote r ∈ net) ∧
    ∀ q e log now, op = .event (.receiveVoteResponse q e true) log now →
      .voteResponse q id e true ∈ net

/-- **One move** of a replica keeps the election invariant, for some votes that
extend the old ones.  The messages are built by the machine `sender` that the
whole event ends in. -/
theorem ElectionInv.move (sender : QuorumStateMachine) (log : LogView) (net' : List Message)
    (h : ElectionInv V b ms net) (hmove : Move op (ms id) m' as)
    (hop : ∃ event log now, op = .event event log now) (hdel : Delivered net id op)
    (hbound : m'.state.leaderEpoch < u32Max) (hsender : sender.me = id)
    (hnet : ∀ msg ∈ net', msg ∈ net ∨ ∃ a ∈ as, msg ∈ sender.messagesOf log a) :
    ∃ b', b ≤ b' ∧ CastBy op (ms id) m' id b b' ∧
      ElectionInv V b' (Function.update ms id m') net' := by
  have hr := h.replica id
  have hme : m'.me = id := hmove.kept.me.trans hr.me
  have hvoters : m'.state.voters = V :=
    (hmove.kept.voters (Op.ne_applyVoterSet hop)).trans hr.voters
  obtain ⟨b', hle, hcast, hr'⟩ := hr.voteEffect hmove.voteEffect hme hvoters hbound
    (fun q e log now heq => h.sound _ (hdel.2 q e log now heq) rfl)
  refine ⟨b', hle, hcast, h.update hle (fun _ e hx => hcast.frame hle hx e) hr'
    (fun e hp => hp.voteEffect hmove.voteEffect hbound) ?_⟩
  intro msg hmsg
  rcases hnet msg hmsg with hold | ⟨a, ha, hmsg⟩
  · exact .inl hold
  refine .inr ?_
  rcases mem_messagesOf hmsg with ⟨r, preVote, rfl, rfl, hpre, hfrom, hcand, -⟩ |
    ⟨c, e, granted, rfl, rfl⟩ | ⟨x, e, rfl, -⟩ | ⟨x, e, p, rfl, -⟩
  · -- A request: a pre-vote is asked by a prospective in its own epoch.
    rw [hsender] at hfrom hcand
    refine ⟨hfrom.trans hcand.symm, fun hp => ?_⟩
    rw [hcand, update_self]
    generalize r.candidateEpoch = e at ha
    rw [← hpre, hp] at ha
    cases hmove.actionEffect ha with
    | preVote now hnew =>
      subst hnew
      exact .inr ⟨rfl, rfl⟩
  · -- An answer: a granted pre-vote goes to a replica that has passed its epoch.
    rintro rfl hmem
    rw [hsender] at hmem ⊢
    cases hmove.actionEffect ha with
    | grantPreVote r log now hop' hpre hepoch hsame =>
      obtain ⟨hfrom, hpassed⟩ := h.sound _ (hdel.1 r log now hop')
      refine .inr ?_
      rw [hsame, update_eq_self, ← hepoch, hfrom]
      exact hpassed hpre
    | grantVote r log now hop' hpre hepoch hnew =>
      obtain ⟨hfrom, -⟩ := h.sound _ (hdel.1 r log now hop')
      refine .inl ?_
      have := hr'.voted r.candidateKey hmem (by rw [hnew]; rfl)
      rw [hnew] at this
      rw [hfrom]
      exact this
  · trivial
  · trivial

/-! ## One event -/

theorem Delivered.mono (h : Delivered net id op) (hsub : ∀ msg ∈ net, msg ∈ net') :
    Delivered net' id op :=
  ⟨fun r log now hop => hsub _ (h.1 r log now hop),
    fun q e log now hop => hsub _ (h.2 q e log now hop)⟩

/-- **All moves of one event** keep the election invariant. -/
theorem ElectionInv.moves (sender : QuorumStateMachine) (log : LogView)
    (h : ElectionInv V b ms net) (hmoves : Moves op m m' as) (hm : ms id = m)
    (hop : ∃ event log now, op = .event event log now) (hdel : Delivered net id op)
    (hbound : m'.state.leaderEpoch < u32Max) (hsender : sender.me = id) :
    ∃ b', b ≤ b' ∧ CastBy op m m' id b b' ∧ ElectionInv V b' (Function.update ms id m')
      (net ++ as.flatMap (sender.messagesOf log)) := by
  induction hmoves generalizing b ms net with
  | nil =>
    subst hm
    refine ⟨b, le_refl b, .refl, ?_⟩
    simpa using h
  | @cons m m₁ m' as bs head tail ih =>
    subst hm
    obtain ⟨b₁, hle₁, hcast₁, h₁⟩ := h.move sender log (net ++ as.flatMap (sender.messagesOf log))
      head hop hdel
      (lt_of_le_of_lt tail.epoch_le hbound) hsender (by
        intro msg hmsg
        rcases mem_append.mp hmsg with hmsg | hmsg
        · exact .inl hmsg
        · exact .inr (mem_flatMap.mp hmsg))
    obtain ⟨b₂, hle₂, hcast₂, h₂⟩ := ih h₁ (update_self ..)
      (hdel.mono (fun _ => mem_append_left _)) hbound
    refine ⟨b₂, hle₁.trans hle₂, hcast₁.trans hcast₂ head.voteEffect.epoch_le tail.epoch_le, ?_⟩
    rw [update_idem] at h₂
    rwa [flatMap_append, ← append_assoc]

theorem Move.unwritten (h : Move op m m' as) {k : Nat}
    (hno : .persistQuorumState ∉ as.take k) {c : Nat} (ha : .replyVote c e true ∈ as.take k) :
    ∃ r log now, op = .event (.receiveVoteRequest r) log now ∧ r.preVote = true ∧
      c = r.fromId ∧ e = r.candidateEpoch := by
  cases h
  case grantPreVote r log now hop hpre hepoch hvoter =>
    have hreply := mem_of_mem_take ha
    simp only [mem_singleton, Action.replyVote.injEq] at hreply
    exact ⟨r, log, now, hop, hpre, hreply.1, hreply.2.1.trans hepoch.symm⟩
  case castVote =>
    cases k with
    | zero => cases ha
    | succ k => exact absurd (by simp [castVote]) hno
  case contact => cases recordQuorumContact_actions (mem_of_mem_take ha)
  case progress =>
    obtain ⟨_, heq⟩ := recordProgress_actions (mem_of_mem_take ha)
    cases heq
  case fetched =>
    rcases handleFetchResponse_actions (mem_of_mem_take ha) with
      ⟨_, _, _, _, heq⟩ | heq | heq <;> cases heq
  case applyVoterSet =>
    rcases applyVoterSet_actions (mem_of_mem_take ha) with ⟨_, heq⟩ | ⟨_, heq⟩ | ⟨_, _, heq⟩ <;>
      cases heq
  case finishRemoval hvoter hleader =>
    rw [finishLocalLeaderRemoval, if_neg (by simp [hvoter, hleader])] at ha
    simpa using mem_of_mem_take ha
  case resign =>
    have hmem := mem_of_mem_take ha
    unfold transitionToResigned at hmem
    split_ifs at hmem <;> simp at hmem
  -- No other move answers a vote.
  all_goals
    have hmem := mem_of_mem_take ha
    revert hmem
    simp [transitionToUnattached, follow, awaitElection,
      becomeProspective, becomeCandidate,
      promoteToLeader, becomeDiscoveringObserver]

/-- What is sent before the first write of an event: no binding vote, and
pre-votes of the old epoch. -/
theorem Moves.unwritten (h : Moves op m m' as) {k : Nat}
    (hno : .persistQuorumState ∉ as.take k) {a : Action} (ha : a ∈ as.take k) :
    (∀ e, a = .sendVoteRequest e true → e = m.state.leaderEpoch) ∧
      ∀ c e, a = .replyVote c e true →
        ∃ r log now, op = .event (.receiveVoteRequest r) log now ∧ r.preVote = true ∧
          c = r.fromId ∧ e = r.candidateEpoch := by
  induction h generalizing k with
  | nil => simp at ha
  | @cons m m₁ m' as bs head tail ih =>
    rw [take_append] at hno ha
    rw [mem_append, not_or] at hno
    rcases mem_append.mp ha with ha | ha
    · refine ⟨?_, ?_⟩
      · rintro e rfl
        cases head.actionEffect (mem_of_mem_take ha)
        rfl
      · rintro c e rfl
        exact Move.unwritten head hno.1 ha
    · have hk : as.length < k := by
        by_contra hk
        rw [Nat.sub_eq_zero_of_le (not_lt.mp hk)] at ha
        simp at ha
      have hall : .persistQuorumState ∉ as := by
        have := hno.1
        rwa [take_of_length_le hk.le] at this
      obtain ⟨h1, h2⟩ := ih hno.2 ha
      rw [(head.kept.persists hall).1] at h1
      exact ⟨h1, h2⟩

/-! ## Restarts -/

/-- The disk of a replica holds its epoch and its vote. -/
structure DiskInv (V : VoterSet) (disk : QuorumState) (m : QuorumStateMachine) : Prop where
  epoch : disk.leaderEpoch = m.state.leaderEpoch
  vote : disk.votedKey.map ReplicaKey.id = m.state.votedKey.map ReplicaKey.id
  voters : disk.voters = V

theorem QuorumState.reload_vote (s : QuorumState) :
    s.reload.votedKey.map ReplicaKey.id = s.votedKey.map ReplicaKey.id := by
  cases h : s.votedKey with
  | none => simp [QuorumState.reload, h]
  | some key =>
    simp only [QuorumState.reload, h, Option.map_some]
    split_ifs <;> rfl

theorem new_role (id : NodeId) (state : QuorumState) (e f : Nat) :
    (new id state e f).role.isCandidate = false ∧
      (new id state e f).role.isLeader = false := by
  unfold new
  split_ifs <;> exact ⟨rfl, rfl⟩

variable {disk : QuorumState}

theorem DiskInv.reload (h : DiskInv V disk m) (id : NodeId) (e f : Nat) :
    DiskInv V disk (.new id disk.reload e f) where
  epoch := rfl
  vote := (QuorumState.reload_vote disk).symm
  voters := h.voters

theorem ReplicaInv.reload (h : ReplicaInv V b id m)
    (hdisk : DiskInv V disk m) (e f : Nat) : ReplicaInv V b id (.new id disk.reload e f) := by
  have hvote : disk.reload.votedKey.map ReplicaKey.id = m.state.votedKey.map ReplicaKey.id :=
    (QuorumState.reload_vote disk).trans hdisk.vote
  have hepoch : disk.reload.leaderEpoch = m.state.leaderEpoch := hdisk.epoch
  obtain ⟨hcand, hlead⟩ := new_role id disk.reload e f
  refine ⟨rfl, hdisk.voters, ?_, ?_, ?_, by simp [hlead]⟩
  · intro e c hmem hb
    obtain ⟨hle, hrecorded⟩ := h.ballot e c hmem hb
    refine ⟨hle.trans hepoch.ge, fun he => ?_⟩
    obtain ⟨key, hkey, rfl⟩ := hrecorded (he.trans hepoch)
    rw [hkey] at hvote
    exact Option.map_eq_some_iff.mp hvote
  · intro key hmem hkey
    have hkey' : disk.reload.votedKey = some key := hkey
    rw [hkey'] at hvote
    obtain ⟨key', hkey', heq⟩ := Option.map_eq_some_iff.mp hvote.symm
    show b id disk.reload.leaderEpoch = _
    rw [hepoch, h.voted key' hmem hkey', heq]
  · intro g d hrole
    rw [hrole] at hcand
    cases hcand

theorem Passed.reload (h : Passed m e) (hdisk : DiskInv V disk m)
    (id : NodeId) (et ft : Nat) : Passed (.new id disk.reload et ft) e := by
  have hepoch : disk.reload.leaderEpoch = m.state.leaderEpoch := hdisk.epoch
  rcases h with hlt | ⟨heq, -⟩
  · exact .inl (hlt.trans_eq hepoch.symm)
  · exact .inr ⟨heq.trans hepoch.symm, (new_role id disk.reload et ft).1⟩

theorem ElectionInv.reload (h : ElectionInv V b ms net)
    (hdisk : DiskInv V disk (ms id)) (et ft : Nat) (hnet : ∀ msg ∈ net', msg ∈ net ∨
      msg.Sound V b (Function.update ms id (.new id disk.reload et ft))) :
    ElectionInv V b (Function.update ms id (.new id disk.reload et ft)) net' :=
  h.update (le_refl b) (fun _ _ _ => rfl) ((h.replica id).reload hdisk et ft)
    (fun _ hp => hp.reload hdisk id et ft) hnet

/-! ## The cluster -/

namespace Cluster

def machines (c : Cluster) (id : NodeId) : QuorumStateMachine := (c.replicas id).machine

theorem machines_update (c : Cluster) (r : Replica) (net : List Message) :
    (⟨Function.update c.replicas id r, net⟩ : Cluster).machines =
      Function.update c.machines id r.machine := by
  funext x
  by_cases hx : x = id
  · subst hx
    simp [machines]
  · simp [machines, hx]

/-- The invariant of a cluster with the votes `b`. -/
structure Inv (V : VoterSet) (b : Ballots NodeId Nat NodeId) (c : Cluster) : Prop where
  election : ElectionInv V b c.machines c.network
  disk : ∀ id, DiskInv V (c.replicas id).disk (c.machines id)

variable {c c' : Cluster}

theorem inv_start (h : c.Starts V) : Inv V .blank c := by
  obtain ⟨hnet, clusterId, version, hreplicas⟩ := h
  refine ⟨⟨?_, by simp [hnet]⟩, ?_⟩
  · intro id
    obtain ⟨electionMs, fetchMs, hr⟩ := hreplicas id
    rw [machines, hr]
    refine ⟨rfl, rfl, ?_, ?_, ?_, ?_⟩
    · intro e c _ hb
      cases hb
    · intro key _ hkey
      cases hkey
    · intro g d hrole
      simp only [new] at hrole
      split_ifs at hrole
    · intro hlead
      simp only [new] at hlead
      split_ifs at hlead <;> cases hlead
  · intro id
    obtain ⟨electionMs, fetchMs, hr⟩ := hreplicas id
    rw [machines, hr]
    exact ⟨rfl, rfl, rfl⟩

theorem Inv.ofUpdate {r : Replica} (h : Inv V b c)
    (helection : ElectionInv V b' (Function.update c.machines id r.machine) net')
    (hdisk : DiskInv V r.disk r.machine) : Inv V b' ⟨Function.update c.replicas id r, net'⟩ := by
  refine ⟨by rwa [machines_update], fun x => ?_⟩
  by_cases hx : x = id
  · subst hx
    simpa [machines] using hdisk
  · simpa [machines, hx] using h.disk x

theorem Inv.crash (h : Inv V b c) (id : NodeId) : Inv V b (c.apply (.crash id)) := by
  have hme : (c.replicas id).machine.me = id := (h.election.replica id).me
  refine h.ofUpdate ?_ ?_
  · rw [Replica.restart, hme]
    exact h.election.reload (h.disk id) _ _ (fun msg hmsg => .inl hmsg)
  · rw [Replica.restart, hme]
    exact (h.disk id).reload _ _ _

variable {log : LogView} {now : Nat}

theorem Deliverable.delivered {event : Event}
    (h : c.Deliverable id event) : Delivered c.network id (.event event log now) := by
  refine ⟨?_, ?_⟩
  · rintro r log' now' heq
    cases heq
    exact h.2
  · rintro q e log' now' heq
    cases heq
    exact h

theorem diskInv_writtenBy {disk : QuorumState} {done : List Action}
    (hdisk : DiskInv V disk m) (hvoters : m'.state.voters = V)
    (hdone : Saves done m m') : DiskInv V (disk.writtenBy m' done) m' := by
  unfold QuorumState.writtenBy
  split_ifs with hwritten
  · exact ⟨rfl, rfl, hvoters⟩
  · obtain ⟨hepoch, hvote⟩ := hdone.resolve_left hwritten
    exact ⟨hepoch ▸ hdisk.epoch, hvote ▸ hdisk.vote, hdisk.voters⟩

/-- What an event sends before it writes to disk is sound for the machine that
restarts from the old disk. -/
theorem sound_of_unwritten {disk : QuorumState} {event : Event} {log' : LogView}
    {k et ft : Nat} (h : ElectionInv V b ms net) (hdisk : DiskInv V disk (ms id))
    (hmoves : Moves (.event event log now) (ms id) m' as)
    (hdel : Delivered net id (.event event log now)) (hme : m'.me = id)
    (hno : .persistQuorumState ∉ as.take k) {msg : Message}
    (hmsg : msg ∈ (as.take k).flatMap (m'.messagesOf log')) :
    msg.Sound V b (Function.update ms id (.new id disk.reload et ft)) := by
  obtain ⟨a, ha, hmsg⟩ := mem_flatMap.mp hmsg
  obtain ⟨hrequest, hreply⟩ := Moves.unwritten hmoves hno ha
  have hepoch : disk.reload.leaderEpoch = (ms id).state.leaderEpoch := hdisk.epoch
  have hpassed : ∀ x e, Passed (ms x) e →
      Passed (Function.update ms id (.new id disk.reload et ft) x) e := by
    intro x e hx
    by_cases hxid : x = id
    · subst hxid
      rw [update_self]
      exact hx.reload hdisk _ _ _
    · rwa [update_of_ne hxid]
  rcases mem_messagesOf hmsg with ⟨r, preVote, rfl, rfl, hpre, hfrom, hcand, -⟩ |
    ⟨c, e, granted, rfl, rfl⟩ | ⟨x, e, rfl, -⟩ | ⟨x, e, p, rfl, -⟩
  · rw [hme] at hfrom hcand
    refine ⟨hfrom.trans hcand.symm, fun hp => ?_⟩
    rw [hcand, update_self]
    rw [hpre] at hp
    subst hp
    exact .inr ⟨(hrequest _ rfl).trans hepoch.symm, (new_role id disk.reload et ft).1⟩
  · rintro rfl -
    obtain ⟨r, log, now, hop, hpre, rfl, rfl⟩ := hreply c e rfl
    obtain ⟨hfrom, hp⟩ := h.sound _ (hdel.1 r log now hop)
    rw [hfrom]
    exact .inr (hpassed _ _ (hp hpre))
  · trivial
  · trivial

/-- The cluster once the replica `id` has gone to `m'` and has executed
`done`. -/
def after (c : Cluster) (id : NodeId) (m' : QuorumStateMachine) (log : LogView)
    (done : List Action) : Cluster :=
  ⟨Function.update c.replicas id ⟨m', (c.replicas id).disk.writtenBy m' done⟩,
    c.network ++ done.flatMap (m'.messagesOf log)⟩

theorem apply_event (event : Event) (log : LogView) (now : Nat) :
    c.apply (.event id event log now none) =
      c.after id ((c.machines id).onEvent event log now).1 log
        ((c.machines id).onEvent event log now).2 := rfl

theorem apply_event_crash (event : Event) (log : LogView) (now k : Nat) :
    c.apply (.event id event log now (some k)) =
      (c.after id ((c.machines id).onEvent event log now).1 log
        (((c.machines id).onEvent event log now).2.take k)).apply (.crash id) := by
  simp only [apply, after, update_self, update_idem]
  rfl

theorem epoch_after_crash (m' : QuorumStateMachine) (log : LogView) (done : List Action) :
    (((c.after id m' log done).apply (.crash id)).machines id).state.leaderEpoch =
      ((c.replicas id).disk.writtenBy m' done).leaderEpoch := by
  simp [apply, after, machines, Replica.restart, new, QuorumState.reload]

/-- **An event that took place**: what it changed is on disk, if it changed
anything there. -/
theorem Inv.taken {event : Event} {done : List Action}
    (h : Inv V b c) (hdel : Delivered c.network id (.event event log now))
    (hmoves : Moves (.event event log now) (c.machines id) m' as)
    (hbound : m'.state.leaderEpoch < u32Max) (hsub : ∀ a ∈ done, a ∈ as)
    (hdone : Saves done (c.machines id) m') :
    ∃ b', b ≤ b' ∧ CastBy (.event event log now) (c.machines id) m' id b b' ∧
      Inv V b' (c.after id m' log done) := by
  have hreplica := h.election.replica id
  have hop : ∃ event' log' now', Op.event event log now = .event event' log' now' :=
    ⟨_, _, _, rfl⟩
  have hme : m'.me = id := hmoves.kept.me.trans hreplica.me
  have hvoters : m'.state.voters = V :=
    (hmoves.kept.voters (Op.ne_applyVoterSet hop)).trans hreplica.voters
  obtain ⟨b', hle, hcast, helection⟩ :=
    h.election.moves m' log hmoves rfl hop hdel hbound hme
  refine ⟨b', hle, hcast, h.ofUpdate (helection.subset ?_)
    (diskInv_writtenBy (h.disk id) hvoters hdone)⟩
  intro msg hmsg
  rw [mem_append] at hmsg ⊢
  refine hmsg.imp_right (fun hm => ?_)
  obtain ⟨a, ha, hm⟩ := mem_flatMap.mp hm
  exact mem_flatMap.mpr ⟨a, hsub a ha, hm⟩

/-- **An event lost in a crash**: nothing was written, and the replica is back
where it was. -/
theorem Inv.lost {event : Event} {k : Nat}
    (h : Inv V b c) (hdel : Delivered c.network id (.event event log now))
    (hmoves : Moves (.event event log now) (c.machines id) m' as)
    (hno : .persistQuorumState ∉ as.take k) :
    Inv V b ((c.after id m' log (as.take k)).apply (.crash id)) := by
  have hme : m'.me = id := hmoves.kept.me.trans (h.election.replica id).me
  have hdisk : (c.replicas id).disk.writtenBy m' (as.take k) = (c.replicas id).disk :=
    if_neg hno
  have happly : (c.after id m' log (as.take k)).apply (.crash id) =
      ⟨Function.update c.replicas id ⟨.new id (c.replicas id).disk.reload
        m'.electionTimeoutMs m'.fetchTimeoutMs, (c.replicas id).disk⟩,
        c.network ++ (as.take k).flatMap (m'.messagesOf log)⟩ := by
    simp only [apply, after, update_self, update_idem, Replica.restart, hme,
      hdisk]
  rw [happly]
  refine h.ofUpdate (h.election.reload (h.disk id) _ _ ?_) ((h.disk id).reload _ _ _)
  intro msg hmsg
  rcases mem_append.mp hmsg with hmsg | hmsg
  · exact .inl hmsg
  · exact .inr (sound_of_unwritten h.election (h.disk id) hmoves hdel hme hno hmsg)

/-- **One event**, executed completely or up to a crash. -/
theorem Inv.event {event : Event} {crashAfter : Option Nat}
    (h : Inv V b c) (hdel : c.Deliverable id event)
    (hbound : ((c.apply (.event id event log now crashAfter)).machines id).state.leaderEpoch
      < u32Max) : ∃ b', b ≤ b' ∧ Inv V b' (c.apply (.event id event log now crashAfter)) := by
  have hmoves : Moves (.event event log now) (c.machines id)
      ((c.machines id).onEvent event log now).1 ((c.machines id).onEvent event log now).2 :=
    run_moves (c.machines id) (.event event log now)
  cases crashAfter with
  | none =>
    rw [apply_event] at hbound ⊢
    rw [after, machines_update, update_self] at hbound
    obtain ⟨b', hle, -, h'⟩ := h.taken hdel.delivered hmoves hbound (fun _ ha => ha)
      hmoves.kept.saves
    exact ⟨b', hle, h'⟩
  | some k =>
    rw [apply_event_crash] at hbound ⊢
    by_cases hwritten :
        .persistQuorumState ∈ ((c.machines id).onEvent event log now).2.take k
    · rw [epoch_after_crash, QuorumState.writtenBy, if_pos hwritten] at hbound
      obtain ⟨b', hle, -, h'⟩ := h.taken hdel.delivered hmoves hbound
        (fun _ ha => mem_of_mem_take ha) (.inl hwritten)
      exact ⟨b', hle, h'.crash id⟩
    · exact ⟨b, le_refl b, h.lost hdel.delivered hmoves hwritten⟩

/-- **One step of the cluster.** -/
theorem Inv.step {a : Label} (h : Inv V b c) (hstep : (system V).step c a c') :
    ∃ b', b ≤ b' ∧ Inv V b' c' := by
  obtain ⟨rfl, henabled, hbound⟩ := hstep
  cases a with
  | event id event log now crashAfter => exact h.event henabled hbound
  | crash id => exact ⟨b, le_refl b, h.crash id⟩

/-- **Election safety.**  Over a fixed voter set, no two replicas ever hold the
leadership of one epoch, at one time or at different times of a run. -/
theorem election_safety {V : VoterSet} {c c' : Cluster} (hreach : (system V).Reachable c)
    (hlater : (system V).Leads c c') {id id' : NodeId} {e : Nat} (hled : c.Leads id e)
    (hleads : c'.Leads id' e) : id = id' := by
  obtain ⟨b, hb⟩ := hreach.ghost (P := Inv V) (fun c h => ⟨_, inv_start h⟩)
    (fun _ _ _ _ h hstep => h.step hstep)
  obtain ⟨b', hle, hb'⟩ := hlater.ghost (P := Inv V) (fun _ _ _ _ h hstep => h.step hstep) hb
  have hwon := ((hb.election.replica id).leader hled.1).mono hle
  have hwon' := (hb'.election.replica id').leader hleads.1
  have he : (c.machines id).state.leaderEpoch = e := hled.2
  have he' : (c'.machines id').state.leaderEpoch = e := hleads.2
  rw [he] at hwon
  rw [he'] at hwon'
  exact hwon.unique hwon'

/-- **A vote binds.**  The epoch of a voter does not go back, and in the epoch of its
vote it has no other, whatever it crashes in. -/
theorem vote_binds {V : VoterSet} {c c' : Cluster} {id : NodeId} {key : ReplicaKey}
    (hreach : (system V).Reachable c) (hlater : (system V).Leads c c')
    (hvoter : V.contains id = true) (hvote : (c.machines id).state.votedKey = some key) :
    (c.machines id).state.leaderEpoch ≤ (c'.machines id).state.leaderEpoch ∧
      ((c.machines id).state.leaderEpoch = (c'.machines id).state.leaderEpoch →
        ∃ key', (c'.machines id).state.votedKey = some key' ∧ key'.id = key.id) := by
  obtain ⟨b, hb⟩ := hreach.ghost (P := Inv V) (fun c h => ⟨_, inv_start h⟩)
    (fun _ _ _ _ h hstep => h.step hstep)
  obtain ⟨b', hle, hb'⟩ := hlater.ghost (P := Inv V) (fun _ _ _ _ h hstep => h.step hstep) hb
  have hcast := hle _ _ _ ((hb.election.replica id).voted key hvoter hvote)
  exact (hb'.election.replica id).ballot _ _ hvoter hcast

/-- The voters 1, 2 and 3 before the first election. -/
def freshCluster : Cluster :=
  ⟨fun id => ⟨.new id (.bootstrap Uuid.nil (.ofIds [1, 2, 3])) 1000 2000,
    .bootstrap Uuid.nil (.ofIds [1, 2, 3])⟩, []⟩

def requestOfFirst (epoch : Nat) (preVote : Bool) : VoteRequest :=
  { fromId := 1, clusterId := some Uuid.nil, voterId := 2, voterDirectoryId := Uuid.nil
    candidateEpoch := epoch, candidate := 1, candidateDirectoryId := Uuid.nil
    candidateLogEnd := ⟨0, 0⟩, preVote := preVote }

/-- The voter 1 is elected in epoch 1 with the votes of 1 and 2. -/
def electionOfFirst : List Label :=
  let at' (id : NodeId) (event : Event) : Label := .event id event .empty 0 none
  [at' 1 .electionTimeout, at' 2 (.receiveVoteRequest (requestOfFirst 0 true)),
    at' 1 (.receiveVoteResponse 2 0 true),
    at' 2 (.receiveVoteRequest (requestOfFirst 1 false)),
    at' 1 (.receiveVoteResponse 2 1 true)]

theorem election_safety_first_election :
    (electionOfFirst.foldl apply freshCluster).Leads 1 1 ∧
      ∀ id, (electionOfFirst.foldl apply freshCluster).Leads id 1 → 1 = id := by
  have hleads : (electionOfFirst.foldl apply freshCluster).Leads 1 1 := by decide
  have hreach : (system (.ofIds [1, 2, 3])).Reachable (electionOfFirst.foldl apply freshCluster) :=
    .foldl Permitted (.init ⟨rfl, Uuid.nil, 0, fun _ => ⟨1000, 2000, rfl⟩⟩)
      (fun _ _ h => ⟨rfl, h⟩) (by decide)
  exact ⟨hleads, fun _ h => election_safety hreach .refl hleads h⟩

theorem vote_binds_first_election : ∃ key,
    (((electionOfFirst.foldl apply freshCluster).apply (.crash 2)).machines 2).state.votedKey =
      some key ∧ key.id = 1 := by
  have hreach : (system (.ofIds [1, 2, 3])).Reachable (electionOfFirst.foldl apply freshCluster) :=
    .foldl Permitted (.init ⟨rfl, Uuid.nil, 0, fun _ => ⟨1000, 2000, rfl⟩⟩)
      (fun _ _ h => ⟨rfl, h⟩) (by decide)
  exact (@vote_binds _ _ _ 2 ⟨1, Uuid.nil⟩ hreach (.tail (a := .crash 2) .refl
    ⟨rfl, by decide⟩) rfl (by decide)).2 (by decide)

end Cluster

end Krabka.KraftCore

import Krabka.KraftCore.ReplicationSteps

/-!
# Leader completeness

Once a leader has announced a high watermark, every leader of a later epoch has
the records below it, and the replicas that were counted never lose them.

This holds in the runs in which diverging answers are `Timely`.  It fails in
general: nothing ties an answer to the Fetch it answers, so a diverging answer
that arrives after the follower has caught up makes it truncate records that are
already committed.  `LateAnswer` is such a run.
-/

namespace Krabka.KraftCore

open List QuorumStateMachine LogCluster ReplicationInv

variable {V : VoterSet} {b b' : Ballots NodeId Nat NodeId} {H H' : Chronicle NodeId Record}
  {m : QuorumStateMachine} {c c' : LogCluster} {id : NodeId}

/-! ## Every run -/

theorem replicationInv_start (h : c.Starts V) : ReplicationInv V .blank .blank c := by
  obtain ⟨hcluster, hlogs, hfetches, hanswers⟩ := h
  have hinv := Cluster.inv_start hcluster
  obtain ⟨hnet, clusterId, version, hreplicas⟩ := hcluster
  refine ⟨hinv, LogInv.init hlogs, ?_, ?_, ?_, ?_, ?_, ?_⟩
  · intro e s hs
    cases hs
  · intro x f hf
    obtain ⟨electionMs, fetchMs, hr⟩ := hreplicas x
    have hlead := (new_role x { QuorumState.bootstrap clusterId V with kraftVersion := version }
      electionMs fetchMs).2
    rw [machine, hr] at hf
    rw [hf] at hlead
    cases hlead
  · intro x e y _ hb
    cases hb
  · intro r hr
    rw [hnet] at hr
    cases hr
  · intro f hf
    rw [hfetches] at hf
    cases hf
  · intro a ha
    rw [hanswers] at ha
    cases ha

/-- **One step of a cluster with its logs.** -/
theorem ReplicationInv.step {a : Label} (h : ReplicationInv V b H c)
    (hstep : ((system V).restrict Timely).step c a c') :
    ∃ b' H', b ≤ b' ∧ H ≤ H' ∧ ReplicationInv V b' H' c' := by
  obtain ⟨⟨rfl, henabled, hbound⟩, htimely⟩ := hstep
  cases a with
  | event id event now crashAfter =>
    refine h.handle henabled.2.delivered ?_ ?_ hbound
    · rintro y e offset rfl
      exact henabled.1
    · rintro l point rfl
      exact henabled.1.elim
  | serve id f batches now => exact h.serve henabled.1 henabled.2.2 hbound
  | receive id answer peer now crashAfter => exact h.receive henabled.1 henabled.2 htimely hbound
  | poll id peer => exact ⟨b, H, le_refl b, le_refl H, h.sendFetch peer⟩
  | submit id contents =>
    have hrecs : ∀ r ∈ contents.map (Record.mk (c.machine id).state.leaderEpoch),
        r.epoch = (c.machine id).state.leaderEpoch := by
      intro r hr
      obtain ⟨content, -, rfl⟩ := mem_map.mp hr
      rfl
    obtain ⟨H', hle, h'⟩ := h.append _ henabled hrecs
    exact ⟨b, H', le_refl b, hle, h'⟩
  | crash id => exact ⟨b, H, le_refl b, le_refl H, h.crash id⟩

/-- The ghosts of a run. -/
abbrev Ghost := Ballots NodeId Nat NodeId × Chronicle NodeId Record

theorem ReplicationInv.ghost_step (g : Ghost) (c : LogCluster) (a : Label) (c' : LogCluster)
    (h : ReplicationInv V g.1 g.2 c) (hstep : ((system V).restrict Timely).step c a c') :
    ∃ g' : Ghost, g ≤ g' ∧ ReplicationInv V g'.1 g'.2 c' := by
  obtain ⟨b', H', hb, hH, h'⟩ := h.step hstep
  exact ⟨(b', H'), ⟨hb, hH⟩, h'⟩

theorem ReplicationInv.of_reachable (h : ((system V).restrict Timely).Reachable c) :
    ∃ g : Ghost, ReplicationInv V g.1 g.2 c :=
  h.ghost (P := fun (g : Ghost) c => ReplicationInv V g.1 g.2 c)
    (fun _ hs => ⟨(.blank, .blank), replicationInv_start hs⟩) ghost_step

theorem ReplicationInv.of_leads {g : Ghost} (h : ReplicationInv V g.1 g.2 c)
    (hleads : ((system V).restrict Timely).Leads c c') :
    ∃ g' : Ghost, g ≤ g' ∧ ReplicationInv V g'.1 g'.2 c' :=
  hleads.ghost (P := fun (g : Ghost) c => ReplicationInv V g.1 g.2 c) ghost_step h

/-! ## An announced high watermark -/

variable {target : Int}

theorem tryCompleteFetch_advances {log : LogView} {f : Fetch} {batches : List Batch} {now : Nat}
    {fields : LeaderFields} (hrole : m.role = .leader fields)
    (hstart : 0 ≤ fields.epochStartOffset)
    (h : .advanceHighWatermark target ∈ (m.tryCompleteFetch log f batches now).1.2) :
    ∃ fields', (m.tryCompleteFetch log f batches now).1.1.role = .leader fields' ∧
      (m.tryCompleteFetch log f batches now).1.1.state = m.state ∧
      (m.tryCompleteFetch log f batches now).1.1.me = m.me ∧
      fields'.epochStartOffset < target ∧ target ≤ log.endOffset ∧
      m.majority ≤ countGe log.endOffset
        (fields'.replicas.values.map (fun p => min p.fetchOffset log.endOffset)) target
        m.isVoter := by
  unfold tryCompleteFetch at h ⊢
  split_ifs at h ⊢
  · cases h
  cases herror : m.leaderOnlyRequestError f.currentLeaderEpoch with
  | some error =>
    rw [herror] at h
    cases h
  | none =>
    rw [herror] at h
    unfold runReplicaFetch at h ⊢
    split_ifs at h ⊢
    · rw [onEvent, handleFetch, if_neg (by simp [hrole, Role.isLeader])] at h ⊢
      split_ifs at h ⊢
      · rcases mem_append.mp h with h | h
        · cases recordQuorumContact_actions h
        · simp at h
      · rcases mem_append.mp h with h | h
        · cases recordQuorumContact_actions h
        obtain ⟨fetched, hcontact⟩ := recordQuorumContact_fields f.fromId now hrole
        obtain ⟨hwm, hfields⟩ :=
          recordProgress_fields log.endOffset f.fetchOffset f.fromId now hcontact
        obtain ⟨hstate₁, hme₁, -⟩ := recordQuorumContact_frame (m := m) f.fromId now
        obtain ⟨hstate₂, hme₂, -⟩ := recordProgress_frame
          (m := (m.recordQuorumContact f.fromId now).1) log.endOffset f.fetchOffset f.fromId now
        obtain ⟨hlt, hle, hcount⟩ := recordProgress_advances hcontact hstart h
        refine ⟨_, hfields, hstate₂.trans hstate₁, hme₂.trans hme₁, hlt, hle, ?_⟩
        rw [majority, QuorumStateMachine.isVoter, hstate₁, hme₁] at hcount
        exact hcount
    · cases h
    · cases h

theorem ReplicationInv.committed {fields : LeaderFields}
    (h : ReplicationInv V b H c) (hrole : (c.machine id).role = .leader fields)
    (hlt : fields.epochStartOffset < target) (hle : target ≤ (c.logs id).length)
    (hcount : (c.machine id).majority ≤ countGe (c.logs id).length
      (fields.replicas.values.map (fun p => min p.fetchOffset ((c.logs id).length : Int))) target
      (c.machine id).isVoter) :
    H.Reaches (c.machine id).state.leaderEpoch target.toNat ∧
      (∃ M, IsMajority V.idSet M ∧ ∀ r ∈ M, c.Counts id target r) ∧
      ∀ r, c.Counts id target r →
        target.toNat ≤ H.held r (c.machine id).state.leaderEpoch := by
  have hleader := h.leader id fields hrole
  obtain ⟨s, hs, hstart⟩ := hleader.start
  have hreaches : H.Reaches (c.machine id).state.leaderEpoch target.toNat :=
    ⟨s, hs, by omega⟩
  have hcounts : ∀ r, c.Counts id target r ↔ r = id ∨
      ∃ p, fields.replicas.get? r = some p ∧ target ≤ p.fetchOffset := by
    intro r
    unfold Counts
    rw [hrole]
  refine ⟨hreaches, ?_, ?_⟩
  · obtain ⟨M, hM, hmem⟩ := isMajority_of_countGe (m := c.machine id) (fun y p hp => by
      obtain ⟨hv, hne, -⟩ := hleader.progress y p hp
      rw [(h.replica id).voters, (h.replica id).me]
      exact ⟨hv, hne⟩) hcount
    rw [(h.replica id).voters] at hM
    rw [(h.replica id).me] at hmem
    exact ⟨M, hM, fun r hr => (hcounts r).mpr (hmem r hr)⟩
  · intro r hr
    rcases (hcounts r).mp hr with rfl | ⟨p, hp, hoff⟩
    · -- The leader holds its own log, which ends in a record of its epoch.
      have hlen : target.toNat ≤ (c.logs r).length := by omega
      have hlog : (c.logs r).length ≤ H.held r (c.machine r).state.leaderEpoch := by
        have hreaches' : H.Reaches (c.machine r).state.leaderEpoch
            (H.log (c.machine r).state.leaderEpoch).length :=
          ⟨s, hs, by rw [← hleader.log_eq]; omega⟩
        obtain ⟨p, q, hpq, hq⟩ := h.logs.valid.take_reaches hreaches' le_rfl
        rw [take_length, ← hleader.log_eq] at hpq
        exact h.logs.held_log r p q hpq hq
      omega
    · have := (hleader.progress r p hp).2.2 (by omega)
      omega

theorem ReplicationInv.log_of_leads {e : Nat} (h : ReplicationInv V b H c) (hleads : c.Leads id e) :
    ∃ s, H.start e = some s ∧ s <+: H.log e ∧ c.logs id = H.log e := by
  obtain ⟨hrole, hepoch⟩ := hleads
  have he : (c.machine id).state.leaderEpoch = e := hepoch
  cases hf : (c.machine id).role with
  | leader fields =>
    have hleader := h.leader id fields hf
    rw [he] at hleader
    obtain ⟨s, hs, -⟩ := hleader.start
    exact ⟨s, hs, h.logs.valid.start_isPrefix hs, hleader.log_eq⟩
  | _ =>
    have hno : (c.machine id).role.isLeader = true := hrole
    rw [hf] at hno
    cases hno

theorem advances_spec {a : Label} {e : Nat} (h : ReplicationInv V b H c)
    (hleads : c.Leads id e) (hadvances : c.Advances id target a) :
    ∃ fields, ((c.apply a).machine id).role = .leader fields ∧
      ((c.apply a).machine id).state.leaderEpoch = e ∧ fields.epochStartOffset < target ∧
      target ≤ ((c.apply a).logs id).length ∧
      ((c.apply a).machine id).majority ≤ countGe ((c.apply a).logs id).length
        (fields.replicas.values.map
          (fun p => min p.fetchOffset (((c.apply a).logs id).length : Int))) target
        ((c.apply a).machine id).isVoter := by
  cases a with
  | serve id' f batches now =>
    obtain ⟨rfl, hact⟩ := hadvances
    obtain ⟨hrole, hepoch⟩ := hleads
    cases hf : (c.machine id').role with
    | leader fields =>
      obtain ⟨s, -, hstart⟩ := (h.leader id' fields hf).start
      obtain ⟨fields', hrole', hstate, hme, hlt, hle, hcount⟩ :=
        tryCompleteFetch_advances hf (by omega) hact
      have hmachine : (c.apply (.serve id' f batches now)).machine id' =
          ((c.machine id').tryCompleteFetch (logView (c.logs id')) f batches now).1.1 := by
        rw [apply_serve, machine_after, Function.update_self]
      have hlogs : (c.apply (.serve id' f batches now)).logs id' = c.logs id' := rfl
      rw [logView_endOffset] at hle hcount
      rw [hmachine, hlogs]
      refine ⟨fields', hrole', hstate ▸ hepoch, hlt, hle, ?_⟩
      rw [majority, QuorumStateMachine.isVoter, hstate, hme]
      exact hcount
    | _ =>
      have hno : (c.machine id').role.isLeader = true := hrole
      rw [hf] at hno
      cases hno
  | _ => exact hadvances.elim

/-! ## The result -/

def SharesBelow (h : Int) (log log' : List Record) : Prop :=
  h ≤ log.length ∧ h ≤ log'.length ∧ log'.take h.toNat = log.take h.toNat

instance (h : Int) (log log' : List Record) : Decidable (SharesBelow h log log') :=
  inferInstanceAs (Decidable (_ ∧ _ ∧ _))

theorem sharesBelow_of_isPrefix {h : Int} {log log' : List Record} (hle : h ≤ log.length)
    (hp : log.take h.toNat <+: log') : SharesBelow h log log' := by
  have hlen := hp.length_le
  rw [length_take] at hlen
  refine ⟨hle, by omega, ?_⟩
  obtain ⟨t, rfl⟩ := hp
  rw [take_append_of_le_length (by rw [length_take]; omega), take_take, min_self]

/-- **Leader completeness.**  In a run with timely answers, once the leader `id`
of epoch `e` announces the high watermark `h`, every leader of a later epoch,
before or after in the run, has its records below `h`; a majority of the voters
is counted for `h`, and the log of whoever is counted keeps these records. -/
theorem leader_completeness {V : VoterSet} {c c' : LogCluster} {a : Label} {id : NodeId} {e : Nat}
    {h : Int} (hreach : ((system V).restrict Timely).Reachable c)
    (hstep : ((system V).restrict Timely).step c a c') (hleads : c.Leads id e)
    (hadvances : c.Advances id h a) :
    (∀ c'', ((system V).restrict Timely).Leads c' c'' ∨
        ((system V).restrict Timely).Reachable c'' ∧ ((system V).restrict Timely).Leads c'' c' →
      ∀ id' e', e < e' → c''.Leads id' e' → SharesBelow h (c'.logs id) (c''.logs id')) ∧
    (∃ M, IsMajority V.idSet M ∧ ∀ r ∈ M, c'.Counts id h r) ∧
    ∀ c'', ((system V).restrict Timely).Leads c' c'' → ∀ r, c'.Counts id h r →
      SharesBelow h (c'.logs id) (c''.logs r) := by
  obtain ⟨g, hg⟩ := of_reachable hreach
  obtain ⟨fields, hrole, hepoch, hlt, hle, hcount⟩ := advances_spec hg hleads hadvances
  obtain ⟨g', -, hg'⟩ := ghost_step g c a c' hg hstep
  obtain rfl : c' = c.apply a := hstep.1.1
  have hn : h.toNat ≤ ((c.apply a).logs id).length := by omega
  have hlead : (c.apply a).Leads id e := ⟨by
    show ((c.apply a).machine id).role.isLeader = true
    rw [hrole]
    rfl, hepoch⟩
  -- Whatever the ghosts of the run up to here are, a majority holds `h`.
  have hcommitted (g : Ghost) (hg : ReplicationInv V g.1 g.2 (c.apply a)) :=
    hepoch ▸ hg.committed hrole hlt hle hcount
  have hlog (g : Ghost) (hg : ReplicationInv V g.1 g.2 (c.apply a)) :
      (c.apply a).logs id = g.2.log e := by
    obtain ⟨-, -, -, heq⟩ := hg.log_of_leads hlead
    exact heq
  obtain ⟨hreaches, ⟨M, hM, hMc⟩, hheld⟩ := hcommitted g' hg'
  have hafter : ∀ c'', ((system V).restrict Timely).Leads (c.apply a) c'' →
      ∃ g'' : Ghost, ReplicationInv V g''.1 g''.2 c'' ∧ g''.2.Reaches e h.toNat ∧
        (∀ r, (c.apply a).Counts id h r → h.toNat ≤ g''.2.held r e) ∧
        (g''.2.log e).take h.toNat = ((c.apply a).logs id).take h.toNat := by
    intro c'' hto
    obtain ⟨g'', hge, hg''⟩ := hg'.of_leads hto
    obtain ⟨s, hs, hlt⟩ := hreaches
    refine ⟨g'', hg'', ⟨s, Chronicle.start_mono hge.2 hs, hlt⟩,
      fun r hr => (hheld r hr).trans (Chronicle.held_mono hge.2 r e), ?_⟩
    rw [hlog g' hg'] at hn ⊢
    exact Chronicle.take_log_of_le hge.2 hn
  refine ⟨?_, ⟨M, hM, hMc⟩, ?_⟩
  · rintro c'' (hto | ⟨hreach'', hto⟩) id' e' hlt' hleads'
    · obtain ⟨g'', hg'', hreaches'', hheld'', htake⟩ := hafter c'' hto
      obtain ⟨s, hs, hpre, heq⟩ := hg''.log_of_leads hleads'
      have hcomplete := hg''.logs.complete hM (fun r hr => hheld'' r (hMc r hr)) hreaches'' hlt' hs
      rw [htake] at hcomplete
      exact sharesBelow_of_isPrefix hle (heq ▸ hcomplete.trans hpre)
    · -- A leader of a later epoch that is older in the run began with them too.
      obtain ⟨g₀, hg₀⟩ := of_reachable hreach''
      obtain ⟨g₁, hge, hg₁⟩ := hg₀.of_leads hto
      obtain ⟨s, hs, hpre, heq⟩ := hg₀.log_of_leads hleads'
      obtain ⟨hreaches₁, ⟨M₁, hM₁, hMc₁⟩, hheld₁⟩ := hcommitted g₁ hg₁
      have hcomplete := hg₁.logs.complete hM₁ (fun r hr => hheld₁ r (hMc₁ r hr)) hreaches₁ hlt'
        (Chronicle.start_mono hge.2 hs)
      rw [← hlog g₁ hg₁] at hcomplete
      exact sharesBelow_of_isPrefix hle (heq ▸ hcomplete.trans hpre)
  · intro c'' hto r hr
    obtain ⟨g'', hg'', hreaches'', hheld'', htake⟩ := hafter c'' hto
    have hkeeps := hg''.logs.holds hM (fun r hr => hheld'' r (hMc r hr)) hreaches'' (hheld'' r hr)
    rw [htake] at hkeeps
    exact sharesBelow_of_isPrefix hle hkeeps

/-- **Log matching.**  At one time or at different times of a run, two logs that
have a record of one epoch at one offset are the same up to it. -/
theorem log_matching {V : VoterSet} {c c' : LogCluster} {x y : NodeId} {offset : Nat}
    {r r' : Record} (hreach : ((system V).restrict Timely).Reachable c)
    (hlater : ((system V).restrict Timely).Leads c c') (hr : (c.logs x)[offset]? = some r)
    (hr' : (c'.logs y)[offset]? = some r') (he : r.epoch = r'.epoch) :
    (c.logs x).take (offset + 1) = (c'.logs y).take (offset + 1) := by
  obtain ⟨g, hg⟩ := of_reachable hreach
  obtain ⟨g', hge, hg'⟩ := hg.of_leads hlater
  exact ((hg.logs.backed x).mono hge.2).take_eq (hg'.logs.backed y) hr hr' he

/-! ## A run with a late answer -/

/-- The voters 1, 2 and 3 with empty logs. -/
def freshLogs : LogCluster where
  cluster := Cluster.freshCluster
  logs := fun _ => []
  fetches := []
  answers := []
  directories := fun _ => Uuid.nil

namespace LateAnswer

def request (candidate voter epoch : Nat) (preVote : Bool) : VoteRequest :=
  { fromId := candidate, clusterId := some Uuid.nil, voterId := voter
    voterDirectoryId := Uuid.nil, candidateEpoch := epoch, candidate := candidate
    candidateDirectoryId := Uuid.nil, candidateLogEnd := ⟨0, 0⟩, preVote := preVote }

def at_ (id : NodeId) (event : Event) : Label := .event id event 0 none

/-- The voter `voter` lets `candidate`, whose epoch is `epoch`, become the leader
of the next epoch. -/
def election (candidate voter epoch : Nat) : List Label :=
  [at_ candidate .electionTimeout,
    at_ voter (.receiveVoteRequest (request candidate voter epoch true)),
    at_ candidate (.receiveVoteResponse voter epoch true),
    at_ voter (.receiveVoteRequest (request candidate voter (epoch + 1) false)),
    at_ candidate (.receiveVoteResponse voter (epoch + 1) true)]

/-- The Fetch of 2 from the end of the log it wrote as the leader of epoch 1. -/
def fetch : Fetch := ⟨2, 1, Uuid.nil, 2, 1, 1⟩

def refusal : FetchAnswer := ⟨fetch, none, some 1, 2, some ⟨0, 1⟩, []⟩

def refetch : Fetch := ⟨2, 1, Uuid.nil, 2, 0, 0⟩

def batch : Batch := ⟨0, [⟨2, .leaderChange 1⟩]⟩

/-- 2 is the leader of epoch 1, then 1 of epoch 2.  2 sends its Fetch twice, and
1 refuses both; 2 takes one of the refusals, truncates its log and copies the
log of 1. -/
def catchUp : List Label :=
  election 2 3 0 ++
  [at_ 1 (.receiveVoteRequest (request 2 1 1 false))] ++ election 1 3 1 ++
  [at_ 2 (.receiveBeginQuorumEpoch 1 2), at_ 2 .fetchTimeout, at_ 2 .electionTimeout,
    .serve 1 fetch [] 0, .serve 1 fetch [] 0, .receive 2 refusal 1 0 none,
    .serve 1 refetch [batch] 0, .receive 2 ⟨refetch, none, some 1, 2, none, [batch]⟩ 1 0 none]

/-- The Fetch of 2 with which 1 commits its first record. -/
def commit : Label := .serve 1 ⟨2, 1, Uuid.nil, 2, 2, 1⟩ [] 0

/-- The other refusal arrives, and 3 is elected with the vote of 2. -/
def lose : List Label :=
  [.receive 2 refusal 1 0 none, at_ 2 .fetchTimeout] ++ election 3 2 2

end LateAnswer

open LateAnswer

theorem starts_freshLogs : freshLogs.Starts (.ofIds [1, 2, 3]) :=
  ⟨⟨rfl, Uuid.nil, 0, fun _ => ⟨1000, 2000, rfl⟩⟩, fun _ => rfl, rfl, rfl⟩

/-- 1 announces the high watermark 1 in epoch 2, with 2 in the majority. -/
theorem leader_completeness_caught_up :
    (catchUp.foldl apply freshLogs).Leads 1 2 ∧
      (catchUp.foldl apply freshLogs).Advances 1 1 commit ∧
      (∃ M, IsMajority (VoterSet.ofIds [1, 2, 3]).idSet M ∧
        ∀ r ∈ M, ((catchUp.foldl apply freshLogs).apply commit).Counts 1 1 r) ∧
      ∀ c'', ((system (.ofIds [1, 2, 3])).restrict Timely).Leads
          ((catchUp.foldl apply freshLogs).apply commit) c'' →
        ∀ r, ((catchUp.foldl apply freshLogs).apply commit).Counts 1 1 r →
          SharesBelow 1 (((catchUp.foldl apply freshLogs).apply commit).logs 1) (c''.logs r) := by
  have hreach : ((system (.ofIds [1, 2, 3])).restrict Timely).Reachable
      (catchUp.foldl apply freshLogs) :=
    .foldl (fun c a c' => c.Permitted a c' ∧ c.Timely a c') (.init starts_freshLogs)
      (fun _ _ h => ⟨⟨rfl, h.1⟩, h.2⟩) (by decide +kernel)
  have hleads : (catchUp.foldl apply freshLogs).Leads 1 2 := by decide +kernel
  have hadvances : (catchUp.foldl apply freshLogs).Advances 1 1 commit := by decide +kernel
  have hresult := leader_completeness (a := commit) hreach ⟨⟨rfl, by decide +kernel⟩, trivial⟩
    hleads hadvances
  exact ⟨hleads, hadvances, hresult.2⟩

theorem log_matching_caught_up :
    ((catchUp.foldl apply freshLogs).logs 1).take 1 =
      ((catchUp.foldl apply freshLogs).logs 2).take 1 := by
  have hreach : ((system (.ofIds [1, 2, 3])).restrict Timely).Reachable
      (catchUp.foldl apply freshLogs) :=
    .foldl (fun c a c' => c.Permitted a c' ∧ c.Timely a c') (.init starts_freshLogs)
      (fun _ _ h => ⟨⟨rfl, h.1⟩, h.2⟩) (by decide +kernel)
  exact @log_matching _ _ _ 1 2 0 ⟨2, .leaderChange 1⟩ ⟨2, .leaderChange 1⟩ hreach .refl
    (by decide +kernel) (by decide +kernel) rfl

/-- A refusal that comes late takes a committed record from 2, and 3 becomes the
leader of epoch 3 without it. -/
theorem committed_record_lost :
    ∃ c a c' c'', (system (.ofIds [1, 2, 3])).Reachable c ∧
      (system (.ofIds [1, 2, 3])).step c a c' ∧ c.Leads 1 2 ∧ c.Advances 1 1 a ∧
      (system (.ofIds [1, 2, 3])).Leads c' c'' ∧ c''.Leads 3 3 ∧
      ¬SharesBelow 1 (c'.logs 1) (c''.logs 3) := by
  refine ⟨catchUp.foldl apply freshLogs, commit, (catchUp.foldl apply freshLogs).apply commit,
    lose.foldl apply ((catchUp.foldl apply freshLogs).apply commit), ?_, ⟨rfl, by decide +kernel⟩,
    by decide +kernel, by decide +kernel, ?_, by decide +kernel, by decide +kernel⟩
  · exact .foldl Permitted (.init starts_freshLogs) (fun _ _ h => ⟨rfl, h⟩) (by decide +kernel)
  · exact .foldl Permitted .refl (fun _ _ h => ⟨rfl, h⟩) (by decide +kernel)

end Krabka.KraftCore

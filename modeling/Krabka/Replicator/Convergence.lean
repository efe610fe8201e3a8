import Krabka.Replicator.Following

/-!
# A diverged follower converges

Rounds of a follower against a leader that only appends.  A run passes two
phases.  While the answers diverge the logs stay `Comparable` and every answer
brings the follower's end or its latest epoch down, so there are only so many of
them.  From the first answer with records on the follower is `Following`.
-/

namespace Krabka.Replicator

open Extent Krabka.Log Krabka.Log.LeaderEpochCheckpoint ReplicaLog Option List

variable {ρ : Type}

structure Replicas (ρ : Type) where
  follower : ReplicaLog ρ
  leader : ReplicaLog ρ

inductive ReplicaOp (ρ : Type) where
  /-- A fetch of the follower from its log end, answered and handled. -/
  | fetch (more : Nat)
  /-- The leader appends in its latest epoch. -/
  | append (b : RecordBatch ρ)

def ReplicaOp.isFetch : ReplicaOp ρ → Bool
  | .fetch _ => true
  | .append _ => false

namespace Replicas

def answer (s : Replicas ρ) (more : Nat) : FetchAnswer ρ :=
  s.leader.answer s.follower.logEnd s.follower.lastFetchedEpoch more

/-- A round is taken while the leader's log start is not above the follower's
end. -/
def step (s : Replicas ρ) : ReplicaOp ρ → Option (Replicas ρ)
  | .fetch more =>
    if s.leader.localStart ≤ s.follower.logEnd then
      some { s with follower := s.follower.handleResponse (s.answer more) }
    else none
  | .append b =>
    match s.leader.epochs.latestEpoch with
    | none => none
    | some epoch =>
      if 0 ≤ b.lastOffsetDelta then
        some { s with leader := s.leader.append (s.leader.stamped epoch b) }
      else none

/-! ## Runs -/

variable {s s' : Replicas ρ} {op : ReplicaOp ρ} {ops : List (ReplicaOp ρ)}

theorem step_cases (h : s.step op = some s') :
    (∃ more, op = .fetch more ∧ s.leader.localStart ≤ s.follower.logEnd ∧
        s' = { s with follower := s.follower.handleResponse (s.answer more) }) ∨
      ∃ b epoch, op = .append b ∧ s.leader.epochs.latestEpoch = some epoch ∧
        0 ≤ b.lastOffsetDelta ∧
          s' = { s with leader := s.leader.append (s.leader.stamped epoch b) } := by
  cases op with
  | fetch more =>
    unfold step at h
    dsimp only at h
    split at h
    · rename_i hstart
      exact .inl ⟨more, rfl, hstart, (some.inj h).symm⟩
    · cases h
  | append b =>
    unfold step at h
    dsimp only at h
    split at h
    · cases h
    · rename_i epoch hlatest
      split at h
      · rename_i hdelta
        exact .inr ⟨b, epoch, rfl, hlatest, hdelta, (some.inj h).symm⟩
      · cases h

inductive Phase (s : Replicas ρ) : Prop
  | above (hleader : s.leader.Complete) (hgoverned : s.leader.Governed)
      (h : Above s.follower s.leader)
  | comparing (h : Comparable s.follower s.leader) (habove : ¬ Above s.follower s.leader)
  | following (h : Following s.follower s.leader)

theorem above_extends {leader' : ReplicaLog ρ} (h : Extends s.leader leader') :
    Above s.follower leader' ↔ Above s.follower s.leader := by
  unfold Above
  rw [h.epochs]

theorem above_rows {follower' : ReplicaLog ρ} (habove : ¬ Above s.follower s.leader)
    (hknown : ∀ e ∈ s.follower.epochs.entries, 0 ≤ e.epoch)
    (hrows : ∀ e ∈ follower'.epochs.entries, e ∈ s.follower.epochs.entries) :
    ¬ Above follower' s.leader := by
  rintro ⟨hzero, hall⟩
  obtain ⟨⟨e, he, hepoch⟩, -⟩ := latestEpoch_eq_some.mp (latestEpoch_of_lastFetchedEpoch hzero)
  obtain ⟨f, hf, hle⟩ := exists_row_of_not_above habove (hrows e he) (hknown e (hrows e he))
  have hlt := hall f hf
  omega

theorem comparing_fetch (h : Comparable s.follower s.leader) (habove : ¬ Above s.follower s.leader)
    (hstart : s.leader.localStart ≤ s.follower.logEnd) (more : Nat) :
    Following (s.follower.handleResponse (s.answer more)) s.leader ∨
      (Comparable (s.follower.handleResponse (s.answer more)) s.leader ∧
        ¬ Above (s.follower.handleResponse (s.answer more)) s.leader ∧
        (s.follower.handleResponse (s.answer more)).roundsLeft < s.follower.roundsLeft) := by
  unfold answer
  rcases h.following_or_diverges habove hstart more with hfollowing | ⟨epoch, last, hdiverges, heq⟩
  · left
    rw [hfollowing.answer_eq hstart more]
    exact hfollowing.appendRecords hstart more
  · right
    rw [heq]
    have htruncated : Truncated s.follower _ (s.follower.applyDivergingEpoch epoch last) :=
      h.follower_complete.truncateTo (h.target_nonneg (h.target hdiverges))
    exact ⟨h.applyDivergingEpoch hdiverges,
      above_rows habove h.follower_complete.epoch_nonneg fun e he => (htruncated.rows e he).1,
      h.roundsLeft_lt hdiverges⟩

theorem following_step (h : Following s.follower s.leader) (hstep : s.step op = some s') :
    Following s'.follower s'.leader := by
  rcases step_cases hstep with ⟨more, rfl, hstart, rfl⟩ | ⟨b, epoch, rfl, hlatest, hdelta, rfl⟩
  · unfold answer
    rw [h.answer_eq hstart more]
    exact h.appendRecords hstart more
  · exact h.extends (h.complete.append_latest h.governed hlatest hdelta)

theorem Phase.step (h : s.Phase) (hstep : s.step op = some s') : s'.Phase := by
  rcases step_cases hstep with ⟨more, rfl, hstart, rfl⟩ | ⟨b, epoch, rfl, hlatest, hdelta, rfl⟩
  · cases h with
    | above hleader hgoverned h =>
      refine .above hleader hgoverned ?_
      unfold answer
      rw [h.answer_eq more]
      exact h
    | comparing h habove =>
      rcases comparing_fetch h habove hstart more with hfollowing | ⟨hnext, hnot, -⟩
      · exact .following hfollowing
      · exact .comparing hnext hnot
    | following h => exact .following (following_step h hstep)
  · cases h with
    | above hleader hgoverned h =>
      have hextends := hleader.append_latest hgoverned hlatest hdelta
      exact .above hextends.complete hextends.governed ((above_extends hextends).mpr h)
    | comparing h habove =>
      have hextends := h.leader_complete.append_latest h.governed hlatest hdelta
      exact .comparing (h.extends habove hextends)
        (fun hnow => habove ((above_extends hextends).mp hnow))
    | following h => exact .following (following_step h hstep)

theorem Phase.run (h : s.Phase) (hrun : ops.foldlM Replicas.step s = some s') : s'.Phase := by
  induction ops generalizing s with
  | nil => exact some.inj hrun ▸ h
  | cons op ops ih =>
    rw [foldlM_cons] at hrun
    obtain ⟨t, ht, hrest⟩ := bind_eq_some_iff.mp hrun
    exact ih (h.step ht) hrest

theorem following_run (h : Following s.follower s.leader)
    (hrun : ops.foldlM Replicas.step s = some s') : Following s'.follower s'.leader := by
  induction ops generalizing s with
  | nil => exact some.inj hrun ▸ h
  | cons op ops ih =>
    rw [foldlM_cons] at hrun
    obtain ⟨t, ht, hrest⟩ := bind_eq_some_iff.mp hrun
    exact ih (following_step h ht) hrest

theorem comparing_run (h : Comparable s.follower s.leader) (habove : ¬ Above s.follower s.leader)
    (hrun : ops.foldlM Replicas.step s = some s')
    (hrounds : s.follower.roundsLeft < ops.countP ReplicaOp.isFetch) :
    Following s'.follower s'.leader := by
  induction ops generalizing s with
  | nil => cases hrounds
  | cons op ops ih =>
    rw [foldlM_cons] at hrun
    obtain ⟨t, ht, hrest⟩ := bind_eq_some_iff.mp hrun
    rcases step_cases ht with ⟨more, rfl, hstart, rfl⟩ | ⟨b, epoch, rfl, hlatest, hdelta, rfl⟩
    · rcases comparing_fetch h habove hstart more with hfollowing | ⟨hnext, hnot, hlt⟩
      · exact following_run hfollowing hrest
      · refine ih hnext hnot hrest ?_
        rw [countP_cons_of_pos rfl] at hrounds
        dsimp only
        omega
    · have hextends := h.leader_complete.append_latest h.governed hlatest hdelta
      rw [countP_cons_of_neg (by exact nofun)] at hrounds
      refine ih ?_ ?_ hrest hrounds
      · exact h.extends habove hextends
      · exact fun hnow => habove ((above_extends hextends).mp hnow)

/-- Rounds of a follower against a leader that only appends, for logs that
compare.  An answer is out of range only when the follower's last epoch is above
every epoch of the leader.  A diverging answer keeps every record that the leader
holds at the same offset with the same epoch, and it lowers the log end or drops
a latest epoch that held no record.  Once there were more rounds than such
answers can be, the follower's log is a prefix of the leader's. -/
theorem follower_converges {s₀ : Replicas ρ} (h : Comparable s₀.follower s₀.leader)
    (hrun : ops.foldlM Replicas.step s₀ = some s) :
    (s.leader.localStart ≤ s.follower.logEnd →
      ∀ more, s.answer more = .offsetOutOfRange → Above s.follower s.leader) ∧
    (∀ more epoch endOffset, s.answer more = .diverging epoch endOffset →
      s.leader.localStart ≤ s.follower.logEnd →
      (∀ offset b b', s.follower.localStart ≤ offset → s.leader.localStart ≤ offset →
        s.follower.Holds offset b → s.leader.Holds offset b' →
        b.partitionLeaderEpoch = b'.partitionLeaderEpoch →
        (s.follower.applyDivergingEpoch epoch endOffset).Holds offset b) ∧
      ((s.follower.applyDivergingEpoch epoch endOffset).logEnd < s.follower.logEnd ∨
        ((s.follower.applyDivergingEpoch epoch endOffset).logEnd = s.follower.logEnd ∧
          (s.follower.applyDivergingEpoch epoch endOffset).batches = s.follower.batches ∧
          (s.follower.applyDivergingEpoch epoch endOffset).lastFetchedEpoch <
            s.follower.lastFetchedEpoch))) ∧
    (¬ Above s₀.follower s₀.leader → s₀.follower.roundsLeft < ops.countP ReplicaOp.isFetch →
      IsPrefixOf s.follower s.leader) := by
  have hphase : s.Phase := by
    refine Phase.run ?_ hrun
    by_cases habove : Above s₀.follower s₀.leader
    · exact .above h.leader_complete h.governed habove
    · exact .comparing h habove
  refine ⟨?_, ?_, ?_⟩
  · intro hstart more hout
    unfold answer at hout
    cases hphase with
    | above _ _ habove => exact habove
    | comparing h habove =>
      rcases h.following_or_diverges habove hstart more with hfollowing | ⟨epoch, last, -, heq⟩
      · rw [hfollowing.answer_eq hstart more] at hout
        cases hout
      · rw [heq] at hout
        cases hout
    | following hfollowing =>
      rw [hfollowing.answer_eq hstart more] at hout
      cases hout
  · intro more epoch endOffset hdiverging hstart
    unfold answer at hdiverging
    cases hphase with
    | above _ _ habove =>
      rw [habove.answer_eq more] at hdiverging
      cases hdiverging
    | comparing h _ =>
      have htarget := h.target (diverges_of_answer hdiverging)
      have htruncated := h.follower_complete.truncateTo (h.target_nonneg htarget)
      refine ⟨?_, h.progress htarget⟩
      intro offset b b' hfollower hleader hb hb' hsame
      refine htruncated.holds_iff.mpr ⟨hb, ?_⟩
      by_contra hreach
      exact h.keeps_shared htarget hb hb' hfollower hleader (not_lt.mp hreach) hsame
    | following hfollowing =>
      rw [hfollowing.answer_eq hstart more] at hdiverging
      cases hdiverging
  · intro habove hrounds
    exact (comparing_run h habove hrun hrounds).toIsPrefixOf

end Replicas

/-- The records of one epoch over a range of offsets, as one batch. -/
def spanBatch (base last epoch : Int) : RecordBatch Unit where
  baseOffset := base
  lastOffsetDelta := last - base
  partitionLeaderEpoch := epoch
  maxTimestamp := 0
  producerId := -1
  producerEpoch := -1
  baseSequence := -1
  isTransactional := false
  deleteHorizonMs := none
  payload := .data [()]
  bodyLen := 10

/-- A history from its rows, each an epoch and its start. -/
def historyOf (rows : List (Int × Int)) : LeaderEpochCheckpoint :=
  rows.foldl (fun c row => (c.assign row.1 row.2).toOption.getD c) .empty

/-- A log with an established start at `start`. -/
def logOf (start : Int) (batches : List (RecordBatch Unit)) (rows : List (Int × Int)) :
    ReplicaLog Unit where
  firstLocal := start
  startOffset := start
  startOffsetEstablished := true
  batches := batches
  epochs := historyOf rows

/-- A follower with two records of an epoch that the leader does not have. -/
def diverged : Replicas Unit where
  follower := logOf 0 [spanBatch 0 2 1, spanBatch 3 4 2] [(1, 0), (2, 3)]
  leader := logOf 0 [spanBatch 0 2 1, spanBatch 3 6 3] [(1, 0), (3, 3)]

namespace Replicas

theorem follower_converges_diverged : Comparable diverged.follower diverged.leader ∧
    diverged.answer 0 = .diverging 1 3 ∧
    ∃ s, (replicate 9 (ReplicaOp.fetch 0)).foldlM step diverged = some s ∧
      IsPrefixOf s.follower s.leader := by
  have hcomparable : Comparable diverged.follower diverged.leader := by decide +kernel
  have hrun : ((replicate 9 (ReplicaOp.fetch 0)).foldlM step diverged).isSome := by
    decide +kernel
  obtain ⟨s, hs⟩ := isSome_iff_exists.mp hrun
  exact ⟨hcomparable, by decide +kernel, s, hs,
    (follower_converges hcomparable hs).2.2 (by decide +kernel) (by decide +kernel)⟩

/-! ## What the histories must say -/

/-- The logs agree up to every offset at which both hold a record of the same
epoch, both histories are complete and no log start is above the follower's end.
This is less than `Comparable`: two histories may place one epoch differently. -/
structure Stated (s : Replicas ρ) : Prop where
  follower_complete : s.follower.Complete ∧ s.follower.Governed
  leader_complete : s.leader.Complete ∧ s.leader.Governed
  start_le : s.leader.localStart ≤ s.follower.logEnd
  agree : ∀ offset b, s.follower.Holds offset b → ∀ b' ∈ s.leader.batches,
    s.leader.Holds offset b' → s.follower.localStart ≤ offset → s.leader.localStart ≤ offset →
    b.partitionLeaderEpoch = b'.partitionLeaderEpoch →
    AgreeBelow (offset + 1) s.follower s.leader

instance [DecidableEq ρ] (s : Replicas ρ) : Decidable s.Stated :=
  decidable_of_iff ((s.follower.Complete ∧ s.follower.Governed) ∧
      (s.leader.Complete ∧ s.leader.Governed) ∧ s.leader.localStart ≤ s.follower.logEnd ∧
      ∀ offset b, s.follower.Holds offset b → ∀ b' ∈ s.leader.batches,
        s.leader.Holds offset b' → s.follower.localStart ≤ offset → s.leader.localStart ≤ offset →
        b.partitionLeaderEpoch = b'.partitionLeaderEpoch →
        AgreeBelow (offset + 1) s.follower s.leader)
    ⟨fun h => ⟨h.1, h.2.1, h.2.2.1, h.2.2.2⟩,
      fun h => ⟨h.follower_complete, h.leader_complete, h.start_le, h.agree⟩⟩

/-- No number of rounds makes the follower's log a prefix. -/
def Stuck (s : Replicas ρ) : Prop :=
  ∀ (rounds : List Nat) (s' : Replicas ρ), (rounds.map ReplicaOp.fetch).foldlM step s = some s' →
    ¬ IsPrefixOf s'.follower s'.leader

variable {s : Replicas ρ}

theorem stuck_of_step (h : ¬ IsPrefixOf s.follower s.leader)
    (hstep : ∀ more s', s.step (.fetch more) = some s' → s'.Stuck) : s.Stuck := by
  intro rounds s' hrun
  cases rounds with
  | nil => exact some.inj hrun ▸ h
  | cons more rounds =>
    rw [map_cons, foldlM_cons] at hrun
    obtain ⟨t, ht, hrest⟩ := bind_eq_some_iff.mp hrun
    exact hstep more t ht rounds s' hrest

theorem stuck_of_fixed (h : ¬ IsPrefixOf s.follower s.leader)
    (hstep : ∀ more s', s.step (.fetch more) = some s' → s' = s) : s.Stuck := by
  intro rounds s' hrun
  induction rounds with
  | nil => exact some.inj hrun ▸ h
  | cons more rounds ih =>
    rw [map_cons, foldlM_cons] at hrun
    obtain ⟨t, ht, hrest⟩ := bind_eq_some_iff.mp hrun
    rw [hstep more t ht] at hrest
    exact ih hrest

theorem step_fetch_eq {s' : Replicas ρ} {more : Nat} {answer : FetchAnswer ρ}
    (hanswer : s.answer more = answer) (h : s.step (.fetch more) = some s') :
    s' = { s with follower := s.follower.handleResponse answer } := by
  rcases step_cases h with ⟨_, hop, -, rfl⟩ | ⟨b, epoch, hop, -⟩
  · obtain rfl := ReplicaOp.fetch.inj hop
    rw [hanswer]
  · cases hop

theorem answer_records {records : List (RecordBatch ρ)}
    (h : s.answer 1 = .records records) (hlength : records.length ≤ 1) (more : Nat) :
    s.answer more = .records records := by
  have hread : s.leader.readRecords s.follower.logEnd 1 = .records records := by
    unfold answer at h
    rcases answer_cases s.leader s.follower.logEnd s.follower.lastFetchedEpoch 1 with
      ⟨-, heq⟩ | ⟨found, last, -, -, -, ⟨-, heq⟩ | ⟨-, heq⟩ | ⟨-, -, heq⟩ | ⟨-, -, heq⟩⟩
    · exact heq ▸ h
    · exact absurd (heq ▸ h) nofun
    · exact absurd (heq ▸ h) nofun
    · exact heq ▸ h
    · exact absurd (heq ▸ h) nofun
  -- only the read looks at how much is asked for
  have hmore : s.leader.readRecords s.follower.logEnd more =
      s.leader.readRecords s.follower.logEnd 1 := by
    unfold readRecords at hread ⊢
    split at hread
    · cases hread
    rename_i hin
    have htake := FetchAnswer.records.inj hread
    have hshort : (above s.follower.logEnd s.leader.batches).length ≤ 1 := by
      rw [← htake, length_take] at hlength
      omega
    rw [if_neg hin, if_neg hin, take_of_length_le (by omega), take_of_length_le (by omega)]
  rw [← h, answer, answer, ReplicaLog.answer, ReplicaLog.answer, hmore]

def emptyEpoch : Replicas Unit where
  follower := logOf 0 [spanBatch 0 9 1] [(1, 0), (5, 10)]
  leader := logOf 0 [spanBatch 0 9 1] [(1, 0), (6, 10)]

/-- Epoch 2 begins at 3 in one history and at 5 in the other. -/
def misplacedEpoch : Replicas Unit where
  follower := logOf 0 [spanBatch 0 2 1, spanBatch 3 4 2] [(1, 0), (2, 3)]
  leader := logOf 0 [spanBatch 0 2 1, spanBatch 3 4 1, spanBatch 5 6 2] [(1, 0), (2, 5)]

/-- The follower has more of the leader's own epoch than the leader. -/
def aheadInEpoch : Replicas Unit where
  follower := logOf 0 [spanBatch 0 2 1, spanBatch 3 4 1] [(1, 0)]
  leader := logOf 0 [spanBatch 0 2 1] [(1, 0)]

/-- An empty follower that starts past the leader's end. -/
def startsPastEnd : Replicas Unit where
  follower := logOf 10 [] []
  leader := logOf 0 [spanBatch 0 4 1] [(1, 0)]

/-- The epoch that both know ends on the follower before the leader's log start. -/
def cutBelowStart : Replicas Unit where
  follower := logOf 0 [spanBatch 0 2 1, spanBatch 3 9 2] [(1, 0), (2, 3)]
  leader := logOf 5 [spanBatch 5 7 1, spanBatch 8 9 3] [(1, 5), (3, 8)]

/-- The follower's last epoch is above every epoch of the leader. -/
def aboveLeader : Replicas Unit where
  follower := logOf 0 [spanBatch 0 2 1, spanBatch 3 4 7] [(1, 0), (7, 3)]
  leader := logOf 0 [spanBatch 0 2 1, spanBatch 3 4 1] [(1, 0)]

theorem stuck_of_records {s : Replicas Unit} {b : RecordBatch Unit}
    (h : ¬ IsPrefixOf s.follower s.leader) (hanswer : s.answer 1 = .records [b])
    (h' : ¬ IsPrefixOf (s.follower.appendRecords [b]) s.leader)
    (hanswer' : Replicas.answer ⟨s.follower.appendRecords [b], s.leader⟩ 1 = .records []) :
    s.Stuck := by
  refine stuck_of_step h ?_
  intro more s' hstep
  obtain rfl := step_fetch_eq (answer_records hanswer le_rfl more) hstep
  refine stuck_of_fixed h' ?_
  intro more' s'' hstep'
  rw [step_fetch_eq (answer_records hanswer' (Nat.zero_le 1) more') hstep']
  rfl

theorem stuck_aboveLeader : aboveLeader.Stuck := by
  refine stuck_of_fixed (by decide +kernel) ?_
  intro more s' hstep
  have habove : Above aboveLeader.follower aboveLeader.leader := by decide +kernel
  rw [step_fetch_eq (habove.answer_eq more) hstep]
  rfl

theorem stuck_of_refused {s : Replicas Unit} {b : RecordBatch Unit}
    (h : ¬ IsPrefixOf s.follower s.leader) (hanswer : s.answer 1 = .records [b])
    (hrefused : s.follower.appendRecords [b] = s.follower) : s.Stuck := by
  refine stuck_of_fixed h ?_
  intro more s' hstep
  rw [step_fetch_eq (answer_records hanswer le_rfl more) hstep]
  unfold handleResponse
  dsimp only
  rw [hrefused]

/-- Logs that agree wherever both hold a record of one epoch need not converge.
An answer may leave the log end and drop an empty epoch only.  Histories that
place one epoch differently, and a follower that has more of the leader's own
epoch when the leader appends, never lead to a prefix; nor does a last epoch
above the leader's.  A log start past the other log's end makes an answer out of
range, also one that only a truncation brings past it. -/
theorem convergence_needs_placed_epochs :
    (emptyEpoch.Stated ∧ emptyEpoch.answer 0 = .diverging 1 10 ∧
      (emptyEpoch.follower.applyDivergingEpoch 1 10).logEnd = emptyEpoch.follower.logEnd) ∧
    (misplacedEpoch.Stated ∧ ¬ Above misplacedEpoch.follower misplacedEpoch.leader ∧
      misplacedEpoch.Stuck) ∧
    (aheadInEpoch.Stated ∧ ∃ s, aheadInEpoch.step (.append (spanBatch 0 3 0)) = some s ∧ s.Stuck) ∧
    (startsPastEnd.Stated ∧ ¬ Above startsPastEnd.follower startsPastEnd.leader ∧
      startsPastEnd.answer 0 = .offsetOutOfRange) ∧
    (cutBelowStart.Stated ∧ ∃ s, cutBelowStart.step (.fetch 0) = some s ∧
      ¬ Above s.follower s.leader ∧ s.answer 0 = .offsetOutOfRange) ∧
    (aboveLeader.Stated ∧ aboveLeader.Stuck) := by
  refine ⟨by decide +kernel, ⟨by decide +kernel, by decide +kernel, ?_⟩, ⟨by decide +kernel, ?_⟩,
    by decide +kernel, ⟨by decide +kernel, ?_⟩, by decide +kernel, stuck_aboveLeader⟩
  · exact stuck_of_records (b := spanBatch 5 6 2) (by decide +kernel) (by decide +kernel)
      (by decide +kernel) (by decide +kernel)
  · exact ⟨_, rfl, stuck_of_refused (b := spanBatch 3 6 1) (by decide +kernel) (by decide +kernel)
      (by decide +kernel)⟩
  · exact ⟨_, rfl, by decide +kernel, by decide +kernel⟩

end Replicas

end Krabka.Replicator

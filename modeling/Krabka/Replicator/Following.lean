import Krabka.Replicator.Divergence

/-!
# A follower that has caught a common point

`Following` is what the first answer with records leaves: the follower's log is a
prefix of the leader's and the leader goes on answering with records.  It is kept
by the rounds and by the leader's appends, and logs that compare reach it with
their first answer that does not diverge.
-/

namespace Krabka.Replicator

open Extent Krabka.Log Krabka.Log.LeaderEpochCheckpoint List

variable {ρ : Type}

namespace ReplicaLog

/-- The batch as the leader of an epoch appends it. -/
def stamped (leader : ReplicaLog ρ) (epoch : Int) (b : RecordBatch ρ) : RecordBatch ρ :=
  { b with baseOffset := leader.logEnd, partitionLeaderEpoch := epoch }

/-- The follower's log is a prefix of the leader's, on the offsets that both still
have. -/
structure IsPrefixOf (follower leader : ReplicaLog ρ) : Prop where
  end_le : follower.logEnd ≤ leader.logEnd
  agree : AgreeBelow follower.logEnd follower leader

instance [DecidableEq ρ] (follower leader : ReplicaLog ρ) :
    Decidable (IsPrefixOf follower leader) :=
  decidable_of_iff (follower.logEnd ≤ leader.logEnd ∧ AgreeBelow follower.logEnd follower leader)
    ⟨fun h => ⟨h.1, h.2⟩, fun h => ⟨h.end_le, h.agree⟩⟩

def Above (follower leader : ReplicaLog ρ) : Prop :=
  0 ≤ follower.lastFetchedEpoch ∧
    ∀ e ∈ leader.epochs.entries, e.epoch < follower.lastFetchedEpoch

instance (follower leader : ReplicaLog ρ) : Decidable (Above follower leader) := by
  unfold Above
  infer_instance

variable {follower leader leader' : ReplicaLog ρ} {b : RecordBatch ρ} {offset epoch endOffset : Int}

/-! ## The leader appends -/

/-- What an append in the latest epoch does to the leader's log. -/
structure Extends (leader leader' : ReplicaLog ρ) : Prop where
  complete : leader'.Complete
  governed : leader'.Governed
  epochs : leader'.epochs = leader.epochs
  start_eq : leader'.localStart = leader.localStart
  end_le : leader.logEnd ≤ leader'.logEnd
  holds_iff : ∀ offset b, offset < leader.logEnd → (leader'.Holds offset b ↔ leader.Holds offset b)

theorem Complete.assignedEpochs_latest (h : leader.Complete)
    (hlatest : leader.epochs.latestEpoch = some epoch) (b : RecordBatch ρ) :
    assignedEpochs leader.epochs (leader.stamped epoch b) = leader.epochs := by
  obtain ⟨⟨e, he, rfl⟩, hmax⟩ := latestEpoch_eq_some.mp hlatest
  have hknown := h.epoch_nonneg e he
  have hzero := h.logEnd_nonneg
  obtain ⟨last, hlast⟩ := Option.isSome_iff_exists.mp
    (getLast?_isSome.mpr (ne_nil_of_mem he))
  have hin := mem_of_getLast? hlast
  have hsame : last.epoch = e.epoch :=
    le_antisymm (hmax last hin) (le_of_getLast? leader.epochs.increasing hlast he).1
  have hstart := h.row_le last hin
  have hneeded : assignNeeded leader.epochs.entries e.epoch leader.logEnd = false := by
    unfold assignNeeded
    rw [hlast]
    simp [hsame, hstart]
  unfold assignedEpochs assign stamped
  dsimp only
  rw [if_neg (not_lt.mpr hknown), if_neg (by omega), hneeded]
  rfl

theorem Complete.append_latest (h : leader.Complete) (hgoverned : leader.Governed)
    (hlatest : leader.epochs.latestEpoch = some epoch) (hdelta : 0 ≤ b.lastOffsetDelta) :
    Extends leader (leader.append (leader.stamped epoch b)) := by
  obtain ⟨⟨e, he, rfl⟩, hmax⟩ := latestEpoch_eq_some.mp hlatest
  have hepochs : (leader.append (leader.stamped e.epoch b)).epochs = leader.epochs :=
    h.assignedEpochs_latest hlatest b
  have hend : (leader.append (leader.stamped e.epoch b)).logEnd =
      leader.logEnd + b.lastOffsetDelta + 1 := append_logEnd ..
  have hlast : (leader.stamped e.epoch b).lastOffset = leader.logEnd + b.lastOffsetDelta := rfl
  have hbase : (leader.stamped e.epoch b).baseOffset = leader.logEnd := rfl
  have hspan : Ordered leader.logEnd [leader.stamped e.epoch b] := by
    refine ordered_cons.mpr ⟨le_rfl, ?_, ordered_nil _⟩
    have hle : leader.logEnd ≤ leader.logEnd + b.lastOffsetDelta := by omega
    exact hle
  -- the latest row reaches from its start to the log end and on
  have hnew : ∀ offset,
      leader.logEnd ≤ offset → leader.epochs.epochForOffset offset = some e.epoch := by
    intro offset hle
    refine epochForOffset_eq_some.mpr ⟨e, he, rfl, (h.row_le e he).trans hle, ?_⟩
    intro f hf _
    have hle' := hmax f hf
    have horder := startOffset_lt_iff he hf
    omega
  refine ⟨⟨ordered_append.mpr ⟨h.ordered, hspan⟩, h.nonneg, ?_, ?_, ?_, ?_, ?_, ?_⟩,
    ?_, hepochs, rfl, by omega, ?_⟩
  · have hstart := h.start_le
    have hsame : (leader.append (leader.stamped e.epoch b)).startOffset = leader.startOffset := rfl
    omega
  · intro x hx
    rcases mem_append.mp hx with hx | hx
    · exact h.known x hx
    · rw [mem_singleton.mp hx]
      exact h.epoch_nonneg e he
  · intro offset x hx hstart
    rw [hepochs]
    rcases append_holds_iff.mp hx with hx | ⟨rfl, hlow, -⟩
    · exact h.covered offset x hx hstart
    · exact hnew offset (hbase ▸ hlow)
  · rw [hepochs]
    exact h.epoch_nonneg
  · rw [hepochs]
    exact h.row_nonneg
  · intro f hf
    rw [hepochs] at hf
    have hle := h.row_le f hf
    omega
  · intro offset hstart hlt
    rw [hepochs]
    by_cases hold : offset < leader.logEnd
    · exact hgoverned offset hstart hold
    · rw [hnew offset (not_lt.mp hold)]
      exact nofun
  · intro offset x hlt
    rw [append_holds_iff]
    refine ⟨fun hx => hx.resolve_right ?_, .inl⟩
    rintro ⟨-, hlow, -⟩
    omega

theorem exists_row_of_not_above (h : ¬ Above follower leader) {e : EpochEntry}
    (he : e ∈ follower.epochs.entries) (hknown : 0 ≤ e.epoch) :
    ∃ f ∈ leader.epochs.entries, e.epoch ≤ f.epoch := by
  have hle := le_lastFetchedEpoch he
  unfold Above at h
  push Not at h
  obtain ⟨f, hf, hge⟩ := h (by omega)
  exact ⟨f, hf, by omega⟩

theorem Comparable.extends (h : Comparable follower leader) (habove : ¬ Above follower leader)
    (hextends : Extends leader leader') : Comparable follower leader' := by
  refine ⟨h.follower_complete, hextends.complete, hextends.governed,
    h.start_le.trans hextends.end_le, ?_, ?_⟩
  · intro e he f hf heq offset b hfollower hleader hlt
    obtain ⟨hfirst, hsecond⟩ := lt_min_iff.mp hlt
    rw [heq, hextends.complete.lt_endOfEpoch hf] at hsecond
    rw [hextends.epochs] at hf hsecond
    rw [hextends.start_eq] at hleader
    -- the leader had the offset already: a newer row is past it, or the follower's end is
    have hold : offset < leader.logEnd := by
      by_cases hnewer : ∃ g ∈ leader.epochs.entries, f.epoch < g.epoch
      · obtain ⟨g, hg, hlt'⟩ := hnewer
        exact (hsecond.2 g hg hlt').trans_le (h.leader_complete.row_le g hg)
      · push Not at hnewer
        have hleaderLatest : leader.epochs.latestEpoch = some e.epoch :=
          latestEpoch_eq_some.mpr ⟨⟨f, hf, heq.symm⟩, fun g hg => heq ▸ hnewer g hg⟩
        have hfollowerLatest : follower.epochs.latestEpoch = some e.epoch := by
          refine latestEpoch_eq_some.mpr ⟨⟨e, he, rfl⟩, ?_⟩
          intro g hg
          obtain ⟨k, hk, hle⟩ := exists_row_of_not_above habove hg
            (h.follower_complete.epoch_nonneg g hg)
          have hle' := hnewer k hk
          omega
        have hend := h.latest _ hfollowerLatest hleaderLatest
        have hlt' := ((h.follower_complete.lt_endOfEpoch he).mp hfirst).1
        omega
    rw [hextends.holds_iff offset b hold]
    refine h.agree e he f hf heq offset b hfollower hleader (lt_min hfirst ?_)
    rw [heq, h.leader_complete.lt_endOfEpoch hf]
    exact ⟨hold, hsecond.2⟩
  · intro latest hfollower hleader
    rw [hextends.epochs] at hleader
    exact (h.latest latest hfollower hleader).trans hextends.end_le

/-! ## A follower that has caught a common point -/

/-- The follower's log is a prefix, and the leader answers with records. -/
structure Following (follower leader : ReplicaLog ρ) : Prop extends IsPrefixOf follower leader where
  ordered : Ordered follower.firstLocal follower.batches
  nonneg : 0 ≤ follower.logEnd
  complete : leader.Complete
  governed : leader.Governed
  reads : 0 ≤ follower.lastFetchedEpoch → follower.lastFetchedEpoch ≤
      (leader.epochs.epochAndOffsetFor follower.lastFetchedEpoch leader.logEnd).1 ∧
    follower.logEnd ≤ (leader.epochs.epochAndOffsetFor follower.lastFetchedEpoch leader.logEnd).2

theorem epochAndOffsetFor_mono (c : LeaderEpochCheckpoint) (requested : Int) {logEnd logEnd' : Int}
    (h : logEnd ≤ logEnd') :
    (c.epochAndOffsetFor requested logEnd').1 = (c.epochAndOffsetFor requested logEnd).1 ∧
      (c.epochAndOffsetFor requested logEnd).2 ≤ (c.epochAndOffsetFor requested logEnd').2 := by
  unfold epochAndOffsetFor
  split
  · exact ⟨rfl, le_rfl⟩
  · cases c.entries.dropWhile fun e => e.epoch ≤ requested with
    | nil =>
      dsimp only
      split
      · exact ⟨rfl, h⟩
      · exact ⟨rfl, le_rfl⟩
    | cons higher rest =>
      cases (c.entries.takeWhile fun e => e.epoch ≤ requested).getLast? with
      | none => exact ⟨rfl, le_rfl⟩
      | some previous => exact ⟨rfl, le_rfl⟩

theorem Following.extends (h : Following follower leader) (hextends : Extends leader leader') :
    Following follower leader' := by
  refine ⟨⟨h.end_le.trans hextends.end_le, ?_⟩, h.ordered, h.nonneg, hextends.complete,
    hextends.governed, ?_⟩
  · intro offset b hfollower hleader hlt
    rw [hextends.start_eq] at hleader
    rw [hextends.holds_iff offset b (hlt.trans_le h.end_le)]
    exact h.agree offset b hfollower hleader hlt
  · intro hknown
    obtain ⟨hepoch, hend⟩ := h.reads hknown
    obtain ⟨hsame, hmono⟩ := epochAndOffsetFor_mono leader.epochs follower.lastFetchedEpoch
      hextends.end_le
    rw [hextends.epochs, hsame]
    exact ⟨hepoch, hend.trans hmono⟩

theorem readRecords_eq (hstart : leader.localStart ≤ offset) (hend : offset ≤ leader.logEnd)
    (more : Nat) :
    leader.readRecords offset more = .records ((above offset leader.batches).take (more + 1)) := by
  unfold readRecords
  rw [if_neg (by omega)]

theorem Following.answer_eq (h : Following follower leader)
    (hstart : leader.localStart ≤ follower.logEnd) (more : Nat) :
    leader.answer follower.logEnd follower.lastFetchedEpoch more =
      .records ((above follower.logEnd leader.batches).take (more + 1)) := by
  have hread := readRecords_eq hstart h.end_le more
  rcases answer_cases leader follower.logEnd follower.lastFetchedEpoch more with
    ⟨-, heq⟩ | ⟨found, last, hknown, hpair, -, hcases⟩
  · rw [heq, hread]
  · obtain ⟨hepoch, hend⟩ := h.reads hknown
    have hnonneg := h.nonneg
    have hlocal : leader.startOffset ≤ leader.localStart := le_max_right ..
    rw [hpair] at hepoch hend
    rcases hcases with ⟨hundefined, -⟩ | ⟨hbelow, -⟩ | ⟨-, -, heq⟩ | ⟨-, hdiffers, -⟩
    · omega
    · omega
    · rw [heq, hread]
    · omega

theorem Complete.lookup_row (h : leader.Complete) {e : EpochEntry}
    (he : e ∈ leader.epochs.entries) :
    (leader.epochs.epochAndOffsetFor e.epoch leader.logEnd).1 = e.epoch := by
  have hknown := h.epoch_nonneg e he
  have hlookup := lookup_spec leader.epochs leader.logEnd (show e.epoch ≠ -1 by omega)
  generalize (leader.epochs.epochAndOffsetFor e.epoch leader.logEnd).1 = found at hlookup ⊢
  generalize (leader.epochs.epochAndOffsetFor e.epoch leader.logEnd).2 = last at hlookup
  cases hlookup with
  | future hall => exact absurd (hall e he) (lt_irrefl _)
  | latest _ _ _ => rfl
  | lowest _ hlt hmin => exact absurd (hmin e he) (not_le.mpr hlt)
  | floor _ _ hle hlt hgap =>
    rcases hgap e he with hle' | hle'
    · exact le_antisymm hle hle'
    · exact absurd hle' (not_le.mpr hlt)

variable {x : RecordBatch ρ}

theorem ordered_of_first_le {a c : Int} {xs : List (RecordBatch ρ)}
    (h : Ordered a (x :: xs)) (hc : c ≤ x.baseOffset) : Ordered c (x :: xs) := by
  obtain ⟨-, hspan, hrest⟩ := ordered_cons.mp h
  exact ordered_cons.mpr ⟨hc, hspan, hrest⟩

theorem replicate_following {records rest : List (RecordBatch ρ)}
    (hleader : leader.Complete) (hgoverned : leader.Governed)
    (hordered : Ordered follower.firstLocal follower.batches) (hnonneg : 0 ≤ follower.logEnd)
    (hagree : AgreeBelow follower.logEnd follower leader)
    (hnext : above follower.logEnd leader.batches = records ++ [x] ++ rest)
    (hrecords : Ordered follower.logEnd (records ++ [x] ++ rest))
    (hvisible : leader.localStart ≤ x.lastOffset) :
    Following (follower.replicate (records ++ [x])) leader := by
  obtain ⟨htaken, hlater⟩ := ordered_append.mp hrecords
  obtain ⟨hbatches, hfirst, hstart⟩ := replicate_batches htaken
  have hin : ∀ y ∈ records ++ [x], y ∈ leader.batches := by
    intro y hy
    refine (mem_above.mp (?_ : y ∈ above follower.logEnd leader.batches)).1
    rw [hnext]
    exact mem_append_left _ hy
  have hx : x ∈ leader.batches := hin x (by simp)
  have hend : (follower.replicate (records ++ [x])).logEnd = x.lastOffset + 1 := by
    unfold logEnd
    rw [hbatches, ← append_assoc, endOf_concat]
    rfl
  have hlocal : (follower.replicate (records ++ [x])).localStart = follower.localStart := by
    unfold localStart
    rw [hfirst, hstart]
  have hlast := hleader.ordered.last_lt_endOf hx
  have hholds : leader.Holds x.lastOffset x := ⟨hx, hleader.base_le_last hx, le_rfl⟩
  refine ⟨⟨?_, ?_⟩, ?_, ?_, hleader, hgoverned, ?_⟩
  · rw [hend]
    exact hlast
  · intro offset y hfollower hleaderStart hlt
    rw [hlocal] at hfollower
    constructor
    · rintro ⟨hy, hbase, hle⟩
      rw [hbatches] at hy
      rcases mem_append.mp hy with hy | hy
      · have hold : follower.Holds offset y := ⟨hy, hbase, hle⟩
        have hlt' := hle.trans_lt (hold.lt_logEnd hordered)
        exact (hagree offset y hfollower hleaderStart hlt').mp hold
      · exact ⟨hin y hy, hbase, hle⟩
    · intro hy
      by_cases hold : offset < follower.logEnd
      · have hheld := (hagree offset y hfollower hleaderStart hold).mpr hy
        refine ⟨?_, hheld.base_le, hheld.le_last⟩
        rw [hbatches]
        exact mem_append_left _ hheld.mem
      · -- it is one of the batches that were taken: the later ones are past the new end
        have hreach : y ∈ above follower.logEnd leader.batches :=
          mem_above.mpr ⟨hy.mem, (not_lt.mp hold).trans hy.le_last⟩
        rw [hnext] at hreach
        refine ⟨?_, hy.base_le, hy.le_last⟩
        rw [hbatches]
        rcases mem_append.mp hreach with hreach | hreach
        · exact mem_append_right _ hreach
        · have hlow : endOf follower.logEnd (records ++ [x]) ≤ y.baseOffset := hlater.lower y hreach
          rw [endOf_concat] at hlow
          have hlow' : x.lastOffset + 1 ≤ y.baseOffset := hlow
          have hbase := hy.base_le
          omega
  · rw [hbatches, hfirst]
    exact ordered_append.mpr ⟨hordered, htaken⟩
  · rw [hend]
    have hbase := htaken.lower x (by simp)
    have hbase' : follower.logEnd ≤ x.baseOffset := hbase
    have hspan := hleader.base_le_last hx
    omega
  · intro _
    have hlatest := replicate_latestEpoch htaken hnonneg (hleader.known x hx)
    have hsent : (follower.replicate (records ++ [x])).lastFetchedEpoch =
        x.partitionLeaderEpoch := by
      unfold lastFetchedEpoch
      rw [hlatest]
      rfl
    obtain ⟨e, he, hepoch⟩ := hleader.exists_row hholds hvisible
    rw [hsent, hend, ← hepoch, hleader.lookup_row he]
    refine ⟨le_rfl, ?_⟩
    -- no newer row starts within the batch
    have hbound : x.lastOffset < leader.endOfEpoch e.epoch := by
      rw [hleader.lt_endOfEpoch he]
      refine ⟨hlast, ?_⟩
      intro f hf hnewer
      by_contra hstart'
      have hle := hleader.row_epoch_le hholds hvisible hf (not_lt.mp hstart')
      omega
    exact hbound

theorem above_base {a c : Int} {xs batches : List (RecordBatch ρ)}
    (h : Ordered a batches) (heq : above c batches = x :: xs) (hc : x.baseOffset ≤ c) :
    above x.baseOffset batches = x :: xs := by
  have hsplit := h.below_append_above c
  have hsorted := h.sorted
  rw [heq] at hsplit
  rw [← hsplit] at hsorted
  rw [← heq]
  apply filter_congr
  intro y hy
  rw [← hsplit] at hy
  rw [decide_eq_decide]
  refine ⟨fun hle => ?_, hc.trans⟩
  rcases mem_append.mp hy with hy | hy
  · -- a batch below the point ends before the first that reaches it
    have hlt : last y < x.baseOffset :=
      (pairwise_append.mp hsorted).2.2 y hy x mem_cons_self
    exact absurd hle (not_le.mpr hlt)
  · have hreach : y ∈ above c batches := heq ▸ hy
    exact (mem_above.mp hreach).2

theorem Following.appendRecords (h : Following follower leader)
    (hstart : leader.localStart ≤ follower.logEnd) (more : Nat) :
    Following (follower.appendRecords ((above follower.logEnd leader.batches).take (more + 1)))
      leader := by
  have hleader := h.complete.ordered
  cases hnext : above follower.logEnd leader.batches with
  | nil => exact h
  | cons x xs =>
    have hx : x ∈ leader.batches := by
      have hmem : x ∈ above follower.logEnd leader.batches := by
        rw [hnext]
        exact mem_cons_self
      exact (mem_above.mp hmem).1
    rw [take_succ_cons]
    -- the batches that are sent end with one that lies past the leader's log start
    obtain ⟨records, z, hsent⟩ : ∃ records z, x :: xs.take more = records ++ [z] :=
      (eq_nil_or_concat' (x :: xs.take more)).resolve_left nofun
    have hsplit : x :: xs = records ++ [z] ++ xs.drop more := by
      rw [← hsent, cons_append, take_append_drop]
    have hz : leader.localStart ≤ z.lastOffset := by
      have hmem : z ∈ above follower.logEnd leader.batches := by
        rw [hnext, hsplit]
        simp
      exact hstart.trans (mem_above.mp hmem).2
    have hordered : Ordered leader.firstLocal (x :: xs) := by
      rw [← hnext]
      exact hleader.sublist filter_sublist
    unfold ReplicaLog.appendRecords restartAtFirstBatchBase
    simp only [head?_cons]
    split
    · -- an empty log starts over at the base of the batch that spans its end
      rename_i hrestart
      unfold restartsAtBatchBase at hrestart
      simp only [Bool.and_eq_true, decide_eq_true_eq] at hrestart
      have hend : (follower.resetTo x.baseOffset).logEnd = x.baseOffset := rfl
      have hbase : 0 ≤ x.baseOffset := h.complete.nonneg.trans (hleader.lower x hx)
      have habove : above (follower.resetTo x.baseOffset).logEnd leader.batches =
          records ++ [z] ++ xs.drop more := by
        rw [hend, above_base hleader hnext hrestart.1.2.le, hsplit]
      rw [hsent]
      refine replicate_following h.complete h.governed (ordered_nil _) hbase ?_ habove ?_ hz
      · intro offset b hlocal _ hlt
        have hstart' : (follower.resetTo x.baseOffset).localStart = x.baseOffset := max_self _
        omega
      · rw [hend, ← hsplit]
        exact ordered_of_first_le hordered le_rfl
    · by_cases hbase : x.baseOffset < follower.logEnd
      · -- the log refuses a batch that begins below its end
        unfold replicate
        rw [if_pos hbase]
        exact h
      · rw [hsent]
        refine replicate_following h.complete h.governed h.ordered h.nonneg h.agree
          (hnext.trans hsplit) ?_ hz
        rw [← hsplit]
        exact ordered_of_first_le hordered (not_lt.mp hbase)

/-! ## From comparing to following -/

theorem Comparable.following_of_no_epoch (h : Comparable follower leader)
    (hneg : follower.lastFetchedEpoch < 0) : Following follower leader := by
  have hstart := h.follower_complete.localStart_eq_of_no_rows
    (h.follower_complete.lastFetchedEpoch_neg hneg)
  refine ⟨⟨hstart ▸ h.start_le, ?_⟩, h.follower_complete.ordered,
    h.follower_complete.logEnd_nonneg, h.leader_complete, h.governed, ?_⟩
  · intro offset b hfollower _ hlt
    omega
  · intro hknown
    omega

theorem Comparable.agree_of_known (h : Comparable follower leader) {f : EpochEntry}
    (hlatest : follower.epochs.latestEpoch = some follower.lastFetchedEpoch)
    (hf : f ∈ leader.epochs.entries) (hsame : f.epoch = follower.lastFetchedEpoch)
    (hend : follower.logEnd ≤ leader.endOfEpoch follower.lastFetchedEpoch) :
    AgreeBelow follower.logEnd follower leader := by
  obtain ⟨⟨e, he, hepoch⟩, hmax⟩ := latestEpoch_eq_some.mp hlatest
  have hbound : follower.logEnd ≤ follower.endOfEpoch e.epoch := by
    by_contra hlt
    have hself :=
      (h.follower_complete.lt_endOfEpoch he).not.mp (lt_irrefl (follower.endOfEpoch e.epoch))
    refine hself ⟨not_le.mp hlt, ?_⟩
    intro g hg hnewer
    have hle := hmax g hg
    omega
  refine (h.agree e he f hf (hepoch.trans hsame.symm)).mono (le_min hbound ?_)
  rw [hepoch]
  exact hend

theorem Comparable.following_of_read (h : Comparable follower leader)
    (hknown : 0 ≤ follower.lastFetchedEpoch) (hepoch : follower.lastFetchedEpoch ≤
      (leader.epochs.epochAndOffsetFor follower.lastFetchedEpoch leader.logEnd).1)
    (hend : follower.logEnd ≤ leader.endOfEpoch follower.lastFetchedEpoch) :
    Following follower leader := by
  have hlatest := latestEpoch_of_lastFetchedEpoch hknown
  have hlookup := lookup_spec leader.epochs leader.logEnd
    (show follower.lastFetchedEpoch ≠ -1 by omega)
  have hbelow : IsPrefixOf follower leader := by
    have hagree : ∀ f ∈ leader.epochs.entries, f.epoch = follower.lastFetchedEpoch →
        AgreeBelow follower.logEnd follower leader :=
      fun f hf hsame => h.agree_of_known hlatest hf hsame hend
    unfold endOfEpoch at hend
    generalize (leader.epochs.epochAndOffsetFor follower.lastFetchedEpoch leader.logEnd).1 = found
      at hlookup hepoch
    generalize (leader.epochs.epochAndOffsetFor follower.lastFetchedEpoch leader.logEnd).2 = last
      at hlookup hend
    cases hlookup with
    | future _ => omega
    | latest he heq _ => exact ⟨hend, hagree _ he heq⟩
    | @lowest higher hhigher _ hmin =>
      refine ⟨hend.trans (h.leader_complete.row_le _ hhigher), ?_⟩
      -- below its first row the leader has no offset
      intro offset b _ hleader hlt
      have hlow := hlt.trans_le hend
      have hin := hlow.trans_le (h.leader_complete.row_le _ hhigher)
      obtain ⟨epoch, hgoverned⟩ := Option.ne_none_iff_exists'.mp (h.governed offset hleader hin)
      obtain ⟨row, hrow, -, hle, -⟩ := epochForOffset_eq_some.mp hgoverned
      have hge := hmin row hrow
      have horder := startOffset_lt_iff hrow hhigher
      omega
    | floor hprevious hhigher hle _ _ =>
      exact ⟨hend.trans (h.leader_complete.row_le _ hhigher),
        hagree _ hprevious (le_antisymm hle hepoch)⟩
  exact ⟨hbelow, h.follower_complete.ordered, h.follower_complete.logEnd_nonneg,
    h.leader_complete, h.governed, fun _ => ⟨hepoch, hend⟩⟩

theorem Comparable.following_or_diverges (h : Comparable follower leader)
    (habove : ¬ Above follower leader) (hstart : leader.localStart ≤ follower.logEnd) (more : Nat) :
    Following follower leader ∨
      ∃ epoch endOffset, Diverges follower leader epoch endOffset ∧
        leader.answer follower.logEnd follower.lastFetchedEpoch more =
          .diverging epoch endOffset := by
  have hlocal : leader.startOffset ≤ leader.localStart := le_max_right ..
  rcases answer_cases leader follower.logEnd follower.lastFetchedEpoch more with
    ⟨hneg, -⟩ | ⟨found, last, hknown, hpair, hlookup, hcases⟩
  · exact .inl (h.following_of_no_epoch hneg)
  · rcases hcases with ⟨hundefined, -⟩ | ⟨hbelow, -⟩ | ⟨hepoch, hend, -⟩ | ⟨-, -, hdiverging⟩
    · -- only an epoch above all of the leader's is not found
      have hzero := h.leader_complete.logEnd_nonneg
      cases hlookup with
      | future hall => exact absurd ⟨hknown, hall⟩ habove
      | latest _ _ _ => omega
      | lowest hhigher _ _ =>
        have hrow := h.leader_complete.row_nonneg _ hhigher
        omega
      | floor hprevious hhigher _ _ _ =>
        have hrow := h.leader_complete.row_nonneg _ hhigher
        have hrow' := h.leader_complete.epoch_nonneg _ hprevious
        omega
    · omega
    · left
      refine h.following_of_read hknown ?_ ?_
      · rw [hpair]
        exact hepoch
      · unfold endOfEpoch
        rw [hpair]
        exact hend
    · exact .inr ⟨found, last, diverges_of_answer hdiverging, hdiverging⟩

theorem Above.answer_eq (h : Above follower leader) (more : Nat) :
    leader.answer follower.logEnd follower.lastFetchedEpoch more = .offsetOutOfRange := by
  rcases answer_cases leader follower.logEnd follower.lastFetchedEpoch more with
    ⟨hneg, -⟩ | ⟨found, last, hknown, hpair, hlookup, hcases⟩
  · exact absurd h.1 (not_le.mpr hneg)
  · have hnone : found = -1 := by
      cases hlookup with
      | future _ => rfl
      | latest he heq _ => exact absurd (h.2 _ he) (by omega)
      | lowest hhigher hlt _ | floor _ hhigher _ hlt _ => exact absurd (h.2 _ hhigher) (by omega)
    rcases hcases with ⟨-, heq⟩ | ⟨-, heq⟩ | ⟨hepoch, -⟩ | ⟨hfound, -⟩
    · exact heq
    · exact heq
    · omega
    · exact absurd hnone hfound

/-- The number of diverging answers that a follower can still get. -/
def roundsLeft (follower : ReplicaLog ρ) : Nat :=
  (follower.logEnd + follower.lastFetchedEpoch + 1).toNat

theorem neg_one_le_lastFetchedEpoch (h : follower.Complete) : -1 ≤ follower.lastFetchedEpoch := by
  unfold lastFetchedEpoch
  cases hlatest : follower.epochs.latestEpoch with
  | none => exact le_rfl
  | some latest =>
    obtain ⟨⟨e, he, rfl⟩, -⟩ := latestEpoch_eq_some.mp hlatest
    have hknown := h.epoch_nonneg e he
    rw [Option.getD_some]
    omega

theorem Comparable.roundsLeft_lt (h : Comparable follower leader)
    (hdiverges : Diverges follower leader epoch endOffset) :
    (follower.applyDivergingEpoch epoch endOffset).roundsLeft < follower.roundsLeft := by
  have hnext := h.applyDivergingEpoch hdiverges
  have hzero := hnext.follower_complete.logEnd_nonneg
  have hlow := neg_one_le_lastFetchedEpoch hnext.follower_complete
  have htruncated : Truncated follower _ (follower.applyDivergingEpoch epoch endOffset) :=
    h.follower_complete.truncateTo (h.target_nonneg (h.target hdiverges))
  have hprogress : let next := follower.applyDivergingEpoch epoch endOffset
      next.logEnd < follower.logEnd ∨ next.logEnd = follower.logEnd ∧
        next.batches = follower.batches ∧ next.lastFetchedEpoch < follower.lastFetchedEpoch :=
    h.progress (h.target hdiverges)
  have hlast : _ ≤ follower.lastFetchedEpoch :=
    lastFetchedEpoch_le (neg_one_le_lastFetchedEpoch h.follower_complete) fun e he =>
      (latestEpoch_eq_some.mp hdiverges.latest).2 e (htruncated.rows e he).1
  unfold roundsLeft
  omega

end ReplicaLog

end Krabka.Replicator

import Krabka.Log.Rollback

/-!
# The log as replication sees it

Replication reads and changes a partition log through four things: where its
batches begin, its log start, the batches and the leader-epoch history.
`ReplicaLog` holds these, with the operations of a follower on them.  The
segments, the producer state and the snapshots stay below:
`replica_truncateTo` and `replica_appendBatch` say that the operations of
`PartitionLog` are these ones, seen from here.
-/

namespace Krabka.Replicator

open Extent Krabka.Log Krabka.Log.LeaderEpochCheckpoint PartitionLog List

structure ReplicaLog (ρ : Type) where
  /-- The base of the first segment. -/
  firstLocal : Int
  startOffset : Int
  startOffsetEstablished : Bool
  batches : List (RecordBatch ρ)
  epochs : LeaderEpochCheckpoint
  deriving DecidableEq

variable {ρ : Type}

namespace ReplicaLog

def logEnd (l : ReplicaLog ρ) : Int := endOf l.firstLocal l.batches

/-- `local_log_start_offset`. -/
def localStart (l : ReplicaLog ρ) : Int := max l.firstLocal l.startOffset

def establishedLogStart (l : ReplicaLog ρ) : Option Int :=
  if l.startOffsetEstablished then some l.startOffset else none

/-- The epoch that a follower sends with its fetch offset, -1 for none. -/
def lastFetchedEpoch (l : ReplicaLog ρ) : Int := l.epochs.latestEpoch.getD (-1)

def resetTo (_ : ReplicaLog ρ) (newBase : Int) : ReplicaLog ρ where
  firstLocal := newBase
  startOffset := newBase
  startOffsetEstablished := false
  batches := []
  epochs := .empty

/-- The cut of `truncate_to`, for an offset among the stored batches. -/
def cutAt (l : ReplicaLog ρ) (cut : Int) : ReplicaLog ρ :=
  let newEnd := endOf l.firstLocal (below cut l.batches)
  { l with
    batches := below cut l.batches
    epochs := l.epochs.truncateFromEnd newEnd
    startOffset := if min cut newEnd ≥ l.startOffset then l.startOffset else min cut newEnd }

def truncateTo (l : ReplicaLog ρ) (cut : Int) : ReplicaLog ρ :=
  if l.logEnd ≤ cut then { l with epochs := l.epochs.truncateFromEnd l.logEnd }
  else if cut < l.firstLocal then l.resetTo cut
  else l.cutAt cut

/-- `assign_appended_epoch`. -/
def assignedEpochs (c : LeaderEpochCheckpoint) (b : RecordBatch ρ) : LeaderEpochCheckpoint :=
  if b.partitionLeaderEpoch < 0 then c
  else (c.assign b.partitionLeaderEpoch b.baseOffset).toOption.getD c

/-- The batch is written at its own offset. -/
def append (l : ReplicaLog ρ) (b : RecordBatch ρ) : ReplicaLog ρ :=
  { l with batches := l.batches ++ [b], epochs := assignedEpochs l.epochs b }

def restartsAtBatchBase (l : ReplicaLog ρ) (batchBase batchLast : Int) : Bool :=
  l.startOffset = l.logEnd && batchBase < l.logEnd && l.logEnd ≤ batchLast

def restartAtFirstBatchBase (l : ReplicaLog ρ) (records : List (RecordBatch ρ)) : ReplicaLog ρ :=
  match records.head? with
  | none => l
  | some b => if l.restartsAtBatchBase b.baseOffset b.lastOffset then l.resetTo b.baseOffset else l

/-- `replicate_raw_batches` and `replicate_v2_batches`: one batch at a time, and
a batch that the log refuses stops the row. -/
def replicate (l : ReplicaLog ρ) : List (RecordBatch ρ) → ReplicaLog ρ
  | [] => l
  | b :: records => if b.baseOffset < l.logEnd then l else (l.append b).replicate records

def appendRecords (l : ReplicaLog ρ) (records : List (RecordBatch ρ)) : ReplicaLog ρ :=
  (l.restartAtFirstBatchBase records).replicate records

/-- The log holds the batch `b`, and `offset` lies in it. -/
structure Holds (l : ReplicaLog ρ) (offset : Int) (b : RecordBatch ρ) : Prop where
  mem : b ∈ l.batches
  base_le : b.baseOffset ≤ offset
  le_last : offset ≤ b.lastOffset

/-! ## What the log keeps -/

/-- A log with a complete history: its batches are in order and each has a leader
epoch, which the history gives to its offsets from the log start on. -/
structure Complete (l : ReplicaLog ρ) : Prop where
  ordered : Ordered l.firstLocal l.batches
  nonneg : 0 ≤ l.firstLocal
  start_le : l.startOffset ≤ l.logEnd
  known : ∀ b ∈ l.batches, 0 ≤ b.partitionLeaderEpoch
  covered : ∀ offset b, l.Holds offset b → l.localStart ≤ offset →
    l.epochs.epochForOffset offset = some b.partitionLeaderEpoch
  epoch_nonneg : ∀ e ∈ l.epochs.entries, 0 ≤ e.epoch
  row_nonneg : ∀ e ∈ l.epochs.entries, 0 ≤ e.startOffset
  row_le : ∀ e ∈ l.epochs.entries, e.startOffset ≤ l.logEnd

/-- The history gives every offset from the log start to the log end an epoch. -/
def Governed (l : ReplicaLog ρ) : Prop :=
  ∀ offset, l.localStart ≤ offset → offset < l.logEnd → l.epochs.epochForOffset offset ≠ none

variable {l l' : ReplicaLog ρ} {b : RecordBatch ρ} {offset cut : Int}

theorem Complete.le_logEnd (h : l.Complete) : l.firstLocal ≤ l.logEnd := h.ordered.le_endOf

theorem Complete.localStart_le (h : l.Complete) : l.localStart ≤ l.logEnd :=
  max_le h.le_logEnd h.start_le

theorem Complete.logEnd_nonneg (h : l.Complete) : 0 ≤ l.logEnd := h.nonneg.trans h.le_logEnd

theorem Holds.lt_logEnd (h : l.Holds offset b) (hordered : Ordered l.firstLocal l.batches) :
    b.lastOffset < l.logEnd :=
  hordered.last_lt_endOf h.mem

theorem Complete.base_le_last (h : l.Complete) (hb : b ∈ l.batches) : b.baseOffset ≤ b.lastOffset :=
  h.ordered.spans b hb

theorem Complete.exists_row (h : l.Complete) (hb : l.Holds offset b)
    (hstart : l.localStart ≤ offset) :
    ∃ e ∈ l.epochs.entries, e.epoch = b.partitionLeaderEpoch := by
  obtain ⟨e, he, hepoch, -⟩ := epochForOffset_eq_some.mp (h.covered offset b hb hstart)
  exact ⟨e, he, hepoch⟩

theorem Complete.row_epoch_le (h : l.Complete) (hb : l.Holds offset b)
    (hstart : l.localStart ≤ offset) {e : EpochEntry} (he : e ∈ l.epochs.entries)
    (hle : e.startOffset ≤ b.lastOffset) : e.epoch ≤ b.partitionLeaderEpoch := by
  have hlast : l.Holds b.lastOffset b := ⟨hb.mem, hb.base_le.trans hb.le_last, le_rfl⟩
  obtain ⟨row, hrow, hsame, -, hmax⟩ :=
    epochForOffset_eq_some.mp (h.covered b.lastOffset b hlast (hstart.trans hb.le_last))
  have hrowle := hmax e he hle
  have horder := startOffset_lt_iff hrow he
  omega

variable {c : LeaderEpochCheckpoint}

theorem latestEpoch_eq_some {latest : Int} :
    c.latestEpoch = some latest ↔
      (∃ e ∈ c.entries, e.epoch = latest) ∧ ∀ e ∈ c.entries, e.epoch ≤ latest := by
  unfold latestEpoch
  rw [max?_eq_some_iff]
  simp

theorem latestEpoch_eq_none : c.latestEpoch = none ↔ c.entries = [] := by
  unfold latestEpoch
  rw [max?_eq_none_iff, map_eq_nil_iff]

theorem le_lastFetchedEpoch {e : EpochEntry} (he : e ∈ l.epochs.entries) :
    e.epoch ≤ l.lastFetchedEpoch := by
  obtain ⟨latest, hlatest, hle⟩ := le_latestEpoch he
  unfold lastFetchedEpoch
  rwa [hlatest]

theorem latestEpoch_of_lastFetchedEpoch (h : 0 ≤ l.lastFetchedEpoch) :
    l.epochs.latestEpoch = some l.lastFetchedEpoch := by
  unfold lastFetchedEpoch at h ⊢
  cases hlatest : l.epochs.latestEpoch with
  | none =>
    rw [hlatest] at h
    cases h
  | some latest => rfl

theorem Complete.lastFetchedEpoch_neg (h : l.Complete) (hneg : l.lastFetchedEpoch < 0) :
    l.epochs.entries = [] := by
  unfold lastFetchedEpoch at hneg
  cases hlatest : l.epochs.latestEpoch with
  | none => exact latestEpoch_eq_none.mp hlatest
  | some latest =>
    rw [hlatest] at hneg
    obtain ⟨⟨e, he, rfl⟩, -⟩ := latestEpoch_eq_some.mp hlatest
    have hknown := h.epoch_nonneg e he
    rw [Option.getD_some] at hneg
    omega

theorem Complete.localStart_eq_of_no_rows (h : l.Complete) (hrows : l.epochs.entries = []) :
    l.localStart = l.logEnd := by
  refine le_antisymm h.localStart_le ?_
  by_contra hlt
  rcases eq_nil_or_concat' l.batches with hnil | ⟨older, b, hlast⟩
  · have hend : l.logEnd = l.firstLocal := by
      unfold logEnd
      rw [hnil, endOf_nil]
    have hle : l.firstLocal ≤ l.localStart := le_max_left ..
    omega
  · -- the last batch reaches the log end, so its last offset is past the start
    have hb : b ∈ l.batches := by
      rw [hlast]
      simp
    have hend : l.logEnd = b.lastOffset + 1 := by
      unfold logEnd
      rw [hlast, endOf_concat]
      rfl
    have hholds : l.Holds b.lastOffset b := ⟨hb, h.base_le_last hb, le_rfl⟩
    obtain ⟨e, he, -⟩ := h.exists_row hholds (by omega)
    rw [hrows] at he
    cases he

/-! ## Truncation -/

/-- What a truncation leaves of a log. -/
structure Truncated (l : ReplicaLog ρ) (cut : Int) (l' : ReplicaLog ρ) : Prop where
  batches : l'.batches = below cut l.batches
  end_le : l'.logEnd ≤ l.logEnd
  end_le_cut : cut < l.logEnd → l'.logEnd ≤ cut
  end_eq : l.logEnd ≤ cut → l'.logEnd = l.logEnd
  rows : ∀ e ∈ l'.epochs.entries, e ∈ l.epochs.entries ∧ e.startOffset < l'.logEnd
  rows_kept : l'.epochs.entries = [] ∨
    ∀ e ∈ l.epochs.entries, e.startOffset < l'.logEnd → e ∈ l'.epochs.entries
  start_le : l'.localStart ≤ l.localStart
  start_of_lt : ∀ offset, l'.localStart ≤ offset → offset < l'.logEnd → l.localStart ≤ offset
  gone : ∀ b ∈ l.batches, cut ≤ b.lastOffset → l'.logEnd ≤ b.baseOffset
  complete : l'.Complete

theorem mem_truncateFromEnd {endOffset : Int} {e : EpochEntry} :
    e ∈ (c.truncateFromEnd endOffset).entries ↔ e ∈ c.entries ∧ e.startOffset < endOffset := by
  simp [truncateFromEnd]

theorem Complete.restrict (h : l.Complete) (hordered : Ordered l'.firstLocal l'.batches)
    (hnonneg : 0 ≤ l'.firstLocal) (hstart : l'.startOffset ≤ l'.logEnd)
    (hbatches : ∀ b ∈ l'.batches, b ∈ l.batches)
    (hepochs : l'.epochs = l.epochs.truncateFromEnd l'.logEnd)
    (hvisible : ∀ offset, l'.localStart ≤ offset → offset < l'.logEnd → l.localStart ≤ offset) :
    l'.Complete where
  ordered := hordered
  nonneg := hnonneg
  start_le := hstart
  known b hb := h.known b (hbatches b hb)
  covered offset b hb hle := by
    have hlt : offset < l'.logEnd := hb.le_last.trans_lt (hb.lt_logEnd hordered)
    rw [hepochs, epochForOffset_truncateFromEnd hlt]
    exact h.covered offset b ⟨hbatches b hb.mem, hb.base_le, hb.le_last⟩ (hvisible offset hle hlt)
  epoch_nonneg e he := by
    rw [hepochs] at he
    exact h.epoch_nonneg e (mem_truncateFromEnd.mp he).1
  row_nonneg e he := by
    rw [hepochs] at he
    exact h.row_nonneg e (mem_truncateFromEnd.mp he).1
  row_le e he := by
    rw [hepochs] at he
    exact (mem_truncateFromEnd.mp he).2.le

theorem Complete.truncated_past (h : l.Complete) (hcut : l.logEnd ≤ cut) :
    Truncated l cut { l with epochs := l.epochs.truncateFromEnd l.logEnd } where
  batches := (h.ordered.below_eq_self hcut).symm
  end_le := le_rfl
  end_le_cut hlt := absurd hcut (not_le.mpr hlt)
  end_eq _ := rfl
  rows _ he := mem_truncateFromEnd.mp he
  rows_kept := .inr fun _ he hlt => mem_truncateFromEnd.mpr ⟨he, hlt⟩
  start_le := le_rfl
  start_of_lt _ hle _ := hle
  gone _ hb hreach := absurd (hcut.trans hreach) (not_le.mpr (h.ordered.last_lt_endOf hb))
  complete := h.restrict h.ordered h.nonneg h.start_le (fun _ hb => hb) rfl (fun _ hle _ => hle)

theorem complete_resetTo (l : ReplicaLog ρ) (hcut : 0 ≤ cut) : (l.resetTo cut).Complete where
  ordered := ordered_nil cut
  nonneg := hcut
  start_le := le_rfl
  known _ hb := absurd hb not_mem_nil
  covered _ _ hb _ := absurd hb.mem not_mem_nil
  epoch_nonneg _ he := absurd he not_mem_nil
  row_nonneg _ he := absurd he not_mem_nil
  row_le _ he := absurd he not_mem_nil

theorem Complete.truncated_reset (h : l.Complete) (hcut : cut < l.firstLocal) (hzero : 0 ≤ cut) :
    Truncated l cut (l.resetTo cut) where
  batches := (h.ordered.below_eq_nil hcut.le).symm
  end_le := hcut.le.trans h.le_logEnd
  end_le_cut _ := le_rfl
  end_eq hle := absurd (hle.trans_lt hcut) (not_lt.mpr h.le_logEnd)
  rows _ he := absurd he not_mem_nil
  rows_kept := .inl rfl
  start_le := by
    have hle : l.firstLocal ≤ l.localStart := le_max_left ..
    have hstart : (l.resetTo cut).localStart = cut := max_self cut
    omega
  start_of_lt offset hle hlt := by
    have hstart : (l.resetTo cut).localStart = cut := max_self cut
    have hend : (l.resetTo cut).logEnd = cut := rfl
    omega
  gone b hb _ := hcut.le.trans (h.ordered.lower b hb)
  complete := complete_resetTo l hzero

theorem Complete.truncated_cutAt (h : l.Complete) (hlt : cut < l.logEnd)
    (hfirst : l.firstLocal ≤ cut) : Truncated l cut (l.cutAt cut) := by
  have hordered : Ordered l.firstLocal (below cut l.batches) := h.ordered.below cut
  have hend : (l.cutAt cut).logEnd = endOf l.firstLocal (below cut l.batches) := rfl
  have hendcut : (l.cutAt cut).logEnd ≤ cut := endOf_below_le hfirst l.batches
  have hfirstend : l.firstLocal ≤ (l.cutAt cut).logEnd := hordered.le_endOf
  have hstart : (l.cutAt cut).startOffset =
      if min cut (l.cutAt cut).logEnd ≥ l.startOffset then l.startOffset
      else min cut (l.cutAt cut).logEnd := rfl
  have hlocal : (l.cutAt cut).localStart = max l.firstLocal (l.cutAt cut).startOffset := rfl
  have hlocal' : l.localStart = max l.firstLocal l.startOffset := rfl
  rw [min_eq_right hendcut] at hstart
  -- a start that moved down lies at the new end, so no offset comes into view
  have hvisible : ∀ offset, (l.cutAt cut).localStart ≤ offset → offset < (l.cutAt cut).logEnd →
      l.localStart ≤ offset := by
    intro offset hle hoffset
    split at hstart <;> omega
  have hstartle : (l.cutAt cut).startOffset ≤ (l.cutAt cut).logEnd := by
    split at hstart <;> omega
  refine ⟨rfl, hendcut.trans hlt.le, fun _ => hendcut, fun hle => absurd hle (not_le.mpr hlt),
    fun e he => mem_truncateFromEnd.mp he,
    .inr fun e he hlt => mem_truncateFromEnd.mpr ⟨he, hlt⟩, ?_, hvisible, ?_, ?_⟩
  · split at hstart <;> omega
  · intro b hb hreach
    exact (h.ordered.ordered_above cut).lower b (mem_above.mpr ⟨hb, hreach⟩)
  · exact h.restrict hordered h.nonneg hstartle (fun b hb => (mem_below.mp hb).1) rfl hvisible

theorem Complete.truncateTo (h : l.Complete) (hzero : 0 ≤ cut) :
    Truncated l cut (l.truncateTo cut) := by
  unfold ReplicaLog.truncateTo
  split
  · rename_i hpast
    exact h.truncated_past hpast
  · rename_i hlt
    split
    · rename_i hbelow
      exact h.truncated_reset hbelow hzero
    · rename_i hfirst
      exact h.truncated_cutAt (not_le.mp hlt) (not_lt.mp hfirst)

theorem Truncated.holds_iff (h : Truncated l cut l') :
    l'.Holds offset b ↔ l.Holds offset b ∧ b.lastOffset < cut := by
  constructor
  · rintro ⟨hb, hbase, hlast⟩
    rw [h.batches] at hb
    obtain ⟨hb, hcut⟩ := mem_below.mp hb
    exact ⟨⟨hb, hbase, hlast⟩, hcut⟩
  · rintro ⟨⟨hb, hbase, hlast⟩, hcut⟩
    refine ⟨?_, hbase, hlast⟩
    rw [h.batches]
    exact mem_below.mpr ⟨hb, hcut⟩

theorem Truncated.holds_of_lt (h : Truncated l cut l') (hlt : offset < l'.logEnd) :
    l'.Holds offset b ↔ l.Holds offset b := by
  rw [h.holds_iff]
  refine ⟨And.left, fun hb => ⟨hb, ?_⟩⟩
  by_contra hreach
  have hbase := h.gone b hb.mem (not_lt.mp hreach)
  exact absurd (hbase.trans hb.base_le) (not_le.mpr hlt)

/-! ## Appends -/

@[simp] theorem append_batches (l : ReplicaLog ρ) (b : RecordBatch ρ) :
    (l.append b).batches = l.batches ++ [b] := rfl

@[simp] theorem append_logEnd (l : ReplicaLog ρ) (b : RecordBatch ρ) :
    (l.append b).logEnd = b.lastOffset + 1 := endOf_concat ..

theorem append_holds_iff {x : RecordBatch ρ} :
    (l.append b).Holds offset x ↔
      l.Holds offset x ∨ x = b ∧ b.baseOffset ≤ offset ∧ offset ≤ b.lastOffset := by
  constructor
  · rintro ⟨hx, hbase, hlast⟩
    rw [append_batches, mem_append, mem_singleton] at hx
    rcases hx with hx | rfl
    · exact .inl ⟨hx, hbase, hlast⟩
    · exact .inr ⟨rfl, hbase, hlast⟩
  · rintro (⟨hx, hbase, hlast⟩ | ⟨rfl, hbase, hlast⟩)
    · exact ⟨mem_append_left _ hx, hbase, hlast⟩
    · exact ⟨mem_append_right _ mem_cons_self, hbase, hlast⟩

theorem replicate_batches {records : List (RecordBatch ρ)} (h : Ordered l.logEnd records) :
    (l.replicate records).batches = l.batches ++ records ∧
      (l.replicate records).firstLocal = l.firstLocal ∧
      (l.replicate records).startOffset = l.startOffset := by
  induction records generalizing l with
  | nil => exact ⟨(append_nil _).symm, rfl, rfl⟩
  | cons b records ih =>
    obtain ⟨hlow, -, hrest⟩ := ordered_cons.mp h
    have hbase : l.logEnd ≤ b.baseOffset := hlow
    have hnext : Ordered (l.append b).logEnd records := by
      rw [append_logEnd]
      exact hrest
    obtain ⟨hbatches, hfirst, hstart⟩ := ih hnext
    unfold replicate
    rw [if_neg (not_lt.mpr hbase)]
    refine ⟨?_, hfirst, hstart⟩
    rw [hbatches, append_batches, append_assoc]
    rfl

theorem latestEpoch_assignedEpochs (c : LeaderEpochCheckpoint) (hepoch : 0 ≤ b.partitionLeaderEpoch)
    (hbase : 0 ≤ b.baseOffset) :
    (assignedEpochs c b).latestEpoch = some b.partitionLeaderEpoch := by
  obtain ⟨c', hassign⟩ := assign_ok c hepoch hbase
  have heq : assignedEpochs c b = c' := by
    unfold assignedEpochs
    rw [if_neg (not_lt.mpr hepoch), hassign]
    rfl
  obtain ⟨last, hlast, hlastEpoch, -⟩ := getLast?_assign hassign
  rw [heq, latestEpoch_eq_some, ← hlastEpoch]
  exact ⟨⟨last, mem_of_getLast? hlast, rfl⟩,
    fun e he => (le_of_getLast? c'.increasing hlast he).1⟩

theorem replicate_latestEpoch {records : List (RecordBatch ρ)}
    (h : Ordered l.logEnd (records ++ [b]))
    (hzero : 0 ≤ l.logEnd) (hepoch : 0 ≤ b.partitionLeaderEpoch) :
    (l.replicate (records ++ [b])).epochs.latestEpoch = some b.partitionLeaderEpoch := by
  induction records generalizing l with
  | nil =>
    obtain ⟨hlow, -, -⟩ := ordered_cons.mp h
    have hbase : l.logEnd ≤ b.baseOffset := hlow
    rw [nil_append]
    unfold replicate replicate
    rw [if_neg (not_lt.mpr hbase)]
    exact latestEpoch_assignedEpochs l.epochs hepoch (hzero.trans hbase)
  | cons x records ih =>
    obtain ⟨hlow, hspan, hrest⟩ := ordered_cons.mp h
    have hbase : l.logEnd ≤ x.baseOffset := hlow
    have hlast : x.baseOffset ≤ x.lastOffset := hspan
    rw [cons_append]
    unfold replicate
    rw [if_neg (not_lt.mpr hbase)]
    refine ih ?_ ?_
    · rw [append_logEnd]
      exact hrest
    · rw [append_logEnd]
      omega

/-! ## Given logs -/

theorem forall_holds_iff {P : Int → RecordBatch ρ → Prop} :
    (∀ offset b, l.Holds offset b → P offset b) ↔
      ∀ b ∈ l.batches, ∀ k ∈ range (b.lastOffsetDelta.toNat + 1),
        b.baseOffset + k ≤ b.lastOffset → P (b.baseOffset + k) b := by
  constructor
  · intro h b hb k _ hle
    exact h _ b ⟨hb, by omega, hle⟩
  · rintro h offset b ⟨hb, hbase, hlast⟩
    have hdelta : b.lastOffset = b.baseOffset + b.lastOffsetDelta := rfl
    have hk : b.baseOffset + ((offset - b.baseOffset).toNat : Int) = offset := by omega
    have hin : (offset - b.baseOffset).toNat ∈ range (b.lastOffsetDelta.toNat + 1) := by
      rw [mem_range]
      omega
    have hP := h b hb _ hin (by omega)
    rwa [hk] at hP

instance [DecidableEq ρ] (offset : Int) (b : RecordBatch ρ) : Decidable (l.Holds offset b) :=
  decidable_of_iff ((∃ c ∈ l.batches, c = b) ∧ b.baseOffset ≤ offset ∧ offset ≤ b.lastOffset)
    ⟨fun h => ⟨by simpa using h.1, h.2.1, h.2.2⟩, fun h => ⟨⟨b, h.mem, rfl⟩, h.base_le, h.le_last⟩⟩

instance {P : Int → RecordBatch ρ → Prop} [∀ offset b, Decidable (P offset b)] :
    Decidable (∀ offset b, l.Holds offset b → P offset b) :=
  decidable_of_iff _ forall_holds_iff.symm

instance (a : Int) (batches : List (RecordBatch ρ)) : Decidable (Ordered a batches) :=
  decidable_of_iff
    ((∀ b ∈ batches, a ≤ b.baseOffset) ∧ (∀ b ∈ batches, b.baseOffset ≤ b.lastOffset) ∧
      batches.Pairwise fun b c => b.lastOffset < c.baseOffset)
    ⟨fun h => ⟨h.1, h.2.1, h.2.2⟩, fun h => ⟨h.lower, h.spans, h.sorted⟩⟩

instance : Decidable l.Complete :=
  decidable_of_iff (Ordered l.firstLocal l.batches ∧ 0 ≤ l.firstLocal ∧ l.startOffset ≤ l.logEnd ∧
      (∀ b ∈ l.batches, 0 ≤ b.partitionLeaderEpoch) ∧
      (∀ offset b, l.Holds offset b → l.localStart ≤ offset →
        l.epochs.epochForOffset offset = some b.partitionLeaderEpoch) ∧
      ∀ e ∈ l.epochs.entries, 0 ≤ e.epoch ∧ 0 ≤ e.startOffset ∧ e.startOffset ≤ l.logEnd)
    ⟨fun ⟨hordered, hnonneg, hstart, hknown, hcovered, hrows⟩ => ⟨hordered, hnonneg, hstart, hknown,
        hcovered, fun e he => (hrows e he).1, fun e he => (hrows e he).2.1,
        fun e he => (hrows e he).2.2⟩,
      fun h => ⟨h.ordered, h.nonneg, h.start_le, h.known, h.covered,
        fun e he => ⟨h.epoch_nonneg e he, h.row_nonneg e he, h.row_le e he⟩⟩⟩

instance : Decidable l.Governed :=
  decidable_of_iff (∀ k ∈ range (l.logEnd - l.localStart).toNat,
      l.epochs.epochForOffset (l.localStart + k) ≠ none) <| by
    constructor
    · intro h offset hstart hlt
      have hk : l.localStart + ((offset - l.localStart).toNat : Int) = offset := by omega
      have hin : (offset - l.localStart).toNat ∈ range (l.logEnd - l.localStart).toNat := by
        rw [mem_range]
        omega
      have hP := h _ hin
      rwa [hk] at hP
    · intro h k hk
      rw [mem_range] at hk
      exact h _ (by omega) (by omega)

end ReplicaLog

/-! ## The stored log -/

/-- A stored log as replication sees it. -/
def replica (l : PartitionLog ρ) : ReplicaLog ρ where
  firstLocal := l.firstLocalOffset
  startOffset := l.startOffset
  startOffsetEstablished := l.startOffsetEstablished
  batches := l.batches
  epochs := l.epochs

section Stored

variable {l l' : PartitionLog ρ} {a : Int}

theorem replica_logEnd (h : l.Rooted a) : (replica l).logEnd = l.logEndOffset := by
  unfold ReplicaLog.logEnd replica
  rw [h.firstLocalOffset_eq, h.logEndOffset_eq]

variable {cut : Int}

theorem truncateTo_established (hrun : l.truncateTo cut = .ok l')
    (hcut : ¬ l.CutsNothing cut) (hfirst : l.firstLocalOffset ≤ cut) :
    l'.startOffsetEstablished = l.startOffsetEstablished := by
  obtain ⟨segments, active, l₁, -, hrebuilt, rfl⟩ := (truncateTo_iff hcut hfirst).mp hrun
  rw [afterCut_eq hrebuilt]

theorem replica_cutAt (h : l.Rooted a) (hrun : l.truncateTo cut = .ok l')
    (hcut : ¬ l.CutsNothing cut) (hfirst : l.firstLocalOffset ≤ cut) :
    replica l' = (replica l).cutAt cut := by
  obtain ⟨hsegments, hstart, hepochs⟩ := truncateTo_cutSegments hrun hcut hfirst
  have hroot := h.firstLocalOffset_eq
  have hcuts := h.cutSegments_inv (cuts_of_not_cutsNothing hcut) hsegments
  obtain ⟨hrooted, hbatches⟩ := hcuts.batches_eq h (by omega) rfl rfl
  have hend : l'.logEndOffset = endOf l.firstLocalOffset (below cut l.batches) := by
    rw [hrooted.logEndOffset_eq, hbatches, hroot]
  unfold replica ReplicaLog.cutAt
  rw [hbatches, hepochs, hstart, truncateTo_established hrun hcut hfirst,
    hrooted.firstLocalOffset_eq, hend, hroot]

theorem replica_truncateTo (h : l.Rooted a) (hstart : l.startOffset ≤ l.logEndOffset)
    (hrun : l.truncateTo cut = .ok l') : replica l' = (replica l).truncateTo cut := by
  have hend := replica_logEnd h
  have hroot := h.firstLocalOffset_eq
  have hle := h.le_logEndOffset
  have hfirst : (replica l).firstLocal = l.firstLocalOffset := rfl
  unfold ReplicaLog.truncateTo
  rw [hend]
  by_cases hcut : l.CutsNothing cut
  · rw [truncateTo_of_cutsNothing hcut] at hrun
    cases hrun
    unfold PartitionLog.CutsNothing at hcut
    rw [if_pos (by omega)]
    rfl
  · by_cases hbelow : cut < l.firstLocalOffset
    · rw [if_neg (by omega), if_pos (hfirst ▸ hbelow)]
      unfold PartitionLog.truncateTo at hrun
      unfold PartitionLog.CutsNothing at hcut
      rw [if_neg hcut, if_pos hbelow] at hrun
      unfold PartitionLog.resetTo at hrun
      split at hrun
      · cases hrun
      · cases hrun
        rfl
    · rw [replica_cutAt h hrun hcut (not_lt.mp hbelow)]
      split
      · -- the cut drops an empty active segment and no batch
        rename_i hpast
        have hbatches : below cut (replica l).batches = (replica l).batches := by
          have hordered : Ordered (replica l).firstLocal l.batches := by
            rw [hfirst, hroot]
            exact h.ordered
          refine hordered.below_eq_self ?_
          rw [hfirst, hroot, ← h.logEndOffset_eq]
          exact hpast
        have hsame : endOf (replica l).firstLocal (replica l).batches = l.logEndOffset := hend
        have hkept : min cut l.logEndOffset ≥ (replica l).startOffset :=
          le_min (hstart.trans hpast) hstart
        unfold ReplicaLog.cutAt
        dsimp only
        rw [hbatches, hsame, if_pos hkept]
      · rw [if_neg (hfirst ▸ hbelow)]

theorem rolledIf_established (l : PartitionLog ρ) (rolls : Bool) :
    (l.rolledIf rolls).startOffsetEstablished = l.startOffsetEstablished := by
  unfold PartitionLog.rolledIf
  split
  · unfold PartitionLog.roll
    split <;> rfl
  · rfl

theorem replica_appendBatch {path : AppendPath} {rolls : Bool} {b : RecordBatch ρ}
    (h : l.Rooted a) (hrun : l.appendBatch path rolls b = .ok l') :
    l.logEndOffset ≤ (path.assigned l b).baseOffset ∧
      replica l' = (replica l).append (path.assigned l b) := by
  have happ := appendBatch_ok hrun
  have hroll := l.rolledIf_frame rolls
  obtain ⟨hrooted, hstart⟩ := h.rolledIf rolls
  obtain ⟨hrooted', hbatches, -⟩ := happ.rooted hrooted
  obtain ⟨row, -, heq⟩ := happ.stored
  have hstart' : l'.startOffset = (l.rolledIf rolls).startOffset := by rw [heq]
  have hestablished : l'.startOffsetEstablished = (l.rolledIf rolls).startOffsetEstablished := by
    rw [heq]
  have hepochs : l'.epochs = ReplicaLog.assignedEpochs l.epochs (path.assigned l b) := by
    unfold ReplicaLog.assignedEpochs
    rcases happ.epochs with ⟨hneg, hsame⟩ | ⟨hpos, hassign⟩
    · rw [if_pos hneg, hsame, hroll.2.2.2.2.1]
    · rw [hroll.2.2.2.2.1] at hassign
      rw [if_neg (not_lt.mpr hpos), hassign]
      rfl
  constructor
  · have hfrontier := happ.frontier
    unfold PartitionLog.appendAtExpectedOffset at hfrontier
    rw [hroll.2.1] at hfrontier
    exact (le_max_left ..).trans hfrontier
  · unfold replica ReplicaLog.append
    rw [hbatches, hroll.1, hstart', hstart, hestablished, rolledIf_established, hepochs,
      hrooted'.firstLocalOffset_eq, h.firstLocalOffset_eq]

structure Refines (l : PartitionLog ρ) : Prop where
  append : ∀ path rolls b l', l.appendBatch path rolls b = .ok l' →
    l.logEndOffset ≤ (path.assigned l b).baseOffset ∧
      replica l' = (replica l).append (path.assigned l b)
  truncateTo : ∀ cut l', l.truncateTo cut = .ok l' → replica l' = (replica l).truncateTo cut

/-- **Refinement.**  In every run of a stored log, restarts and resets included,
its appends and truncations are those of replication, as long as the log start
is within the log. -/
theorem refines_of_reachable {s : StartedLog ρ} {remote : Bool}
    (h : (StartedLog.system ρ remote StartedLog.Orderly).Reachable s)
    (hstart : s.log.startOffset ≤ s.log.logEndOffset) : Refines s.log where
  append _ _ _ _ hrun := replica_appendBatch (StartedLog.inv_of_reachable h).rooted hrun
  truncateTo _ _ hrun := replica_truncateTo (StartedLog.inv_of_reachable h).rooted hstart hrun

/-- A follower that rolled, cut off a batch of an old leader and raised its log start
cuts into its first segment. -/
theorem refines_truncated :
    let s := StartedLog.ran StartedLog.Orderly
      [StartedLog.appendEpoch 3, StartedLog.appendEpoch 3, .append .append true
        (StartedLog.epochBatch 4), .truncateTo 2, .append .append true (StartedLog.epochBatch 5),
        .setLogStartOffset 1]
    (s.log.segments.length = 1 ∧ s.log.startOffset = 1 ∧ s.log.logEndOffset = 3) ∧
      Refines s.log ∧ (s.log.truncateTo 1).toOption.map replica =
        some ((replica s.log).truncateTo 1) := by
  refine ⟨by decide +kernel,
    refines_of_reachable (StartedLog.ran_reachable _ _) (by decide +kernel), by decide +kernel⟩

end Stored

end Krabka.Replicator

import Krabka.Log.Ledger

/-!
# The index of aborted transactions

The rows of the `.txnindex` files of a log, in segment order, are the aborted
transactions of its batches.  Each row also carries a hint, the last stable
offset when it was written, and `aborted_in_range` stops at the first row whose
hint reaches the end of the range.  No later row can begin below that hint, so
the answer is every row that overlaps the range.
-/

namespace Krabka.Log

open Extent Ledger SortedMap Segment
open List hiding contains

variable {ρ : Type}

/-! ## The rows that the batches call for -/

def AbortedTxn.span (row : AbortedTxn) : Int × Int × Int :=
  (row.startOffset, row.lastOffset, row.producerId)

namespace Ledger

variable {g : Ledger} {b : RecordBatch ρ}

/-- The transaction that `b` aborts, if it is an ABORT marker that closes one. -/
def abortedBy (g : Ledger) (b : RecordBatch ρ) : Option (Int × Int × Int) :=
  if (transactionMarkerFlags b).isAbort then
    (g.opened.get? b.producerId).map fun first => (first, b.lastOffset, b.producerId)
  else none

/-- The transactions that the batches abort. -/
def abortedFrom (g : Ledger) : List (RecordBatch ρ) → List (Int × Int × Int)
  | [] => []
  | b :: batches => (g.abortedBy b).toList ++ (g.record b).abortedFrom batches

theorem abortedFrom_concat (g : Ledger) (batches : List (RecordBatch ρ)) (b : RecordBatch ρ) :
    g.abortedFrom (batches ++ [b]) =
      g.abortedFrom batches ++ ((batches.foldl record g).abortedBy b).toList := by
  induction batches generalizing g with
  | nil => simp [abortedFrom]
  | cons x batches ih => simp [abortedFrom, ih]

theorem of_concat (batches : List (RecordBatch ρ)) (b : RecordBatch ρ) :
    of (batches ++ [b]) = (of batches).record b := of_append batches [b]

theorem opened_record {pid first : Int} (h : (g.record b).opened.get? pid = some first) :
    g.opened.get? pid = some first ∨ first = b.baseOffset := by
  unfold record at h
  split at h
  · exact .inl h
  · split at h
    · split at h
      · rw [get?_erase] at h
        split at h
        · cases h
        · exact .inl h
      · exact .inl h
    · split at h
      · rw [get?_orInsert] at h
        split at h
        · cases hget : g.opened.get? pid with
          | none =>
            rw [hget] at h
            exact .inr (Option.some.inj h).symm
          | some opened =>
            rw [hget] at h
            exact .inl h
        · exact .inl h
      · exact .inl h

end Ledger

/-- The rows that a log writes for its batches, one batch at a time.  The hint of
a row is at most the end of its marker and every transaction open then. -/
inductive Indexed : List (RecordBatch ρ) → List AbortedTxn → Prop
  | nil : Indexed [] []
  | skip {batches rows b} (h : Indexed batches rows) (hb : (of batches).abortedBy b = none) :
      Indexed (batches ++ [b]) rows
  | row {batches rows b row} (h : Indexed batches rows)
      (hb : (of batches).abortedBy b = some row.span)
      (hend : row.lastStableOffset ≤ b.lastOffset + 1)
      (hopen : ∀ pid first, (of (batches ++ [b])).opened.get? pid = some first →
        row.lastStableOffset ≤ first) :
      Indexed (batches ++ [b]) (rows ++ [row])

namespace Indexed

variable {batches : List (RecordBatch ρ)} {rows : List AbortedTxn}

theorem spans (h : Indexed batches rows) :
    rows.map AbortedTxn.span = empty.abortedFrom batches := by
  induction h with
  | nil => rfl
  | @skip batches rows b h hb ih =>
    have hnone : (batches.foldl record empty).abortedBy b = none := hb
    rw [abortedFrom_concat, hnone, ih]
    simp
  | @row batches rows b row h hb hend hopen ih =>
    have hsome : (batches.foldl record empty).abortedBy b = some row.span := hb
    rw [abortedFrom_concat, hsome, map_append, ih]
    rfl

theorem lastOffset_of_abortedBy {g : Ledger} {b : RecordBatch ρ} {row : AbortedTxn}
    (h : g.abortedBy b = some row.span) :
    row.lastOffset = b.lastOffset ∧ g.opened.get? row.producerId = some row.startOffset := by
  unfold abortedBy at h
  split at h
  · obtain ⟨first, hfirst, heq⟩ := Option.map_eq_some_iff.mp h
    obtain ⟨rfl, hrest⟩ := Prod.mk.inj heq
    obtain ⟨hlast, hpid⟩ := Prod.mk.inj hrest
    rw [← hpid]
    exact ⟨hlast.symm, hfirst⟩
  · cases h

theorem le_opened_concat {hint : Int} {b : RecordBatch ρ} (hend : hint ≤ b.baseOffset)
    (hopen : ∀ pid first, (of batches).opened.get? pid = some first → hint ≤ first)
    (pid first : Int) (hget : (of (batches ++ [b])).opened.get? pid = some first) :
    hint ≤ first := by
  rw [of_concat] at hget
  rcases opened_record hget with hget | rfl
  · exact hopen pid first hget
  · exact hend

theorem hints (h : Indexed batches rows) (hord : Ordered 0 batches) :
    (∀ row ∈ rows, row.lastStableOffset ≤ endOf 0 batches ∧ row.lastOffset < endOf 0 batches ∧
      ∀ pid first, (of batches).opened.get? pid = some first →
        row.lastStableOffset ≤ first) ∧
      rows.Pairwise fun row later =>
        row.lastStableOffset ≤ later.startOffset ∧ row.lastOffset < later.lastOffset := by
  induction h with
  | nil => exact ⟨nofun, .nil⟩
  | @skip batches rows b h hb ih =>
    obtain ⟨hfirst, hlow, hspan, hend⟩ := ordered_concat hord
    obtain ⟨hhints, hpairs⟩ := ih hfirst
    refine ⟨?_, hpairs⟩
    intro row hrow
    obtain ⟨hle, hmarker, hopen⟩ := hhints row hrow
    exact ⟨by omega, by omega, le_opened_concat (by omega) hopen⟩
  | @row batches rows b row h hb hend' hopen' ih =>
    obtain ⟨hfirst, hlow, hspan, hend⟩ := ordered_concat hord
    obtain ⟨hhints, hpairs⟩ := ih hfirst
    obtain ⟨hmark, hstart⟩ := lastOffset_of_abortedBy hb
    refine ⟨?_, ?_⟩
    · intro r hr
      rcases mem_append.mp hr with hr | hr
      · obtain ⟨hle, hmarker, hopen⟩ := hhints r hr
        exact ⟨by omega, by omega, le_opened_concat (by omega) hopen⟩
      · obtain rfl := mem_singleton.mp hr
        exact ⟨by omega, by omega, hopen'⟩
    · rw [pairwise_append]
      refine ⟨hpairs, pairwise_singleton .., ?_⟩
      intro r hr r' hr'
      obtain rfl := mem_singleton.mp hr'
      obtain ⟨-, hmarker, hopen⟩ := hhints r hr
      exact ⟨hopen _ _ hstart, by omega⟩

/-- A cut takes the rows of the markers that it takes. -/
theorem cutAt (h : Indexed batches rows) (hord : Ordered 0 batches) (cut : Int) :
    Indexed (Extent.below cut batches) (rows.filter fun row => row.lastOffset < cut) := by
  induction h with
  | nil => exact .nil
  | @skip batches rows b h hb ih =>
    have hfirst := (ordered_append.mp hord).1
    have hprefix := ih hfirst
    rw [hord.below_concat]
    split
    · rename_i hcut
      rw [hfirst.below_eq_self (endOf_le_of_last_lt hord hcut)] at hprefix
      exact .skip hprefix hb
    · exact hprefix
  | @row batches rows b row h hb hend hopen ih =>
    have hfirst := (ordered_append.mp hord).1
    have hprefix := ih hfirst
    have hmarker : row.lastOffset = last b := (lastOffset_of_abortedBy hb).1
    rw [hord.below_concat, filter_append]
    split
    · rename_i hcut
      rw [hfirst.below_eq_self (endOf_le_of_last_lt hord hcut)] at hprefix
      have hrow : ([row].filter fun row => row.lastOffset < cut) = [row] :=
        filter_cons_of_pos (by simpa [hmarker] using hcut)
      rw [hrow]
      exact .row hprefix hb hend hopen
    · rename_i hcut
      have hrow : ([row].filter fun row => row.lastOffset < cut) = [] :=
        filter_cons_of_neg (by simpa [hmarker] using hcut)
      rw [hrow, append_nil]
      exact hprefix

end Indexed

/-! ## The search -/

def overlapping (start stop : Int) (rows : List AbortedTxn) : List AbortedTxn :=
  rows.filter fun row => abortedTransactionOverlaps row.startOffset row.lastOffset start stop

theorem overlapping_eq_nil {start stop : Int} {rows : List AbortedTxn}
    (h : ∀ row ∈ rows, stop ≤ row.startOffset ∨ row.lastOffset < start) :
    overlapping start stop rows = [] := by
  unfold overlapping
  rw [filter_eq_nil_iff]
  intro row hrow
  have hout := h row hrow
  unfold abortedTransactionOverlaps
  simp only [Bool.and_eq_true, decide_eq_true_eq, not_and]
  omega

theorem collectAborted_spec (start stop : Int) {rows later : List AbortedTxn}
    (h : (rows ++ later).Pairwise fun row next => row.lastStableOffset ≤ next.startOffset) :
    (collectAborted start stop rows).1 = overlapping start stop rows ∧
      ((collectAborted start stop rows).2 = true → overlapping start stop later = []) := by
  induction rows with
  | nil => exact ⟨rfl, nofun⟩
  | cons row rows ih =>
    obtain ⟨hfirst, hrest⟩ := pairwise_cons.mp h
    obtain ⟨hfound, hcomplete⟩ := ih hrest
    have hhead : overlapping start stop (row :: rows) =
        (if abortedTransactionOverlaps row.startOffset row.lastOffset start stop
          then [row] else []) ++ overlapping start stop rows := by
      unfold overlapping
      rw [filter_cons]
      split <;> rfl
    rw [hhead, collectAborted]
    by_cases hstop : row.lastStableOffset ≥ stop
    · -- the hint is past the range, and every later row begins past the hint
      rw [if_pos hstop]
      have hrows : overlapping start stop rows = [] := by
        refine overlapping_eq_nil fun r hr => .inl ?_
        have hle := hfirst r (mem_append_left _ hr)
        omega
      refine ⟨by rw [hrows, append_nil], fun _ => ?_⟩
      refine overlapping_eq_nil fun r hr => .inl ?_
      have hle := hfirst r (mem_append_right _ hr)
      omega
    · rw [if_neg hstop]
      exact ⟨by rw [← hfound], hcomplete⟩

theorem overlapping_append (start stop : Int) (rows later : List AbortedTxn) :
    overlapping start stop (rows ++ later) =
      overlapping start stop rows ++ overlapping start stop later :=
  filter_append ..

namespace PartitionLog

variable {l l' : PartitionLog ρ} {b : RecordBatch ρ} {a cut : Int}

def rows (l : PartitionLog ρ) : List AbortedTxn := l.allSegments.flatMap txnIndex

/-- Each row stands in the segment of its marker. -/
def Placed (l : PartitionLog ρ) : Prop :=
  ∀ s ∈ l.allSegments, ∀ row ∈ s.txnIndex, ∃ b ∈ s.batches, b.lastOffset = row.lastOffset

/-- The index describes the batches. -/
structure IndexedLog (l : PartitionLog ρ) : Prop where
  indexed : Indexed l.batches l.rows
  placed : l.Placed

theorem Placed.bounds (h : l.Placed) (hrooted : l.Rooted a) {s : Segment ρ}
    (hs : s ∈ l.allSegments) {row : AbortedTxn} (hrow : row ∈ s.txnIndex) :
    s.baseOffset ≤ row.lastOffset ∧ row.lastOffset ≤ s.lastOffset := by
  obtain ⟨b, hb, hlast⟩ := h s hs row hrow
  have hsound := hrooted.chained.sound hs
  have hlow : s.baseOffset ≤ b.baseOffset := hsound.ordered.lower b hb
  have hspan : b.baseOffset ≤ b.lastOffset := hsound.ordered.spans b hb
  have hend : b.lastOffset < endOf s.baseOffset s.batches := hsound.ordered.last_lt_endOf hb
  have hseg := hsound.lastOffset_eq
  omega

variable {segments : List (Segment ρ)}

theorem collect_eq {start stop : Int} (h : (segments.flatMap txnIndex).Pairwise
      fun row next => row.lastStableOffset ≤ next.startOffset) :
    abortedInRange.collect start stop segments =
      overlapping start stop (segments.flatMap txnIndex) := by
  induction segments with
  | nil => rfl
  | cons s segments ih =>
    rw [flatMap_cons] at h ⊢
    obtain ⟨hfound, hcomplete⟩ := collectAborted_spec start stop h
    rw [overlapping_append, abortedInRange.collect]
    dsimp only
    split
    · rename_i hdone
      rw [hcomplete hdone, append_nil]
      exact hfound
    · rw [hfound, ih (pairwise_append.mp h).2.1]

theorem IndexedLog.abortedInRange_eq (h : l.IndexedLog) (hlaid : l.Laid) (start stop : Int) :
    l.abortedInRange start stop = overlapping start stop l.rows := by
  have hsplit : (l.segments.takeWhile fun s => s.lastOffset < start) ++
      ((l.segments.dropWhile fun s => s.lastOffset < start) ++ [l.active]) = l.allSegments := by
    rw [← append_assoc, takeWhile_append_dropWhile]
    rfl
  have hpairs := (h.indexed.hints hlaid.ordered).2.imp And.left
  unfold rows at hpairs ⊢
  rw [← hsplit, flatMap_append] at hpairs ⊢
  -- the segments that the search leaves out end below the range
  have hskipped :
      overlapping start stop ((l.segments.takeWhile fun s => s.lastOffset < start).flatMap
      txnIndex) = [] := by
    refine overlapping_eq_nil ?_
    intro row hrow
    obtain ⟨s, hs, hrs⟩ := mem_flatMap.mp hrow
    have hmem : s ∈ l.allSegments := by
      rw [← hsplit]
      exact mem_append_left _ hs
    have hplaced := (h.placed.bounds hlaid.toRooted hmem hrs).2
    have hbelow : s.lastOffset < start := by simpa using mem_takeWhile_imp hs
    exact .inr (by omega)
  rw [overlapping_append, hskipped, nil_append]
  exact collect_eq (pairwise_append.mp hpairs).2.1

theorem placed_fresh (remote : Bool) : (fresh remote : PartitionLog ρ).Placed := by
  intro s hs row hrow
  obtain rfl := mem_singleton.mp hs
  cases hrow

theorem indexedLog_fresh (remote : Bool) : (fresh remote : PartitionLog ρ).IndexedLog :=
  ⟨.nil, placed_fresh remote⟩

theorem allSegments_congr (hsegments : l'.segments = l.segments) (hactive : l'.active = l.active) :
    l'.allSegments = l.allSegments := by
  unfold allSegments
  rw [hsegments, hactive]

theorem Placed.congr (h : l.Placed) (hsegments : l'.segments = l.segments)
    (hactive : l'.active = l.active) : l'.Placed := by
  unfold Placed
  rw [allSegments_congr hsegments hactive]
  exact h

theorem IndexedLog.congr (h : l.IndexedLog) (hsegments : l'.segments = l.segments)
    (hactive : l'.active = l.active) : l'.IndexedLog := by
  refine ⟨?_, h.placed.congr hsegments hactive⟩
  unfold batches rows
  rw [allSegments_congr hsegments hactive]
  exact h.indexed

theorem Placed.roll (h : l.Placed) : l.roll.Placed ∧ l.roll.rows = l.rows := by
  rcases l.roll_cases with heq | ⟨-, heq⟩
  · rw [heq]
    exact ⟨h, rfl⟩
  · have hall : l.rollActiveSegment.allSegments = l.allSegments ++ [.create l.logEndOffset] := rfl
    rw [heq]
    refine ⟨?_, ?_⟩
    · intro s hs row hrow
      rw [hall] at hs
      rcases mem_append.mp hs with hs | hs
      · exact h s hs row hrow
      · obtain rfl := mem_singleton.mp hs
        cases hrow
    · unfold rows
      rw [hall, flatMap_append]
      simp [create]

theorem Placed.rolledIf (h : l.Placed) (rolls : Bool) :
    (l.rolledIf rolls).Placed ∧ (l.rolledIf rolls).rows = l.rows := by
  unfold PartitionLog.rolledIf
  split
  · exact h.roll
  · exact ⟨h, rfl⟩

theorem IndexedLog.rolledIf (h : l.IndexedLog) (rolls : Bool) : (l.rolledIf rolls).IndexedLog := by
  obtain ⟨hplaced, hrows⟩ := h.placed.rolledIf rolls
  refine ⟨?_, hplaced⟩
  rw [(l.rolledIf_frame rolls).1, hrows]
  exact h.indexed

/-! ## Appends -/

/-- The transaction that `b` aborts by the state in memory. -/
def abortedSpan (s : TransactionState) (b : RecordBatch ρ) : Option (Int × Int × Int) :=
  if (transactionMarkerFlags b).isAbort then
    (s.pending.get? b.producerId).map fun first => (first, b.lastOffset, b.producerId)
  else none

variable {s : TransactionState} {row : Option AbortedTxn}

theorem abortedTxn_ok (h : s.abortedTxn b = .ok row) : row.map AbortedTxn.span = abortedSpan s b ∧
      ∀ r, row = some r → r.lastStableOffset ≤ b.lastOffset + 1 ∧
        ∀ pid first, (s.pending.erase b.producerId).get? pid = some first →
          r.lastStableOffset ≤ first := by
  unfold TransactionState.abortedTxn at h
  unfold abortedSpan
  rw [TransactionState.closes_eq, ← isAbort_or_isCommit] at h
  cases habort : (transactionMarkerFlags b).isAbort with
  | false =>
    rw [habort] at h
    simp only [Bool.and_false, Bool.false_eq_true, if_false] at h
    cases h
    exact ⟨rfl, nofun⟩
  | true =>
    rw [habort] at h
    simp only [Bool.true_or, Bool.true_and, Bool.and_true] at h
    unfold contains at h
    cases hget : s.pending.get? b.producerId with
    | none =>
      rw [hget] at h
      cases h
      exact ⟨rfl, nofun⟩
    | some first =>
      rw [hget] at h
      simp only [Option.isSome_some, if_true, abortedTransactionInterval] at h
      split at h
      · cases h
      · rename_i start last hinterval
        split at hinterval
        · cases hinterval
        · obtain ⟨rfl, rfl⟩ := Prod.mk.inj (Option.some.inj hinterval)
          split at h
          · cases h
          · rename_i hint hunstable
            cases h
            refine ⟨rfl, ?_⟩
            intro r hr
            cases hr
            -- the hint is the least of the log end and the other starts
            have hmin := (min?_eq_some_iff.mp (firstUnstableOffset_eq_some.mp hunstable).2).2
            refine ⟨hmin _ mem_cons_self, ?_⟩
            intro pid first hother
            have hmem := mem_of_get? _ hother
            refine hmin first (mem_cons_of_mem _ (mem_append_left _ ?_))
            exact mem_map.mpr ⟨(pid, first), hmem, rfl⟩

variable {path : AppendPath}

theorem appendState_row_eq {s' : TransactionState} (h : appendState s path b = .ok (s', row)) :
    row = none ∧ path.readsHeaderOnly b = true ∨ s.abortedTxn b = .ok row := by
  unfold appendState at h
  split at h
  · rename_i hheader
    cases h
    exact .inl ⟨rfl, hheader⟩
  · rw [← s.appendOwned_row, h]
    exact .inr rfl

theorem appendState_row {s' : TransactionState} (hs : s.Derived)
    (hpath : PathOk path b) (h : appendState s path b = .ok (s', row)) :
    row.map AbortedTxn.span = abortedSpan s b ∧
      ∀ r, row = some r → r.lastStableOffset ≤ b.lastOffset + 1 ∧
        ∀ pid first, s'.pending.get? pid = some first → r.lastStableOffset ≤ first := by
  have hrow : s.abortedTxn b = .ok row := by
    rcases appendState_row_eq h with ⟨rfl, hheader⟩ | hrow
    · exact s.abortedTxn_of_none (markerCoordinatorEpoch_data (hpath.data hheader))
    · exact hrow
  obtain ⟨hspan, hhint⟩ := abortedTxn_ok hrow
  refine ⟨hspan, ?_⟩
  rintro r rfl
  refine ⟨(hhint r rfl).1, ?_⟩
  intro pid first hget
  refine (hhint r rfl).2 pid first ?_
  -- a row is written for an ABORT marker, which closes its own transaction
  have hmarker : (markerCoordinatorEpoch b).isSome = true := by
    by_contra hnone
    rw [s.abortedTxn_of_none (by simpa using hnone)] at hrow
    cases hrow
  rw [appendState_eq hs hpath h, TransactionState.applyRecoveredBatchState_pending_get?] at hget
  unfold openAfter at hget
  rw [get?_erase]
  by_cases hpid : pid = b.producerId
  · have hneg : ¬ 0 ≤ pid := by
      intro hpos
      rw [if_pos ⟨hpid, hpos⟩, if_pos hmarker] at hget
      cases hget
    rw [if_neg (fun hand => hneg hand.2), hs.pending_of_neg (by omega)] at hget
    cases hget
  · rw [if_neg (fun hand => hpid hand.1)] at hget
    rw [if_neg hpid]
    exact hget

theorem withRow_txnIndex {s : Segment ρ} (h : ∀ r, row = some r → r ∉ s.txnIndex) :
    (s.withRow row).txnIndex = s.txnIndex ++ row.toList := by
  unfold withRow appendTxn
  cases row with
  | none => simp
  | some r =>
    dsimp only
    rw [if_neg (h r rfl)]
    rfl

theorem appendState_row_last {s' : TransactionState} {row : AbortedTxn}
    (h : appendState s path b = .ok (s', some row)) : row.lastOffset = b.lastOffset := by
  rcases appendState_row_eq h with ⟨hnone, -⟩ | hrow
  · cases hnone
  have hmap := (abortedTxn_ok hrow).1
  unfold abortedSpan at hmap
  split at hmap
  · obtain ⟨first, -, hfirst⟩ := Option.map_eq_some_iff.mp hmap.symm
    exact (congrArg (fun span => span.2.1) hfirst).symm
  · cases hmap

variable {active : Segment ρ}

theorem Placed.append (h : l.Placed) (hrooted : l.Rooted a)
    (hlast : l.active.lastOffset < b.lastOffset)
    (hrow : ∀ r, row = some r → r.lastOffset = b.lastOffset) (hsegments : segments = l.segments)
    (hactive : active = (l.active.append b).withRow row) :
    (∀ s ∈ segments ++ [active], ∀ r ∈ s.txnIndex, ∃ x ∈ s.batches, x.lastOffset = r.lastOffset) ∧
      (segments ++ [active]).flatMap txnIndex = l.rows ++ row.toList := by
  subst hsegments hactive
  have hmem : l.active ∈ l.allSegments := by simp [allSegments]
  have hnew : ∀ r, row = some r → r ∉ (l.active.append b).txnIndex := by
    intro r hr hin
    have hle := (h.bounds hrooted hmem hin).2
    have hrl := hrow r hr
    omega
  have htxns : ((l.active.append b).withRow row).txnIndex = l.active.txnIndex ++ row.toList :=
    withRow_txnIndex hnew
  refine ⟨?_, ?_⟩
  · intro s hs r hr
    rcases mem_append.mp hs with hs | hs
    · exact h s (mem_append_left _ hs) r hr
    · obtain rfl := mem_singleton.mp hs
      have hstored : ((l.active.append b).withRow row).batches = l.active.batches ++ [b] := by
        rw [withRow_eq]
        rfl
      rw [hstored]
      rw [htxns] at hr
      rcases mem_append.mp hr with hr | hr
      · obtain ⟨x, hx, hxlast⟩ := h l.active hmem r hr
        exact ⟨x, mem_append_left _ hx, hxlast⟩
      · exact ⟨b, by simp, (hrow r (Option.mem_toList.mp hr)).symm⟩
  · unfold rows
    simp [allSegments, htxns]

theorem Appended.placed (h : l.Placed) (hrooted : l.Rooted a)
    (happ : Appended l path b l') : ∃ row, appendState l.state path b = .ok (l'.state, row) ∧
      l'.Placed ∧ l'.rows = l.rows ++ row.toList ∧
      ∀ r, row = some r → r.lastOffset = b.lastOffset := by
  obtain ⟨row, hstate, heq⟩ := happ.stored
  have hfrontier := happ.frontier
  have hdelta := happ.delta
  unfold appendAtExpectedOffset logEndOffset at hfrontier
  have hlast : l.active.lastOffset < b.lastOffset := by
    unfold RecordBatch.lastOffset
    omega
  have hrow : ∀ r, row = some r → r.lastOffset = b.lastOffset := by
    rintro r rfl
    exact appendState_row_last hstate
  have hsegments : l'.segments = l.segments := by rw [heq]
  have hactive : l'.active = (l.active.append b).withRow row := by rw [heq]
  obtain ⟨hplaced, hrows⟩ := h.append hrooted hlast hrow hsegments hactive
  exact ⟨row, hstate, hplaced, hrows, hrow⟩

theorem Appended.indexedLog (h : l.Sound) (hindex : l.IndexedLog)
    (happ : Appended l path b l') (hpath : PathOk path b) (hseq : Sequenced b) : l'.IndexedLog := by
  obtain ⟨-, hbatches, -⟩ := happ.laid h.laid
  have hsound := happ.sound h hpath hseq
  obtain ⟨row, hstate, hplaced, hrows, -⟩ := happ.placed hindex.placed h.laid.toRooted
  obtain ⟨hspan, hhint⟩ := appendState_row h.derived hpath hstate
  have hby : (of l.batches).abortedBy b = row.map AbortedTxn.span := by
    rw [hspan]
    unfold abortedBy abortedSpan
    rw [h.pending_eq]
  refine ⟨?_, hplaced⟩
  rw [hbatches, hrows]
  cases row with
  | none =>
    rw [Option.toList_none, append_nil]
    exact .skip hindex.indexed hby
  | some r =>
    obtain ⟨hend, hopen⟩ := hhint r rfl
    refine .row hindex.indexed hby hend ?_
    intro pid first hget
    rw [← hbatches, ← hsound.pending_eq] at hget
    exact hopen pid first hget

/-! ## Truncations -/

theorem filter_txnIndex_eq_self (h : ∀ s ∈ segments, ∀ row ∈ s.txnIndex, row.lastOffset < cut) :
    (segments.flatMap txnIndex).filter (fun row => row.lastOffset < cut) =
      segments.flatMap txnIndex := by
  rw [filter_eq_self]
  intro row hrow
  obtain ⟨s, hs, hrs⟩ := mem_flatMap.mp hrow
  simpa using h s hs row hrs

theorem filter_txnIndex_eq_nil (h : ∀ s ∈ segments, ∀ row ∈ s.txnIndex, cut ≤ row.lastOffset) :
    (segments.flatMap txnIndex).filter (fun row => row.lastOffset < cut) = [] := by
  rw [filter_eq_nil_iff]
  intro row hrow
  obtain ⟨s, hs, hrs⟩ := mem_flatMap.mp hrow
  simpa using h s hs row hrs

theorem Placed.rows_cut (h : l.Placed) (hrooted : l.Rooted a) (ha : a ≤ cut)
    (hcut : CutSegments l cut segments active) :
    (segments ++ [active]).flatMap txnIndex =
      l.rows.filter fun row => row.lastOffset < cut := by
  cases hcut with
  | inside before seg after hsplit hlow hhigh hafter =>
    have hchain := hrooted.chained
    rw [hsplit, chained_append] at hchain
    have hmem : ∀ s ∈ segments, s ∈ l.allSegments := by
      intro s hs
      rw [hsplit]
      exact mem_append_left _ hs
    have hkept : ∀ s ∈ segments, ∀ row ∈ s.txnIndex, row.lastOffset < cut := by
      intro s hs row hrow
      have hle := (h.bounds hrooted (hmem s hs) hrow).2
      have hend := hchain.1.lastOffset_lt hs
      have hbase := hchain.2.1
      omega
    have hgone : ∀ s ∈ after, ∀ row ∈ s.txnIndex, cut ≤ row.lastOffset := by
      intro s hs row hrow
      have hin : s ∈ l.allSegments := by
        rw [hsplit]
        exact mem_append_right _ (mem_cons_of_mem _ hs)
      have hle := (h.bounds hrooted hin hrow).1
      have hbase := hafter s hs
      omega
    unfold rows
    rw [hsplit]
    simp only [flatMap_append, flatMap_cons, flatMap_nil, append_nil,
      filter_append, filter_txnIndex_eq_self hkept, filter_txnIndex_eq_nil hgone]
    rfl
  | all hfirst =>
    have hgone : ∀ s ∈ l.allSegments, ∀ row ∈ s.txnIndex, cut ≤ row.lastOffset := by
      intro s hs row hrow
      have hle := (h.bounds hrooted hs hrow).1
      have hbase := hrooted.chained.le_base hs
      rw [hrooted.firstLocalOffset_eq] at hfirst
      omega
    exact (filter_txnIndex_eq_nil hgone).symm

theorem Placed.cutSegments (h : l.Placed)
    (hcut : CutSegments l cut segments active) : ∀ s ∈ segments ++ [active],
      ∀ row ∈ s.txnIndex, ∃ b ∈ s.batches, b.lastOffset = row.lastOffset := by
  cases hcut with
  | inside before seg after hsplit =>
    intro s hs row hrow
    rcases mem_append.mp hs with hs | hs
    · refine h s ?_ row hrow
      rw [hsplit]
      exact mem_append_left _ hs
    · obtain rfl := mem_singleton.mp hs
      obtain ⟨hmem, hlt⟩ := mem_filter.mp hrow
      have hin : seg ∈ l.allSegments := by
        rw [hsplit]
        simp
      obtain ⟨b, hb, hlast⟩ := h seg hin row hmem
      refine ⟨b, mem_below.mpr ⟨hb, ?_⟩, hlast⟩
      show b.lastOffset < cut
      rw [hlast]
      simpa using hlt
  | all =>
    intro s hs row hrow
    obtain rfl := mem_singleton.mp hs
    cases hrow

theorem Truncated.indexedLog (h : l.IndexedLog) (hlaid : l.Laid) (hzero : 0 ≤ cut)
    (htrunc : Truncated l cut l') : l'.IndexedLog := by
  have hrows : l'.rows = l.rows.filter fun row => row.lastOffset < cut :=
    h.placed.rows_cut hlaid.toRooted hzero htrunc.segments
  refine ⟨?_, h.placed.cutSegments htrunc.segments⟩
  rw [htrunc.batches, hrows]
  exact h.indexed.cutAt hlaid.ordered cut

end PartitionLog

end Krabka.Log

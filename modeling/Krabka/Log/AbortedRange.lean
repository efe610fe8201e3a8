import Krabka.Log.Rollback

/-!
# The aborted transactions of a range

`aborted_in_range` starts at the first segment that reaches the range and stops at
the first row whose hint is past it.  In every run whose batches the recovery can
replay, the answer is still every aborted transaction of the log that overlaps the
range, in the order of the markers.
-/

namespace Krabka.Log.PartitionLog

open TransitionSystem

variable {ρ : Type} {l : PartitionLog ρ}

theorem abortedTransactionOverlaps_iff {first last start stop : Int} :
    abortedTransactionOverlaps first last start stop = true ↔
      ∃ offset, (first ≤ offset ∧ offset ≤ last) ∧ start ≤ offset ∧ offset < stop := by
  unfold abortedTransactionOverlaps
  simp only [Bool.and_eq_true, decide_eq_true_eq, ge_iff_le]
  constructor
  · rintro ⟨⟨⟨hspan, hrange⟩, hfirst⟩, hlast⟩
    exact ⟨max first start, by omega, by omega⟩
  · rintro ⟨offset, hin, hrange⟩
    omega

/-- The answer for a range is the aborted transactions of the log with an offset in
it, in the order of their markers and each one once. -/
theorem abortedInRange_exact {remote : Bool}
    (h : (replayedStates ρ remote).Reachable l) (start stop : Int) :
    (∀ first last pid, (first, last, pid) ∈ (l.abortedInRange start stop).map AbortedTxn.span ↔
      (first, last, pid) ∈ Ledger.empty.abortedFrom l.batches ∧
        ∃ offset, (first ≤ offset ∧ offset ≤ last) ∧ start ≤ offset ∧ offset < stop) ∧
      (l.abortedInRange start stop).Pairwise fun row later =>
        row.lastOffset < later.lastOffset := by
  have hinv := stateInv_of_reachable h
  rw [hinv.indexed.abortedInRange_eq hinv.sound.laid]
  constructor
  · intro first last pid
    rw [map_span_overlapping, hinv.indexed.indexed.spans, List.mem_filter,
      abortedTransactionOverlaps_iff]
  · exact ((hinv.indexed.indexed.hints hinv.sound.laid.ordered).2.imp And.right).filter _

/-- The transaction of producer 2 aborts behind the cut, and the first one is found
with it. -/
theorem abortedInRange_exact_two :
    let l := replayedLog (sampleEdits ++
      [.edit (.log (.append .append false
          { endMarker 2 (.abort 0) with partitionLeaderEpoch := 1 })),
        .releaseReplicatedTransactions 5])
    (l.abortedInRange 2 5).map AbortedTxn.span = [(0, 2, 1), (1, 4, 2)] ∧
    ∀ first last pid, (first, last, pid) ∈ (l.abortedInRange 2 5).map AbortedTxn.span ↔
      (first, last, pid) ∈ Ledger.empty.abortedFrom l.batches ∧
        ∃ offset, (first ≤ offset ∧ offset ≤ last) ∧ 2 ≤ offset ∧ offset < 5 :=
  ⟨by decide +kernel, (abortedInRange_exact (replayedLog_reachable _) 2 5).1⟩

/-- Two batches that do not fit together in a recovery read, the second of them
transactional, and a producer without an epoch, whose snapshots do not load. -/
def skippedAppends : List (LogOp Unit) :=
  [.append .append false { plainBatch 600000 with producerId := 7, baseSequence := 0 },
    .append .append true { txnBatch 1 with bodyLen := 600000 },
    .append .append true (plainBatch 10), .append .append false (plainBatch 10)]

/-- The rebuild of a truncation reads past the transactional batch and forgets its
transaction, so the ABORT marker writes no row. -/
theorem abortedInRange_misses_transaction : ∃ l : PartitionLog Unit,
    (states Unit false).Reachable l ∧ l.abortedInRange 0 4 = [] ∧
      (1, 3, 1) ∈ Ledger.empty.abortedFrom l.batches := by
  let ops : List (LogOp Unit) := skippedAppends ++
    [.truncateTo 3, .append .append false (endMarker 1 (.abort 0))]
  exact ⟨runAll (fun l op => (StateOp.run op l).toOption) (fun _ _ => True) (fresh false)
      (ops.map fun op => .edit (.log op)),
    .runAll (.init rfl) fun _ _ _ hrun _ => Except.eq_ok_of_toOption hrun, by decide +kernel⟩

end Krabka.Log.PartitionLog

import Krabka.Log.Recovery

/-!
# What a rebuild reaches

`rebuild_producer_and_transaction_state` of a log whose reads go in order
succeeds and reaches the producer entries of all the batches, with the open
transactions and the coordinator epochs that they say.  The transactions that
the replay completes are those whose marker lies behind the snapshot it began
with: `reloadOffset` is where that is.
-/

namespace Krabka.Log

open Extent TransactionState List

variable {ρ : Type}

/-! ## The snapshot that is loaded -/

theorem coordinatorEpoch_of_snapshotValid {offset pid : Int} {producers : ProducerState}
    {e : ProducerSnapshotEntry} (h : snapshotValid offset producers = true)
    (he : producers.get? pid = some e) : -1 ≤ e.coordinatorEpoch := by
  have hentry := all_eq_true.mp h (pid, e) (producers.mem_of_get? he)
  unfold producerSnapshotEntryValid at hentry
  simp only [Bool.and_eq_true, decide_eq_true_eq] at hentry
  exact hentry.1.2.2.2.1

theorem reload_spec {batches : List (RecordBatch ρ)} {snapshots : SortedMap Int ProducerState}
    (h : SnapshotsOf batches snapshots) (range : ProducerReloadRange) :
    SnapshotsOf batches (reload snapshots range).2 ∧
      ∀ offset producers, (reload snapshots range).1 = some (offset, producers) →
        snapshots.get? offset = some producers ∧
          producerSnapshotReloadKeeps range offset = true ∧
          snapshotValid offset producers = true := by
  have hkept := h.retain (producerSnapshotReloadKeeps range)
  unfold reload
  dsimp only
  split
  · rename_i offset producers hfound
    refine ⟨hkept.retain _, ?_⟩
    intro offset' producers' hloaded
    obtain ⟨rfl, rfl⟩ := Prod.mk.inj (Option.some.inj hloaded)
    have hmem := mem_reverse.mp (mem_of_find?_eq_some hfound)
    have hget := (snapshots.retain (producerSnapshotReloadKeeps range)).get?_of_mem hmem
    rw [SortedMap.get?_retain] at hget
    split at hget
    · rename_i hkeeps
      exact ⟨hget, hkeeps, by simpa using find?_some hfound⟩
    · cases hget
  · exact ⟨snapshotsOf_empty batches, nofun⟩

namespace PartitionLog

variable {l l' : PartitionLog ρ}

/-- The offset of the snapshot that a rebuild up to `logEnd` restores, 0 without
one. -/
def snapshotBelow (l : PartitionLog ρ) (logEnd : Int) : Int :=
  ((reload l.snapshots (l.producerReloadRange logEnd)).1.map Prod.fst).getD 0

/-- The offset of the snapshot that a rebuild restores. -/
def reloadOffset (l : PartitionLog ρ) : Int := l.snapshotBelow l.logEndOffset

/-- `l'` is `l` with the state of all its batches, replayed from a snapshot on. -/
structure Rebuilt (l l' : PartitionLog ρ) : Prop where
  frame : l' = { l with state := l'.state, snapshots := l'.snapshots, lso := l'.lso }
  snapshots : SnapshotsOf l.batches l'.snapshots
  lso : l'.state.refreshLso l.logEndOffset = .ok l'.lso
  nonneg : 0 ≤ l.reloadOffset
  replayed : ∃ restored : TransactionState,
    restored.producerState = producersOf (below l.reloadOffset l.batches) ∧ restored.Derived ∧
      restored.unreplicated = .empty ∧
      l'.state = (above l.reloadOffset l.batches).foldl
        applyRecoveredBatchState restored

theorem Rebuilt.producers (h : Rebuilt l l') (hlaid : l.Laid) :
    l'.state.producerState = producersOf l.batches := by
  obtain ⟨restored, hproducers, -, -, hstate⟩ := h.replayed
  rw [hstate, foldl_producerState, hproducers, producersOf, ← foldl_append,
    hlaid.ordered.below_append_above]
  rfl

theorem Rebuilt.derived (h : Rebuilt l l') (hseq : ∀ b ∈ l.batches, Sequenced b) :
    l'.state.Derived := by
  obtain ⟨restored, -, hderived, -, hstate⟩ := h.replayed
  rw [hstate]
  exact hderived.foldl fun b hb => hseq b (mem_above.mp hb).1

theorem Rebuilt.batches_eq (h : Rebuilt l l') : l'.batches = l.batches := by
  rw [h.frame]
  rfl

theorem Rebuilt.laid (h : Rebuilt l l') (hlaid : l.Laid) : l'.Laid := by
  rw [h.frame]
  exact ⟨⟨hlaid.chained, hlaid.sealed_ne⟩, hlaid.startOffset_eq⟩

theorem Laid.restored_spec (h : l.Laid) (hsnap : SnapshotsOf l.batches l.snapshots)
    (hseq : ∀ b ∈ l.batches, Sequenced b) {loaded : Option (Int × ProducerState)}
    (hloaded : (reload l.snapshots (l.producerReloadRange l.logEndOffset)).1 = loaded) :
    (restoredState loaded).producerState = producersOf (below l.reloadOffset l.batches) ∧
      (restoredState loaded).Derived ∧ (restoredState loaded).unreplicated = .empty ∧
      producerSnapshotReplayStart (l.producerReloadRange l.logEndOffset) (loaded.map Prod.fst) =
        some l.reloadOffset ∧
      0 ≤ l.reloadOffset ∧ endOf 0 (below l.reloadOffset l.batches) = l.reloadOffset := by
  have hend := h.le_logEndOffset
  have hrange := h.producerReloadRange_eq l.logEndOffset
  unfold reloadOffset snapshotBelow
  rw [hloaded]
  cases loaded with
  | none =>
    have hnone : below 0 l.batches = [] := h.ordered.below_eq_nil le_rfl
    refine ⟨?_, derived_empty, rfl, ?_, le_rfl, ?_⟩
    · simp only [Option.map_none, Option.getD_none]
      rw [hnone]
      rfl
    · rw [hrange]
      unfold producerSnapshotReplayStart
      rw [if_neg (by dsimp only; omega)]
      rfl
    · simp only [Option.map_none, Option.getD_none]
      rw [hnone]
      rfl
  | some found =>
    obtain ⟨offset, producers⟩ := found
    obtain ⟨hget, hkeeps, hvalid⟩ := (reload_spec hsnap _).2 offset producers hloaded
    obtain ⟨hpos, hoffset, hproducers⟩ := hsnap offset producers hget
    have hbelow : ∀ b ∈ below offset l.batches, Sequenced b :=
      fun b hb => hseq b (mem_below.mp hb).1
    have hfold := derived_empty.foldl hbelow
    have hstate : ((below offset l.batches).foldl applyRecoveredBatchState
        empty).producerState = producers := by
      rw [foldl_producerState, hproducers]
      rfl
    refine ⟨?_, ?_, (foldl_restoreEntry_frame _ _).2, ?_, hpos.le, hoffset⟩
    · exact (foldl_restoreEntry_frame _ _).1.trans hproducers
    · refine derived_ofSnapshot ?_ ?_
      · intro pid e he
        exact coordinatorEpoch_of_snapshotValid hvalid he
      · intro pid hpid
        rw [← hstate]
        exact hfold.nonneg pid hpid
    · rw [hrange] at hkeeps ⊢
      unfold producerSnapshotReplayStart
      rw [if_neg (by dsimp only; omega)]
      simp only [Option.map_some, hkeeps, if_true, Option.getD_some]
      rw [max_eq_left hpos.le]

theorem Laid.rebuild_ok (h : l.Laid) (hsnap : SnapshotsOf l.batches l.snapshots)
    (hseq : ∀ b ∈ l.batches, Sequenced b) (hreads : l.ReadsInOrder) :
    ∃ l', l.rebuildProducerAndTransactionState = .ok l' ∧ Rebuilt l l' := by
  have hrange := h.producerReloadRange_eq l.logEndOffset
  obtain ⟨restored, hrestored⟩ : ∃ restored, restoredState
      (reload l.snapshots (l.producerReloadRange l.logEndOffset)).1 = restored := ⟨_, rfl⟩
  obtain ⟨hproducers, hderived, hunreplicated, hstart, hzero, hend⟩ :=
    h.restored_spec hsnap hseq rfl
  rw [hrestored] at hproducers hderived hunreplicated
  have hsplit := h.ordered.below_append_above l.reloadOffset
  have hbetween := h.ordered.between_of_endOf_below hend
  have hleft := (reload_spec hsnap (l.producerReloadRange l.logEndOffset)).1
  -- the replay of the tail
  have hreplay := foldl_replay (below l.reloadOffset l.batches) (above l.reloadOffset l.batches)
    ⟨restored, (reload l.snapshots (l.producerReloadRange l.logEndOffset)).2,
      l.boundariesAfter l.reloadOffset⟩
    (by rw [hsplit]; exact h.ordered) hproducers (by rw [hsplit]; exact hleft) (by
      intro offset hoffset
      obtain ⟨hmem, hgt⟩ := mem_filter.mp hoffset
      rw [hend, hsplit]
      refine ⟨by simpa using hgt, ?_⟩
      have hbase : ∃ s ∈ l.allSegments, s.baseOffset = offset := by
        rcases mem_append.mp hmem with hmem | hmem
        · obtain ⟨s, hs, hbase⟩ := mem_map.mp (mem_of_mem_drop hmem)
          exact ⟨s, mem_append_left _ hs, hbase⟩
        · exact ⟨l.active, by simp [allSegments], (mem_singleton.mp hmem).symm⟩
      obtain ⟨s, hs, rfl⟩ := hbase
      exact h.base_eq hs)
  rw [hsplit] at hreplay
  obtain ⟨hstate, hsnapshots⟩ := hreplay
  -- the state at the end
  have habove : ∀ b ∈ above l.reloadOffset l.batches, Sequenced b :=
    fun b hb => hseq b (mem_above.mp hb).1
  have hderived' := hderived.foldl habove
  obtain ⟨final, hfinal⟩ : ∃ final, (above l.reloadOffset l.batches).foldl
      applyRecoveredBatchState restored = final := ⟨_, rfl⟩
  rw [hfinal] at hstate hderived'
  have hproducers' : final.producerState = producersOf l.batches := by
    rw [← hfinal, foldl_producerState, hproducers, producersOf, ← foldl_append, hsplit]
    rfl
  have hpending : ∀ start ∈ final.pending.values, ∃ b ∈ l.batches, b.baseOffset = start := by
    intro start hstart
    obtain ⟨⟨pid, first⟩, hentry, rfl⟩ := mem_map.mp hstart
    have hget := SortedMap.get?_of_mem _ hentry
    rw [hderived'.pending_eq, hproducers'] at hget
    exact exists_first_of_producersOf hseq hget
  have hbase_lt : ∀ start, (∃ b ∈ l.batches, b.baseOffset = start) →
      0 ≤ start ∧ start ≤ l.logEndOffset ∧ Between start l.batches := by
    rintro start ⟨b, hb, rfl⟩
    have hlow : 0 ≤ b.baseOffset := h.ordered.lower b hb
    have hspan : b.baseOffset ≤ b.lastOffset := h.ordered.spans b hb
    have hlast := h.lastOffset_lt hb
    exact ⟨hlow, by omega, h.ordered.between_first hb⟩
  obtain ⟨lso, hlso⟩ : ∃ lso, final.refreshLso l.logEndOffset = .ok lso :=
    refreshLso_ok (by
      rintro start (hstart | hstart)
      · exact (hbase_lt start (hpending start hstart)).2.1
      · obtain ⟨⟨first, last⟩, hentry, rfl⟩ := mem_map.mp hstart
        rw [← hfinal] at hentry
        rcases foldl_unreplicated hproducers hderived (by rwa [hsplit])
          (SortedMap.get?_of_mem _ hentry) with hold | hnew
        · rw [hunreplicated] at hold
          simp at hold
        · rw [hsplit] at hnew
          exact (hbase_lt first hnew).2.1)
  have hstamps : l.rebuildPendingStampRanges final = .ok () := by
    unfold rebuildPendingStampRanges
    split
    · rfl
    · rename_i first hfirst
      have hmem := (min?_eq_some_iff.mp hfirst).1
      obtain ⟨hlow, -, hfirst_between⟩ := hbase_lt first (hpending first hmem)
      rw [h.localLogStartOffset_eq, max_eq_left hlow]
      exact h.walk_ok hreads hlow hfirst_between le_rfl
  unfold rebuildProducerAndTransactionState
  dsimp only
  rw [hstart]
  dsimp only
  rw [hrestored, replay, h.walk_ok hreads hzero hbetween le_rfl]
  dsimp only
  rw [hstate, hstamps]
  rw [hlso]
  refine ⟨_, rfl, rfl, ?_, hlso, hzero, restored, hproducers, hderived, hunreplicated, hfinal.symm⟩
  split
  · rename_i hgt
    rw [hrange] at hgt
    have hall := h.ordered.below_eq_self h.logEndOffset_eq.ge
    refine hsnapshots.write hgt ?_ ?_
    · rw [hall]
      exact h.logEndOffset_eq.symm
    · rw [hall]
      exact hproducers'
  · exact hsnapshots

end PartitionLog

end Krabka.Log

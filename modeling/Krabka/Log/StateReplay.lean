import Krabka.Log.ProducerState

/-!
# The producer state of a run of batches

The append paths and the replay of a recovery leave the same state for a batch,
as long as control batches stay off the verbatim path.  The producer entries are
a fold over the batches, and under nonnegative base sequences the open
transactions and the coordinator epochs are read off the entries: `Derived` is
that link, which a restored snapshot satisfies and every batch keeps.
-/

namespace Krabka.Log

open List SortedMap

variable {ρ : Type}

/-- A data batch of a producer carries a base sequence. -/
def Sequenced (b : RecordBatch ρ) : Prop :=
  b.isControlBatch = false → 0 ≤ b.producerId → 0 ≤ b.baseSequence

instance (b : RecordBatch ρ) : Decidable (Sequenced b) := by
  unfold Sequenced
  infer_instance

def producersAfter (s : ProducerState) (b : RecordBatch ρ) : ProducerState :=
  if controlBatchKind b = some .barrier then s else updateOwnedProducerEntry s b

def producersOf (batches : List (RecordBatch ρ)) : ProducerState :=
  batches.foldl producersAfter .empty

/-! ## Control batches -/

section Control

variable {b : RecordBatch ρ}

theorem controlBatchKind_eq_none : controlBatchKind b = none ↔ b.isControlBatch = false := by
  unfold controlBatchKind
  cases b.isControlBatch
  · simp
  · by_cases hm : b.controlMarker = some .barrier <;> simp [hm]

theorem controlMarker_eq_none (h : b.isControlBatch = false) : b.controlMarker = none := by
  unfold RecordBatch.isControlBatch at h
  unfold RecordBatch.controlMarker
  cases hp : b.payload with
  | data records => rfl
  | control records => simp [hp] at h

theorem markerCoordinatorEpoch_data (h : b.isControlBatch = false) :
    markerCoordinatorEpoch b = none := by
  unfold markerCoordinatorEpoch
  rw [controlMarker_eq_none h]

theorem marker_of_barrier (h : controlBatchKind b = some .barrier) :
    markerCoordinatorEpoch b = none ∧ b.isControlBatch = true := by
  unfold controlBatchKind at h
  split_ifs at h with hcontrol hmarker
  · exact ⟨by rw [markerCoordinatorEpoch, hmarker], hcontrol⟩
  · cases h

/-- The open transaction of its producer after a batch. -/
def openAfter (b : RecordBatch ρ) (opened : Option Int) : Option Int :=
  if (markerCoordinatorEpoch b).isSome then none
  else if !b.isControlBatch && b.isTransactional then some (opened.getD b.baseOffset)
  else opened

theorem isAbort_or_isCommit (b : RecordBatch ρ) :
    ((transactionMarkerFlags b).isAbort || (transactionMarkerFlags b).isCommit) =
      (markerCoordinatorEpoch b).isSome := by
  unfold transactionMarkerFlags markerCoordinatorEpoch
  cases b.controlMarker with
  | none => rfl
  | some record => cases record <;> rfl

theorem isAbort_of_none (h : markerCoordinatorEpoch b = none) :
    (transactionMarkerFlags b).isAbort = false := by
  have hmarker := isAbort_or_isCommit b
  rw [h, Option.isSome_none, Bool.or_eq_false_iff] at hmarker
  exact hmarker.1

theorem not_isAbort_and_isCommit (b : RecordBatch ρ) :
    ((transactionMarkerFlags b).isAbort && (transactionMarkerFlags b).isCommit) = false := by
  unfold transactionMarkerFlags
  cases b.controlMarker with
  | none => rfl
  | some record => cases record <;> rfl

end Control

namespace TransactionState

variable {s : TransactionState} {b : RecordBatch ρ}

variable (s : TransactionState)

theorem closes_eq (b : RecordBatch ρ) :
    s.closes b = ((markerCoordinatorEpoch b).isSome && s.pending.contains b.producerId) := by
  unfold closes transactionMarkerCloses
  simp only [isAbort_or_isCommit, not_isAbort_and_isCommit, Bool.not_false, Bool.and_true]

/-! ## What each step leaves alone -/

@[simp] theorem noteCoordinatorEpoch_pending (b : RecordBatch ρ) :
    (s.noteCoordinatorEpoch b).pending = s.pending := by
  unfold noteCoordinatorEpoch
  split
  · split <;> rfl
  · rfl

@[simp] theorem noteCoordinatorEpoch_unreplicated (b : RecordBatch ρ) :
    (s.noteCoordinatorEpoch b).unreplicated = s.unreplicated := by
  unfold noteCoordinatorEpoch
  split
  · split <;> rfl
  · rfl

@[simp] theorem noteCoordinatorEpoch_producerState (b : RecordBatch ρ) :
    (s.noteCoordinatorEpoch b).producerState = s.producerState := by
  unfold noteCoordinatorEpoch
  split
  · split <;> rfl
  · rfl

@[simp] theorem noteCoordinatorEpoch_get? (b : RecordBatch ρ) (pid : Int) :
    (s.noteCoordinatorEpoch b).coordinatorEpochs.get? pid =
      if pid = b.producerId ∧ 0 ≤ b.producerId ∧ (markerCoordinatorEpoch b).isSome then
        markerCoordinatorEpoch b
      else s.coordinatorEpochs.get? pid := by
  unfold noteCoordinatorEpoch
  cases hm : markerCoordinatorEpoch b with
  | none => simp
  | some epoch =>
    by_cases hneg : b.producerId < 0
    · have hnot : ¬ 0 ≤ b.producerId := by omega
      simp [hneg, hnot]
    · have hpos : 0 ≤ b.producerId := by omega
      simp [hneg, hpos]

@[simp] theorem closeTransaction_producerState (b : RecordBatch ρ) :
    (s.closeTransaction b).producerState = s.producerState := by
  unfold closeTransaction
  split
  · split <;> rfl
  · rfl

@[simp] theorem closeTransaction_coordinatorEpochs (b : RecordBatch ρ) :
    (s.closeTransaction b).coordinatorEpochs = s.coordinatorEpochs := by
  unfold closeTransaction
  split
  · split <;> rfl
  · rfl

@[simp] theorem closeTransaction_pending_get? (b : RecordBatch ρ) (pid : Int) :
    (s.closeTransaction b).pending.get? pid =
      if pid = b.producerId ∧ (markerCoordinatorEpoch b).isSome then none
      else s.pending.get? pid := by
  unfold closeTransaction
  rw [closes_eq]
  cases hm : markerCoordinatorEpoch b with
  | none => simp
  | some epoch =>
    unfold SortedMap.contains
    cases hp : s.pending.get? b.producerId with
    | none =>
      by_cases hpid : pid = b.producerId
      · simp [hpid, hp]
      · simp [hpid]
    | some first =>
      by_cases hpid : pid = b.producerId <;> simp [hpid]

theorem closeTransaction_congr {s t : TransactionState} (b : RecordBatch ρ)
    (hpending : s.pending = t.pending) (hunreplicated : s.unreplicated = t.unreplicated) :
    (s.closeTransaction b).pending = (t.closeTransaction b).pending ∧
      (s.closeTransaction b).unreplicated = (t.closeTransaction b).unreplicated := by
  unfold closeTransaction
  rw [closes_eq, closes_eq, hpending, hunreplicated]
  split
  · split
    · exact ⟨rfl, rfl⟩
    · exact ⟨hpending, hunreplicated⟩
  · exact ⟨hpending, hunreplicated⟩

theorem noteCoordinatorEpoch_congr {s t : TransactionState} (b : RecordBatch ρ)
    (h : s.coordinatorEpochs = t.coordinatorEpochs) :
    (s.noteCoordinatorEpoch b).coordinatorEpochs =
      (t.noteCoordinatorEpoch b).coordinatorEpochs := by
  unfold noteCoordinatorEpoch
  split
  · split
    · exact h
    · rw [h]
  · exact h

@[simp] theorem recordPendingTransaction_pending_get? (b : RecordBatch ρ)
    (pid : Int) : (s.recordPendingTransaction b).pending.get? pid =
      if pid = b.producerId then some ((s.pending.get? pid).getD b.baseOffset)
      else s.pending.get? pid := by
  simp [recordPendingTransaction]

theorem abortedTxn_of_none {b : RecordBatch ρ} (h : markerCoordinatorEpoch b = none) :
    s.abortedTxn b = .ok none := by
  unfold abortedTxn
  rw [isAbort_of_none h, Bool.and_false]
  rfl

theorem appendOwned_row (b : RecordBatch ρ) : (s.appendOwned b).map Prod.snd = s.abortedTxn b := by
  unfold appendOwned
  split
  · rename_i hbarrier
    rw [abortedTxn_of_none s (marker_of_barrier hbarrier).1]
    rfl
  · have hnote : (s.noteCoordinatorEpoch b).abortedTxn b = s.abortedTxn b := by
      unfold abortedTxn closes
      rw [noteCoordinatorEpoch_pending, noteCoordinatorEpoch_unreplicated]
    unfold applyTransactionMarker
    simp only [hnote]
    cases s.abortedTxn b <;> rfl
  · rename_i hdata
    rw [abortedTxn_of_none s (markerCoordinatorEpoch_data (controlBatchKind_eq_none.mp hdata))]
    rfl

/-! ## What a replayed batch leaves -/

theorem applyRecoveredBatchState_pending_get? (b : RecordBatch ρ) (pid : Int) :
    (s.applyRecoveredBatchState b).pending.get? pid =
      if pid = b.producerId ∧ 0 ≤ pid then openAfter b (s.pending.get? pid)
      else s.pending.get? pid := by
  unfold applyRecoveredBatchState openAfter
  split
  · rename_i hbarrier
    simp [marker_of_barrier hbarrier]
  split
  · rw [if_neg (by omega)]
  cases hc : b.isControlBatch with
  | true =>
    simp only [if_true, noteCoordinatorEpoch_pending, closeTransaction_pending_get?]
    grind
  | false =>
    simp only [markerCoordinatorEpoch_data hc]
    cases htxn : b.isTransactional with
    | true =>
      simp only [Bool.false_eq_true, if_false, if_true, recordPendingTransaction_pending_get?]
      grind
    | false => simp

theorem applyRecoveredBatchState_unreplicated (b : RecordBatch ρ) :
    (s.applyRecoveredBatchState b).unreplicated =
      if 0 ≤ b.producerId ∧ (markerCoordinatorEpoch b).isSome then
        match s.pending.get? b.producerId with
        | some first => s.unreplicated.insert first b.lastOffset
        | none => s.unreplicated
      else s.unreplicated := by
  unfold applyRecoveredBatchState
  split
  · rename_i hbarrier
    simp [marker_of_barrier hbarrier]
  split
  · rw [if_neg (by omega)]
  cases hc : b.isControlBatch with
  | true =>
    simp only [if_true, noteCoordinatorEpoch_unreplicated, closeTransaction, closes_eq,
      SortedMap.contains]
    grind
  | false =>
    simp only [markerCoordinatorEpoch_data hc]
    cases htxn : b.isTransactional <;> simp [recordPendingTransaction]

theorem applyRecoveredBatchState_unreplicated_get? (b : RecordBatch ρ)
    (first : Int) : (s.applyRecoveredBatchState b).unreplicated.get? first =
      s.unreplicated.get? first ∨ s.pending.get? b.producerId = some first := by
  rw [applyRecoveredBatchState_unreplicated]
  split
  · split
    · rename_i opened hopened
      by_cases heq : first = opened
      · exact .inr (heq ▸ hopened)
      · exact .inl (by simp [heq])
    · exact .inl rfl
  · exact .inl rfl

theorem applyRecoveredBatchState_coordinatorEpoch (b : RecordBatch ρ)
    (pid : Int) : (s.applyRecoveredBatchState b).coordinatorEpoch pid =
      if pid = b.producerId ∧ 0 ≤ pid then
        (markerCoordinatorEpoch b).getD (s.coordinatorEpoch pid)
      else s.coordinatorEpoch pid := by
  unfold applyRecoveredBatchState coordinatorEpoch
  split
  · rename_i hbarrier
    simp [marker_of_barrier hbarrier]
  split
  · rw [if_neg (by omega)]
  cases hc : b.isControlBatch with
  | true =>
    simp only [if_true, noteCoordinatorEpoch_get?, closeTransaction_coordinatorEpochs]
    cases markerCoordinatorEpoch b <;> grind
  | false =>
    simp only [markerCoordinatorEpoch_data hc]
    cases htxn : b.isTransactional <;> simp [recordPendingTransaction]

/-! ## The producer entries -/

theorem updateOwnedProducerEntry_of_neg {s : ProducerState} (h : b.producerId < 0) :
    updateOwnedProducerEntry s b = s := by
  simp [updateOwnedProducerEntry, h]

@[simp] theorem applyRecoveredBatchState_producerState (b : RecordBatch ρ) :
    (s.applyRecoveredBatchState b).producerState = producersAfter s.producerState b := by
  unfold applyRecoveredBatchState producersAfter
  split
  · rfl
  · split
    · rename_i hneg
      rw [updateOwnedProducerEntry_of_neg hneg]
    · split
      · simp
      · split <;> rfl

theorem foldl_producerState (batches : List (RecordBatch ρ)) :
    (batches.foldl applyRecoveredBatchState s).producerState =
      batches.foldl producersAfter s.producerState :=
  (foldl_hom producerState fun s b => (applyRecoveredBatchState_producerState s b).symm).symm

end TransactionState

theorem updateOwnedProducerEntry_get? {s : ProducerState} {b : RecordBatch ρ}
    (hpid : 0 ≤ b.producerId) (hseq : Sequenced b) (pid : Int) :
    (updateOwnedProducerEntry s b).get? pid =
      if pid = b.producerId then
        some (if b.isControlBatch then updateControlEntry (entryOf s b) b
          else updateDataEntry (entryOf s b) b)
      else s.get? pid := by
  have hneg : ¬ b.producerId < 0 := by omega
  unfold updateOwnedProducerEntry
  rw [if_neg hneg]
  cases hc : b.isControlBatch with
  | true => simp
  | false =>
    have hbase := hseq hc hpid
    have hnot : ¬ (b.producerId < 0 ∨ b.baseSequence < 0) := by omega
    simp [updateDataProducerEntry, hnot]

theorem producersAfter_get? {s : ProducerState} {b : RecordBatch ρ}
    (hseq : Sequenced b) (pid : Int) :
    ((producersAfter s b).get? pid).bind (·.currentTxnFirstOffset) =
      (if pid = b.producerId ∧ 0 ≤ pid then
        openAfter b ((s.get? pid).bind (·.currentTxnFirstOffset))
      else (s.get? pid).bind (·.currentTxnFirstOffset)) ∧
    (((producersAfter s b).get? pid).map (·.coordinatorEpoch)).getD (-1) =
      if pid = b.producerId ∧ 0 ≤ pid then
        (markerCoordinatorEpoch b).getD (((s.get? pid).map (·.coordinatorEpoch)).getD (-1))
      else ((s.get? pid).map (·.coordinatorEpoch)).getD (-1) := by
  unfold producersAfter openAfter
  split
  · rename_i hbarrier
    simp [marker_of_barrier hbarrier]
  by_cases hneg : b.producerId < 0
  · rw [TransactionState.updateOwnedProducerEntry_of_neg hneg, if_neg (by omega), if_neg (by omega)]
    exact ⟨rfl, rfl⟩
  rw [updateOwnedProducerEntry_get? (by omega) hseq]
  by_cases hpid : pid = b.producerId
  · subst hpid
    unfold entryOf
    cases hc : b.isControlBatch with
    | true =>
      unfold updateControlEntry
      cases s.get? b.producerId <;> cases markerCoordinatorEpoch b <;>
        simp [ProducerSnapshotEntry.empty] <;> grind
    | false =>
      have hopen : ∀ first : Option Int, (if first = none then some b.baseOffset else first) =
          some (first.getD b.baseOffset) := by
        rintro (_ | first) <;> rfl
      simp only [markerCoordinatorEpoch_data hc, updateDataEntry]
      cases s.get? b.producerId <;> cases b.isTransactional <;>
        simp [ProducerSnapshotEntry.empty, hopen] <;> grind
  · simp [hpid]

theorem exists_first_of_producersOf {batches : List (RecordBatch ρ)} {pid first : Int}
    (hseq : ∀ b ∈ batches, Sequenced b)
    (h : ((producersOf batches).get? pid).bind (·.currentTxnFirstOffset) = some first) :
    ∃ b ∈ batches, b.baseOffset = first := by
  induction batches using reverseRecOn with
  | nil => cases h
  | append_singleton batches b ih =>
    have hstep : producersOf (batches ++ [b]) = producersAfter (producersOf batches) b := by
      simp [producersOf]
    have hprev : ((producersOf batches).get? pid).bind (·.currentTxnFirstOffset) = some first →
        ∃ x ∈ batches ++ [b], x.baseOffset = first := by
      intro h
      obtain ⟨x, hx, hbase⟩ := ih (fun x hx => hseq x (mem_append_left _ hx)) h
      exact ⟨x, mem_append_left _ hx, hbase⟩
    rw [hstep, (producersAfter_get? (hseq b (by simp)) pid).1] at h
    split at h
    · unfold openAfter at h
      split_ifs at h
      · cases hopen : ((producersOf batches).get? pid).bind (·.currentTxnFirstOffset) with
        | none =>
          rw [hopen] at h
          exact ⟨b, by simp, Option.some.inj h⟩
        | some opened =>
          rw [hopen] at h
          exact hprev (hopen.trans h)
      · exact hprev h
    · exact hprev h

namespace TransactionState

variable {s s' : TransactionState} {b : RecordBatch ρ} {row : Option AbortedTxn}

/-- The open transactions and the coordinator epochs are those of the entries. -/
structure Derived (s : TransactionState) : Prop where
  pending_eq : ∀ pid, s.pending.get? pid =
    (s.producerState.get? pid).bind (·.currentTxnFirstOffset)
  coordinatorEpoch_eq : ∀ pid, s.coordinatorEpoch pid =
    ((s.producerState.get? pid).map (·.coordinatorEpoch)).getD (-1)
  nonneg : ∀ pid, pid < 0 → s.producerState.get? pid = none

theorem derived_empty : empty.Derived :=
  ⟨fun _ => rfl, fun _ => rfl, fun _ _ => rfl⟩

theorem Derived.pending_of_neg (h : s.Derived) {pid : Int} (hneg : pid < 0) :
    s.pending.get? pid = none := by
  rw [h.pending_eq, h.nonneg pid hneg]
  rfl

theorem Derived.pending_ext (h : s.Derived) (h' : s'.Derived)
    (heq : s.producerState = s'.producerState) : s.pending = s'.pending := by
  apply ext_get?
  intro pid
  rw [h.pending_eq, h'.pending_eq, heq]

theorem Derived.coordinatorEpoch_ext (h : s.Derived) (h' : s'.Derived)
    (heq : s.producerState = s'.producerState) (pid : Int) :
    s.coordinatorEpoch pid = s'.coordinatorEpoch pid := by
  rw [h.coordinatorEpoch_eq, h'.coordinatorEpoch_eq, heq]

/-! ## The append paths and the replay agree -/

theorem Derived.appendOwned_eq (h : s.Derived) (happ : s.appendOwned b = .ok (s', row)) :
    s' = s.applyRecoveredBatchState b := by
  unfold appendOwned at happ
  unfold applyRecoveredBatchState
  cases hkind : controlBatchKind b with
  | none =>
    have hdata := controlBatchKind_eq_none.mp hkind
    simp only [hkind] at happ
    obtain ⟨rfl, -⟩ := Prod.mk.inj (Except.ok.inj happ)
    by_cases hneg : b.producerId < 0
    · have hnot : ¬ b.producerId ≥ 0 := by omega
      simp [hneg, hnot, updateOwnedProducerEntry_of_neg hneg]
    · have hpos : 0 ≤ b.producerId := by omega
      cases htxn : b.isTransactional <;> simp [hneg, hpos, hdata, recordPendingTransaction]
  | some kind =>
    cases kind with
    | barrier =>
      simp only [hkind] at happ
      obtain ⟨rfl, -⟩ := Prod.mk.inj (Except.ok.inj happ)
      simp
    | transaction =>
      have hcontrol : b.isControlBatch = true := by
        by_contra hc
        rw [controlBatchKind_eq_none.mpr (by simpa using hc)] at hkind
        cases hkind
      simp only [hkind, applyTransactionMarker] at happ
      cases hrow : (s.noteCoordinatorEpoch b).abortedTxn b with
      | error e => simp [hrow] at happ
      | ok r =>
        simp only [hrow] at happ
        obtain ⟨rfl, -⟩ := Prod.mk.inj (Except.ok.inj happ)
        have hpending : (s.noteCoordinatorEpoch b).pending = s.pending :=
          noteCoordinatorEpoch_pending s b
        by_cases hneg : b.producerId < 0
        · -- no transaction is open for a producer without an id
          have hnone := h.pending_of_neg hneg
          have hcloses : (s.noteCoordinatorEpoch b).closes b = false := by
            rw [closes_eq, hpending]
            simp [SortedMap.contains, hnone]
          have hnote : s.noteCoordinatorEpoch b = s := by
            unfold noteCoordinatorEpoch
            cases markerCoordinatorEpoch b <;> simp [hneg]
          rw [if_neg (by simp), if_pos hneg, updateOwnedProducerEntry_of_neg hneg]
          unfold closeTransaction
          rw [if_neg (by simp [hcloses])]
          exact hnote
        · rw [if_neg (by simp), if_neg hneg, if_pos hcontrol]
          -- the marker reads and writes the transactions and the epochs apart
          have hclose := closeTransaction_congr (s := s.noteCoordinatorEpoch b)
            (t := { s with producerState := updateOwnedProducerEntry s.producerState b }) b
            (noteCoordinatorEpoch_pending s b) (noteCoordinatorEpoch_unreplicated s b)
          apply TransactionState.ext
          · simp
          · simp [hclose.1]
          · simp [hclose.2]
          · rw [closeTransaction_coordinatorEpochs]
            refine noteCoordinatorEpoch_congr b ?_
            rw [closeTransaction_coordinatorEpochs]

theorem appendVerbatim_eq (hdata : b.isControlBatch = false) :
    s.appendVerbatim b = s.applyRecoveredBatchState b := by
  have hkind := controlBatchKind_eq_none.mpr hdata
  unfold appendVerbatim applyRecoveredBatchState
  by_cases hneg : b.producerId < 0
  · have hnot : ¬ b.producerId ≥ 0 := by omega
    simp [hkind, hneg, hnot, updateDataProducerEntry]
  · have hpos : b.producerId ≥ 0 := by omega
    cases htxn : b.isTransactional <;>
      simp [hkind, hneg, hpos, hdata, recordPendingTransaction, updateOwnedProducerEntry]

/-! ## Every batch keeps the link -/

theorem Derived.applyRecoveredBatchState (h : s.Derived) (hseq : Sequenced b) :
    (s.applyRecoveredBatchState b).Derived := by
  refine ⟨?_, ?_, ?_⟩
  · intro pid
    rw [applyRecoveredBatchState_pending_get?, applyRecoveredBatchState_producerState,
      (producersAfter_get? hseq pid).1, h.pending_eq]
  · intro pid
    rw [applyRecoveredBatchState_coordinatorEpoch, applyRecoveredBatchState_producerState,
      (producersAfter_get? hseq pid).2, h.coordinatorEpoch_eq]
  · intro pid hneg
    rw [applyRecoveredBatchState_producerState]
    unfold producersAfter
    split
    · exact h.nonneg pid hneg
    by_cases hpid : b.producerId < 0
    · rw [updateOwnedProducerEntry_of_neg hpid]
      exact h.nonneg pid hneg
    · rw [updateOwnedProducerEntry_get? (by omega) hseq, if_neg (by omega)]
      exact h.nonneg pid hneg

theorem Derived.foldl {batches : List (RecordBatch ρ)} (h : s.Derived)
    (hseq : ∀ b ∈ batches, Sequenced b) :
    (batches.foldl TransactionState.applyRecoveredBatchState s).Derived := by
  induction batches generalizing s with
  | nil => exact h
  | cons b batches ih =>
    exact ih (h.applyRecoveredBatchState (hseq b mem_cons_self))
      fun x hx => hseq x (mem_cons_of_mem b hx)

/-! ## A restored snapshot -/

theorem foldl_restoreEntry_frame (entries : List (Int × ProducerSnapshotEntry))
    (s : TransactionState) :
    (entries.foldl restoreEntry s).producerState = s.producerState ∧
      (entries.foldl restoreEntry s).unreplicated = s.unreplicated := by
  induction entries generalizing s with
  | nil => exact ⟨rfl, rfl⟩
  | cons entry entries ih =>
    rw [foldl_cons, (ih _).1, (ih _).2]
    exact ⟨rfl, rfl⟩

theorem restoreEntry_pending_get? (pid : Int) (s : TransactionState)
    (entry : Int × ProducerSnapshotEntry) : (restoreEntry s entry).pending.get? pid =
      if entry.1 = pid then entry.2.currentTxnFirstOffset.or (s.pending.get? pid)
      else s.pending.get? pid := by
  unfold restoreEntry
  cases entry.2.currentTxnFirstOffset <;> simp [eq_comm (a := pid)]

theorem restoreEntry_coordinatorEpoch (pid : Int) (s : TransactionState)
    (entry : Int × ProducerSnapshotEntry) : (restoreEntry s entry).coordinatorEpoch pid =
      if entry.1 = pid then
        if entry.2.coordinatorEpoch ≥ 0 then entry.2.coordinatorEpoch else s.coordinatorEpoch pid
      else s.coordinatorEpoch pid := by
  unfold restoreEntry coordinatorEpoch
  by_cases hepoch : entry.2.coordinatorEpoch ≥ 0 <;> by_cases hpid : entry.1 = pid <;>
    simp [hpid, eq_comm (a := pid), hepoch]

theorem derived_ofSnapshot {producers : ProducerState}
    (hvalid : ∀ pid e, producers.get? pid = some e → -1 ≤ e.coordinatorEpoch)
    (hnonneg : ∀ pid, pid < 0 → producers.get? pid = none) : (ofSnapshot producers).Derived := by
  have hframe := foldl_restoreEntry_frame producers.entries
    { empty with producerState := producers }
  refine ⟨?_, ?_, ?_⟩ <;> intro pid <;> unfold ofSnapshot <;> rw [hframe.1]
  · refine (foldl_entries_read pid (r := fun s : TransactionState => s.pending.get? pid)
      (g := fun e first => e.currentTxnFirstOffset.or first)
        (restoreEntry_pending_get? pid) producers _).trans ?_
    cases producers.get? pid with
    | none => rfl
    | some e => exact Option.or_none
  · refine (foldl_entries_read pid (r := fun s : TransactionState => s.coordinatorEpoch pid)
      (g := fun e epoch => if e.coordinatorEpoch ≥ 0 then e.coordinatorEpoch else epoch)
      (restoreEntry_coordinatorEpoch pid) producers _).trans ?_
    cases he : producers.get? pid with
    | none => rfl
    | some e =>
      have hlow := hvalid pid e he
      dsimp only
      split
      · rfl
      · change -1 = e.coordinatorEpoch
        omega
  · exact hnonneg pid

end TransactionState

end Krabka.Log

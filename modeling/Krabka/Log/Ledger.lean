import Krabka.Log.Sound

/-!
# The transactions of a log

The ledger of a list of batches says which transactions it holds: those still
open, and those that an end marker closed.  It is what the batches say, in
contrast to the transaction state, which is what the log keeps about them.
`Held` relates the two.
-/

namespace Krabka.Log

open List Extent TransactionState

variable {ρ : Type}

/-- The transactions that a list of batches holds. -/
structure Ledger where
  /-- The first offset of each producer's open transaction. -/
  opened : SortedMap Int Int
  /-- The first offset and the marker offset of each transaction that ended. -/
  closed : List (Int × Int)

def endsTransaction (b : RecordBatch ρ) : Bool := (markerCoordinatorEpoch b).isSome

namespace Ledger

def empty : Ledger := ⟨.empty, []⟩

/-- A batch of a transaction opens it, the end marker of its producer closes it. -/
def record (g : Ledger) (b : RecordBatch ρ) : Ledger :=
  if b.producerId < 0 then g
  else if endsTransaction b then
    match g.opened.get? b.producerId with
    | some first => ⟨g.opened.erase b.producerId, g.closed ++ [(first, b.lastOffset)]⟩
    | none => g
  else if !b.isControlBatch && b.isTransactional then
    { g with opened := g.opened.orInsert b.producerId b.baseOffset }
  else g

def of (batches : List (RecordBatch ρ)) : Ledger := batches.foldl record empty

theorem of_append (xs ys : List (RecordBatch ρ)) : of (xs ++ ys) = ys.foldl record (of xs) :=
  foldl_append

theorem record_empty (b : RecordBatch ρ) : empty.record b = empty ∨
    ∃ first, (empty.record b).opened.get? b.producerId = some first := by
  unfold record
  split
  · exact .inl rfl
  · split
    · exact .inl rfl
    · split
      · exact .inr ⟨b.baseOffset, (SortedMap.get?_orInsert ..).trans (if_pos rfl)⟩
      · exact .inl rfl

variable {g : Ledger} {b : RecordBatch ρ} {first marker : Int}

theorem mem_closed_record (h : (first, marker) ∈ (g.record b).closed) :
    (first, marker) ∈ g.closed ∨ marker = b.lastOffset := by
  unfold record at h
  split at h
  · exact .inl h
  · split at h
    · split at h
      · rcases mem_append.mp h with h | h
        · exact .inl h
        · exact .inr (Prod.mk.inj (mem_singleton.mp h)).2
      · exact .inl h
    · split at h
      · exact .inl h
      · exact .inl h

theorem closed_prefix_record (g : Ledger) (b : RecordBatch ρ) :
    g.closed <+: (g.record b).closed := by
  unfold record
  split
  · exact prefix_rfl
  · split
    · split
      · exact prefix_append _ _
      · exact prefix_rfl
    · split <;> exact prefix_rfl

theorem closed_prefix_foldl (g : Ledger) (batches : List (RecordBatch ρ)) :
    g.closed <+: (batches.foldl record g).closed := by
  induction batches generalizing g with
  | nil => exact prefix_rfl
  | cons b batches ih => exact (closed_prefix_record g b).trans (ih (g.record b))

theorem marker_lt_endOf {a : Int} {batches : List (RecordBatch ρ)} (hord : Ordered a batches)
    (hg : ∀ first marker, (first, marker) ∈ g.closed → marker < a)
    (h : (first, marker) ∈ (batches.foldl record g).closed) : marker < endOf a batches := by
  induction batches generalizing a g with
  | nil => exact hg first marker h
  | cons b batches ih =>
    obtain ⟨hlow, hspan, hrest⟩ := ordered_cons.mp hord
    rw [endOf_cons]
    refine ih hrest ?_ h
    intro first marker hmem
    rcases mem_closed_record hmem with hmem | rfl
    · have hlt := hg first marker hmem
      have hnext : a ≤ next b := hlow.trans (hspan.trans (Int.le_add_one le_rfl))
      omega
    · exact Int.lt_succ _

theorem marker_lt {a : Int} {batches : List (RecordBatch ρ)} (hord : Ordered a batches)
    (h : (first, marker) ∈ (of batches).closed) : marker < endOf a batches :=
  marker_lt_endOf hord (fun _ _ hmem => absurd hmem not_mem_nil) h

/-- The state `s` holds back every transaction of the ledger that is open or whose
marker is not below `hw`. -/
structure Held (g : Ledger) (hw : Int) (s : TransactionState) : Prop where
  opened : ∀ pid, s.pending.get? pid = g.opened.get? pid
  closed : ∀ first marker, (first, marker) ∈ g.closed → hw ≤ marker →
    ∃ m, s.unreplicated.get? first = some m ∧ marker ≤ m

theorem held_empty (hw : Int) : Held empty hw .empty where
  opened _ := rfl
  closed _ _ h := absurd h not_mem_nil

variable {hw : Int} {s : TransactionState}

theorem pending_record (h : ∀ pid, s.pending.get? pid = g.opened.get? pid) (pid : Int) :
    (s.applyRecoveredBatchState b).pending.get? pid = (g.record b).opened.get? pid := by
  have hopen := h b.producerId
  rw [applyRecoveredBatchState_pending_get?, h pid]
  unfold record openAfter endsTransaction
  grind [SortedMap.get?_erase, SortedMap.get?_orInsert]

theorem Held.applyRecoveredBatchState (h : g.Held hw s)
    (hlast : ∀ first marker, (first, marker) ∈ g.closed → marker ≤ b.lastOffset) :
    (g.record b).Held hw (s.applyRecoveredBatchState b) := by
  have hopen := h.opened b.producerId
  refine ⟨pending_record h.opened, ?_⟩
  · intro first marker hmem hle
    rw [applyRecoveredBatchState_unreplicated, hopen]
    unfold record endsTransaction at hmem
    split at hmem
    · rw [if_neg (by omega)]
      exact h.closed first marker hmem hle
    · rename_i hpid
      split at hmem
      · rename_i hends
        rw [if_pos ⟨by omega, hends⟩]
        cases hget : g.opened.get? b.producerId with
        | none =>
          rw [hget] at hmem
          exact h.closed first marker hmem hle
        | some start =>
          rw [hget] at hmem
          dsimp only
          rw [SortedMap.get?_insert]
          rcases mem_append.mp hmem with hmem | hmem
          · obtain ⟨m, hm, hlem⟩ := h.closed first marker hmem hle
            by_cases hfirst : first = start
            · exact ⟨b.lastOffset, if_pos hfirst, hlast first marker hmem⟩
            · exact ⟨m, (if_neg hfirst).trans hm, hlem⟩
          · obtain ⟨rfl, rfl⟩ := Prod.mk.inj (mem_singleton.mp hmem)
            exact ⟨b.lastOffset, if_pos rfl, le_rfl⟩
      · rename_i hends
        rw [if_neg (fun h => hends h.2)]
        refine h.closed first marker ?_ hle
        split at hmem <;> exact hmem

theorem Held.foldl {a : Int} {batches : List (RecordBatch ρ)}
    (h : g.Held hw s) (hord : Ordered a batches)
    (hg : ∀ first marker, (first, marker) ∈ g.closed → marker < a) :
    (batches.foldl record g).Held hw
      (batches.foldl TransactionState.applyRecoveredBatchState s) := by
  induction batches generalizing a g s with
  | nil => exact h
  | cons b batches ih =>
    obtain ⟨hlow, hspan, hrest⟩ := ordered_cons.mp hord
    have hlow' : a ≤ b.baseOffset := hlow
    have hspan' : b.baseOffset ≤ b.lastOffset := hspan
    have hlast : ∀ first marker, (first, marker) ∈ g.closed → marker ≤ b.lastOffset := by
      intro first marker hmem
      have hlt := hg first marker hmem
      omega
    refine ih (h.applyRecoveredBatchState hlast) hrest ?_
    intro first marker hmem
    have hnext : next b = b.lastOffset + 1 := rfl
    rcases mem_closed_record hmem with hmem | rfl
    · have hle := hlast first marker hmem
      omega
    · omega

/-! ## What a replay forgets -/

/-- The first unstable offset of a log that ends at `logEnd` when the transactions
whose markers lie below `start` hold nothing back. -/
def stableFrom (g : Ledger) (logEnd start : Int) : Int :=
  ((logEnd :: g.opened.values ++ (g.closed.filter (start ≤ ·.2)).map Prod.fst).min?).getD logEnd

/-- The state `s` holds back the open transactions of the ledger and those whose
marker is not below `start`, and no others. -/
structure Replayed (g : Ledger) (start : Int) (s : TransactionState) : Prop where
  opened : ∀ pid, s.pending.get? pid = g.opened.get? pid
  closed : ∀ first, (∃ last, s.unreplicated.get? first = some last) ↔
    ∃ marker, (first, marker) ∈ g.closed ∧ start ≤ marker

variable {start : Int}

theorem Replayed.applyRecoveredBatchState (h : g.Replayed start s) (hle : start ≤ b.lastOffset) :
    (g.record b).Replayed start (s.applyRecoveredBatchState b) := by
  refine ⟨pending_record h.opened, fun first => ?_⟩
  have hclosed := h.closed first
  rw [applyRecoveredBatchState_unreplicated, h.opened b.producerId]
  unfold record endsTransaction
  by_cases hpid : b.producerId < 0
  · rw [if_neg (by omega), if_pos hpid]
    exact hclosed
  · rw [if_neg hpid]
    by_cases hends : (markerCoordinatorEpoch b).isSome
    · rw [if_pos ⟨by omega, hends⟩, if_pos hends]
      cases g.opened.get? b.producerId with
      | none => exact hclosed
      | some opened =>
        simp only [SortedMap.get?_insert, mem_append, mem_singleton, Prod.mk.injEq]
        by_cases hfirst : first = opened
        · simp only [hfirst, if_true, Option.some.injEq, exists_eq', true_and, true_iff]
          exact ⟨b.lastOffset, .inr rfl, hle⟩
        · simpa [hfirst] using hclosed
    · rw [if_neg (fun h => hends h.2), if_neg hends]
      split <;> exact hclosed

theorem Replayed.foldl {batches : List (RecordBatch ρ)} (h : g.Replayed start s)
    (hle : ∀ b ∈ batches, start ≤ b.lastOffset) :
    (batches.foldl record g).Replayed start
      (batches.foldl TransactionState.applyRecoveredBatchState s) := by
  induction batches generalizing g s with
  | nil => exact h
  | cons b batches ih =>
    exact ih (h.applyRecoveredBatchState (hle b mem_cons_self))
      fun x hx => hle x (mem_cons_of_mem b hx)

theorem Replayed.refreshLso {logEnd lso : Int} (h : g.Replayed start s)
    (hlso : s.refreshLso logEnd = .ok lso) : g.stableFrom logEnd start = lso := by
  have hholds : ∀ first, s.Holds first ↔ first ∈ g.opened.values ++
      (g.closed.filter (start ≤ ·.2)).map Prod.fst := by
    intro first
    rw [holds_iff, h.closed, mem_append, SortedMap.mem_values_iff]
    simp [h.opened]
  obtain ⟨hend, hle⟩ := refreshLso_le hlso
  have hmin : (logEnd :: (g.opened.values ++
      (g.closed.filter (start ≤ ·.2)).map Prod.fst)).min? = some lso := by
    rw [min?_eq_some_iff]
    refine ⟨?_, ?_⟩
    · rcases refreshLso_mem hlso with rfl | hmem
      · exact mem_cons_self
      · exact mem_cons_of_mem _ ((hholds lso).mp hmem)
    · intro first hfirst
      rcases mem_cons.mp hfirst with rfl | hfirst
      · exact hend
      · exact hle first ((hholds first).mpr hfirst)
  unfold stableFrom
  rw [cons_append, hmin]
  rfl

end Ledger

namespace PartitionLog

variable {l l' : PartitionLog ρ}

theorem pending_get?_eq {batches : List (RecordBatch ρ)} {s : TransactionState}
    (hord : Ordered 0 batches) (hseq : ∀ b ∈ batches, Sequenced b) (hs : s.Derived)
    (hproducers : s.producerState = producersOf batches) (pid : Int) :
    s.pending.get? pid = (Ledger.of batches).opened.get? pid := by
  have hfold := derived_empty.foldl hseq
  have hheld := (Ledger.held_empty 0).foldl hord nofun
  have hsame : s.producerState = (batches.foldl
      TransactionState.applyRecoveredBatchState TransactionState.empty).producerState := by
    rw [foldl_producerState, hproducers]
    rfl
  rw [hs.pending_ext hfold hsame]
  exact hheld.opened pid

theorem Sound.pending_eq (h : l.Sound) (pid : Int) :
    l.state.pending.get? pid = (Ledger.of l.batches).opened.get? pid :=
  pending_get?_eq h.laid.ordered h.sequenced h.derived h.producers pid

theorem ledger_eq_empty {batches : List (RecordBatch ρ)} (hord : Ordered 0 batches)
    (hseq : ∀ b ∈ batches, Sequenced b) (h : producersOf batches = .empty) :
    Ledger.of batches = .empty := by
  induction batches using reverseRecOn with
  | nil => rfl
  | append_singleton batches b ih =>
    have hinit := ih (ordered_append.mp hord).1 (fun y hy => hseq y (mem_append_left [b] hy))
      (producersOf_eq_empty_of_append [b] h)
    have hopened := pending_get?_eq hord hseq derived_empty h.symm b.producerId
    rw [Ledger.of_append, hinit, foldl_cons, foldl_nil] at hopened ⊢
    -- a batch of a transaction would leave one open
    rcases Ledger.record_empty b with hempty | ⟨first, hfirst⟩
    · exact hempty
    · rw [hfirst] at hopened
      cases hopened

theorem Rebuilt.restored (h : Rebuilt l l') (hlaid : l.Laid)
    (hseq : ∀ b ∈ l.batches, Sequenced b) : ∃ restored : TransactionState,
    (∀ pid, restored.pending.get? pid =
      (Ledger.of (below l.reloadOffset l.batches)).opened.get? pid) ∧
      restored.unreplicated = .empty ∧
      l'.state = (above l.reloadOffset l.batches).foldl applyRecoveredBatchState restored := by
  obtain ⟨restored, hproducers, hderived, hunreplicated, hstate⟩ := h.replayed
  exact ⟨restored, pending_get?_eq (hlaid.ordered.below _)
    (fun b hb => hseq b (mem_below.mp hb).1) hderived hproducers, hunreplicated, hstate⟩

/-- A rebuild holds back what the batches behind its snapshot close, and no other
transaction that is closed. -/
theorem Rebuilt.replayedLedger (h : Rebuilt l l') (hlaid : l.Laid)
    (hseq : ∀ b ∈ l.batches, Sequenced b) :
    (Ledger.of l.batches).Replayed l.reloadOffset l'.state := by
  obtain ⟨restored, hopened, hunreplicated, hstate⟩ := h.restored hlaid hseq
  have hrestored : (Ledger.of (below l.reloadOffset l.batches)).Replayed l.reloadOffset
      restored := by
    refine ⟨hopened, fun first => ?_⟩
    rw [hunreplicated]
    refine ⟨fun hget => by simp at hget, ?_⟩
    rintro ⟨marker, hmem, hle⟩
    have hlt := Ledger.marker_lt (hlaid.ordered.below l.reloadOffset) hmem
    have hend := endOf_below_le h.nonneg l.batches
    omega
  have habove : ∀ b ∈ above l.reloadOffset l.batches, l.reloadOffset ≤ b.lastOffset :=
    fun b hb => (mem_above.mp hb).2
  have hall := hrestored.foldl habove
  rwa [← Ledger.of_append, hlaid.ordered.below_append_above, ← hstate] at hall

end PartitionLog

end Krabka.Log

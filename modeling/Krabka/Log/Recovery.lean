import Krabka.Log.Layout
import Krabka.Log.StateReplay

/-!
# The recovery of the producer state

A recovery restores the newest snapshot and replays the batches behind it
through reads of 1 MiB.  It reaches the state of all the batches when those
reads go in order, which `ReadsInOrder` says: a read from an offset inside no
batch returns a run of the batches from there on.  `Log::read` does not ensure
that.  A batch larger than the budget that is left makes it pass over the rest
of the segment and go on with the next one.

`SnapshotsOf` says that the snapshots on disk hold the producer entries of the
batches below them; the snapshots that a replay writes do too.
-/

namespace Krabka.Log

open Extent TransactionState List

variable {ρ : Type}

/-! ## The first unstable offset -/

theorem firstUnstableOffset_eq_some {starts : List Int} {logEnd lso : Int} :
    firstUnstableOffset starts logEnd = some lso ↔
      (∀ start ∈ starts, start ≤ logEnd) ∧ (logEnd :: starts).min? = some lso := by
  have hany : starts.any (logEnd < ·) = true ↔ ¬ ∀ start ∈ starts, start ≤ logEnd := by
    simp
  unfold firstUnstableOffset
  by_cases hall : ∀ start ∈ starts, start ≤ logEnd
  · rw [if_neg (by rw [hany]; exact not_not_intro hall)]
    exact ⟨fun h => ⟨hall, h⟩, fun h => h.2⟩
  · rw [if_pos (hany.mpr hall)]
    exact ⟨nofun, fun h => absurd h.1 hall⟩

namespace TransactionState

variable {s : TransactionState} {logEnd lso : Int}

/-- The offsets that hold the first unstable offset back. -/
def Holds (s : TransactionState) (start : Int) : Prop :=
  start ∈ s.pending.values ∨ start ∈ s.unreplicated.keys

theorem holds_iff {start : Int} : s.Holds start ↔
    (∃ pid, s.pending.get? pid = some start) ∨ ∃ last, s.unreplicated.get? start = some last := by
  refine or_congr SortedMap.mem_values_iff ?_
  rw [SortedMap.mem_keys_iff, SortedMap.contains]
  exact Option.isSome_iff_exists

theorem pendingBounds_spec (s : TransactionState) :
    (s.pending.values = [] ∧ s.pendingBounds = none) ∨
      ∃ first last, s.pendingBounds = some (first, last) ∧ first ∈ s.pending.values ∧
        last ∈ s.pending.values ∧ ∀ v ∈ s.pending.values, first ≤ v ∧ v ≤ last := by
  unfold pendingBounds
  cases hv : s.pending.values with
  | nil => exact .inl ⟨rfl, rfl⟩
  | cons v values =>
    right
    obtain ⟨first, hfirst⟩ := isSome_min?_of_mem (mem_cons_self : v ∈ v :: values) |>
      Option.isSome_iff_exists.mp
    obtain ⟨last, hlast⟩ := isSome_max?_of_mem (mem_cons_self : v ∈ v :: values) |>
      Option.isSome_iff_exists.mp
    have hmin := min?_eq_some_iff.mp hfirst
    have hmax := max?_eq_some_iff.mp hlast
    refine ⟨first, last, ?_, hmin.1, hmax.1, fun x hx => ⟨hmin.2 x hx, hmax.2 x hx⟩⟩
    rw [hfirst, hlast]

theorem head_le_of_mem_keys {m : SortedMap Int Int} {k : Int} (hk : k ∈ m.keys) :
    ∃ head, m.keys.head? = some head ∧ head ≤ k := by
  have hsorted := m.sorted
  unfold SortedMap.keys at hk ⊢
  cases hm : m.entries.map Prod.fst with
  | nil =>
    rw [hm] at hk
    cases hk
  | cons head keys =>
    rw [hm] at hk hsorted
    refine ⟨head, rfl, ?_⟩
    rcases mem_cons.mp hk with rfl | hk
    · exact le_rfl
    · exact ((pairwise_cons.mp hsorted).1 k hk).le

theorem refreshLso_le (h : s.refreshLso logEnd = .ok lso) :
    lso ≤ logEnd ∧ ∀ start, s.Holds start → lso ≤ start := by
  unfold refreshLso at h
  simp only at h
  split at h
  · rename_i found hfound
    cases h
    have hmin := (min?_eq_some_iff.mp (firstUnstableOffset_eq_some.mp hfound).2).2
    refine ⟨hmin logEnd mem_cons_self, ?_⟩
    rintro start (hstart | hstart)
    · rcases s.pendingBounds_spec with ⟨hnil, -⟩ | ⟨first, last, hbounds, -, -, hle⟩
      · rw [hnil] at hstart
        cases hstart
      · have hfirst := hmin first (by simp [hbounds])
        exact hfirst.trans (hle start hstart).1
    · obtain ⟨head, hhead, hle⟩ := head_le_of_mem_keys hstart
      exact (hmin head (by simp [hhead])).trans hle
  · cases h

theorem refreshLso_mem (h : s.refreshLso logEnd = .ok lso) : lso = logEnd ∨ s.Holds lso := by
  unfold refreshLso at h
  simp only at h
  split at h
  · rename_i found hfound
    cases h
    have hmem := (min?_eq_some_iff.mp (firstUnstableOffset_eq_some.mp hfound).2).1
    have hbounds : ∀ start ∈ [(s.pendingBounds.getD (logEnd, logEnd)).1,
        (s.pendingBounds.getD (logEnd, logEnd)).2], start = logEnd ∨ s.Holds start := by
      rcases s.pendingBounds_spec with ⟨-, hnone⟩ | ⟨first, last, hsome, hfirst, hlast, -⟩
      · simp [hnone]
      · simp [hsome, Holds, hfirst, hlast]
    have hcompleted : s.unreplicated.keys.head?.getD logEnd = logEnd ∨
        s.Holds (s.unreplicated.keys.head?.getD logEnd) := by
      cases hhead : s.unreplicated.keys.head? with
      | none => exact .inl rfl
      | some head => exact .inr (.inr (mem_of_head? hhead))
    simp only [mem_cons, not_mem_nil, or_false] at hmem
    rcases hmem with rfl | rfl | rfl | rfl
    exacts [.inl rfl, hbounds _ (by simp), hbounds _ (by simp), hcompleted]
  · cases h

theorem refreshLso_ok (h : ∀ start, s.Holds start → start ≤ logEnd) :
    ∃ lso, s.refreshLso logEnd = .ok lso := by
  have hbounds : (s.pendingBounds.getD (logEnd, logEnd)).1 ≤ logEnd ∧
      (s.pendingBounds.getD (logEnd, logEnd)).2 ≤ logEnd := by
    rcases s.pendingBounds_spec with ⟨-, hnone⟩ | ⟨first, last, hsome, hfirst, hlast, -⟩
    · simp [hnone]
    · rw [hsome]
      exact ⟨h first (.inl hfirst), h last (.inl hlast)⟩
  have hcompleted : s.unreplicated.keys.head?.getD logEnd ≤ logEnd := by
    cases hhead : s.unreplicated.keys.head? with
    | none => exact le_rfl
    | some head => exact h head (.inr (mem_of_head? hhead))
  obtain ⟨lso, hfound⟩ : ∃ lso, firstUnstableOffset
      [(s.pendingBounds.getD (logEnd, logEnd)).1, (s.pendingBounds.getD (logEnd, logEnd)).2,
        s.unreplicated.keys.head?.getD logEnd] logEnd = some lso :=
    ⟨_, firstUnstableOffset_eq_some.mpr ⟨by simp [hbounds, hcompleted], rfl⟩⟩
  refine ⟨lso, ?_⟩
  unfold refreshLso
  simp only
  rw [hfound]

end TransactionState

/-! ## The walk over the batches -/

section Walk

variable {σ : Type} {step : σ → RecordBatch ρ → Int → σ}

theorem recoveredBatchOffsets_ok {cursor endOffset : Int} {b : RecordBatch ρ}
    (hbase : cursor ≤ b.baseOffset) (hdelta : 0 ≤ b.lastOffsetDelta)
    (hend : b.lastOffset < endOffset) (hmax : b.lastOffset < i64Max) :
    recoveredBatchOffsets cursor endOffset b = .ok (b.lastOffset + 1) := by
  unfold RecordBatch.lastOffset at *
  have hstep : restoreBatchStep cursor b.baseOffset b.lastOffsetDelta =
      some (b.baseOffset + b.lastOffsetDelta + 1) := by
    unfold restoreBatchStep
    rw [if_neg (by omega), if_neg (by omega)]
  unfold recoveredBatchOffsets
  rw [if_neg (by omega), hstep]
  simp only
  rw [if_neg (by omega)]

theorem walkBatches_ok {endOffset cursor : Int} {batches : List (RecordBatch ρ)} {first : Bool}
    {acc : σ} (hord : Ordered cursor batches) (hmax : ∀ b ∈ batches, b.lastOffset < i64Max)
    (hend : endOf cursor batches ≤ endOffset) :
    walkBatches endOffset step first cursor acc batches =
      .ok (endOf cursor batches,
        batches.foldl (fun acc b => step acc b (b.lastOffset + 1)) acc) := by
  induction batches generalizing cursor acc first with
  | nil => rfl
  | cons b batches ih =>
    obtain ⟨hlow, hspan, hrest⟩ := ordered_cons.mp hord
    have hlow' : cursor ≤ b.baseOffset := hlow
    have hspan' : b.baseOffset ≤ b.baseOffset + b.lastOffsetDelta := hspan
    have hcursor : replayCursor first cursor b = cursor := by
      cases first with
      | false => rfl
      | true => exact min_eq_left hlow'
    have hlast : b.lastOffset < endOffset :=
      (hord.last_lt_endOf mem_cons_self).trans_le hend
    rw [walkBatches, hcursor, recoveredBatchOffsets_ok hlow' (by omega) hlast
      (hmax b mem_cons_self)]
    simp only
    have hrest' : Ordered (b.lastOffset + 1) batches := hrest
    rw [ih hrest' (fun x hx => hmax x (mem_cons_of_mem b hx))
      (by rwa [endOf_cons] at hend), endOf_cons]
    rfl

end Walk

namespace PartitionLog

variable {l : PartitionLog ρ}

/-- From every offset inside no batch, a recovery read returns a run of the
batches from there on, and not an empty one. -/
def ReadsInOrder (l : PartitionLog ρ) : Prop :=
  ∀ next, 0 ≤ next → next < l.logEndOffset → Between next l.batches →
    ∃ b batches, l.read next recoveryReadSize = .ok (b :: batches) ∧
      (b :: batches) <+: above next l.batches

theorem Laid.above_eq_nil (h : l.Laid) {next : Int} (hge : l.logEndOffset ≤ next) :
    above next l.batches = [] := by
  rw [h.logEndOffset_eq] at hge
  exact h.ordered.above_eq_nil hge

theorem Laid.walk_ok (h : l.Laid) (hreads : l.ReadsInOrder) {σ : Type}
    {noProgress stuck : Int → LogError} {step : σ → RecordBatch ρ → Int → σ} {fuel : Nat}
    {first : Bool} {next : Int} {acc : σ} (hzero : 0 ≤ next) (hnext : Between next l.batches)
    (hfuel : (l.logEndOffset - next).toNat ≤ fuel) :
    l.walk noProgress stuck step fuel first next acc =
      .ok ((above next l.batches).foldl (fun acc b => step acc b (b.lastOffset + 1)) acc) := by
  induction fuel generalizing first next acc with
  | zero =>
    have hge : next ≥ l.logEndOffset := by omega
    rw [walk, if_pos hge, h.above_eq_nil hge]
    rfl
  | succ fuel ih =>
    by_cases hge : next ≥ l.logEndOffset
    · rw [walk, if_pos hge, h.above_eq_nil hge]
      rfl
    · obtain ⟨b, batches, hread, rest, hrun⟩ := hreads next hzero (by omega) hnext
      have hord := h.ordered.above_of_between hnext
      have hmem : ∀ x ∈ b :: batches, x ∈ l.batches := by
        intro x hx
        have habove : x ∈ above next l.batches := by
          rw [← hrun]
          exact mem_append_left rest hx
        exact (mem_above.mp habove).1
      have hbatches : Ordered next (b :: batches) := by
        rw [← hrun] at hord
        exact (ordered_append.mp hord).1
      have hend : endOf next (b :: batches) ≤ l.logEndOffset := by
        obtain ⟨init, x, hlast⟩ := (eq_nil_or_concat' (b :: batches)).resolve_left (by simp)
        have hx : x ∈ b :: batches := by
          rw [hlast]
          simp
        have hlt := h.lastOffset_lt (hmem x hx)
        rw [hlast, endOf_concat]
        exact hlt
      have hadvance : next < endOf next (b :: batches) := by
        have hlow := hbatches.lower b mem_cons_self
        have hspan := hbatches.spans b mem_cons_self
        have hlast := hbatches.last_lt_endOf (mem_cons_self : b ∈ b :: batches)
        omega
      rw [walk, if_neg hge, hread]
      simp only
      rw [walkBatches_ok hbatches (fun x hx => h.bounded (hmem x hx)) hend]
      simp only
      rw [if_neg (by omega), ih (by omega) (h.ordered.between_endOf hnext hrun.symm) (by omega),
        h.ordered.above_endOf hrun.symm, ← hrun, foldl_append]

end PartitionLog

/-! ## Snapshots -/

/-- Every snapshot stands at the end of the batches below it and holds their
producer entries. -/
def SnapshotsOf (batches : List (RecordBatch ρ)) (snapshots : SortedMap Int ProducerState) : Prop :=
  ∀ offset producers, snapshots.get? offset = some producers →
    0 < offset ∧ endOf 0 (below offset batches) = offset ∧
      producers = producersOf (below offset batches)

section Snapshots

variable {batches : List (RecordBatch ρ)} {snapshots : SortedMap Int ProducerState}

theorem snapshotsOf_empty (batches : List (RecordBatch ρ)) : SnapshotsOf batches .empty := by
  intro offset producers h
  simp at h

theorem SnapshotsOf.retain (h : SnapshotsOf batches snapshots) (p : Int → Bool) :
    SnapshotsOf batches (snapshots.retain p) := by
  intro offset producers hget
  rw [SortedMap.get?_retain] at hget
  split at hget
  · exact h offset producers hget
  · cases hget

theorem SnapshotsOf.write (h : SnapshotsOf batches snapshots) {offset : Int}
    {producers : ProducerState} (hpos : 0 < offset) (hend : endOf 0 (below offset batches) = offset)
    (heq : producers = producersOf (below offset batches)) :
    SnapshotsOf batches (writeSnapshot snapshots offset producers) := by
  intro offset' producers' hget
  unfold writeSnapshot at hget
  rw [SortedMap.get?_orInsert] at hget
  split at hget
  · rename_i hoffset
    subst hoffset
    cases hold : snapshots.get? offset' with
    | none =>
      rw [hold] at hget
      cases hget
      exact ⟨hpos, hend, heq⟩
    | some old =>
      rw [hold] at hget
      cases hget
      exact h offset' _ hold
  · exact h offset' producers' hget

theorem SnapshotsOf.below (h : SnapshotsOf batches snapshots) {cut : Int}
    (hcut : ∀ offset producers, snapshots.get? offset = some producers → offset ≤ cut) :
    SnapshotsOf (Extent.below cut batches) snapshots := by
  intro offset producers hget
  have hle := hcut offset producers hget
  rw [below_below hle]
  exact h offset producers hget

theorem SnapshotsOf.append (h : SnapshotsOf batches snapshots) (hord : Ordered 0 batches)
    {more : List (RecordBatch ρ)} (hmore : Ordered (endOf 0 batches) more) :
    SnapshotsOf (batches ++ more) snapshots := by
  intro offset producers hget
  obtain ⟨hpos, hend, heq⟩ := h offset producers hget
  have hle : offset ≤ endOf 0 batches := by
    have hle := hord.endOf_below_le_endOf offset
    omega
  rw [below_append, hmore.below_eq_nil hle, append_nil]
  exact ⟨hpos, hend, heq⟩

/-- The snapshots that a replay writes at segment boundaries hold the entries of
the batches below them.  The induction is on the batches still to replay, `done`
being the ones before them. -/
theorem foldl_replay (done todo : List (RecordBatch ρ)) (r : Replay)
    (hord : Ordered 0 (done ++ todo)) (hstate : r.state.producerState = producersOf done)
    (hsnap : SnapshotsOf (done ++ todo) r.snapshots)
    (hbound : ∀ offset ∈ r.boundaries, endOf 0 done < offset ∧
      endOf 0 (below offset (done ++ todo)) = offset) :
    (todo.foldl (fun r b => r.step b (b.lastOffset + 1)) r).state =
        todo.foldl applyRecoveredBatchState r.state ∧
      SnapshotsOf (done ++ todo)
        (todo.foldl (fun r b => r.step b (b.lastOffset + 1)) r).snapshots := by
  induction todo generalizing done r with
  | nil => exact ⟨rfl, hsnap⟩
  | cons b todo ih =>
    have hassoc : done ++ b :: todo = (done ++ [b]) ++ todo := by simp
    have hproducers : (r.state.applyRecoveredBatchState b).producerState =
        producersOf (done ++ [b]) := by
      rw [applyRecoveredBatchState_producerState, hstate]
      simp [producersOf]
    obtain ⟨hdone, hrest⟩ := ordered_append.mp hord
    obtain ⟨hlow, hspan, htodo⟩ := ordered_cons.mp hrest
    -- a boundary that the batch reaches is its end
    have hcovered : ∀ offset ∈ r.boundaries, offset ≤ b.lastOffset + 1 →
        below offset (done ++ b :: todo) = done ++ [b] := by
      intro offset hoffset hle
      obtain ⟨hgt, hend⟩ := hbound offset hoffset
      have hkept : below offset done = done := hdone.below_eq_self hgt.le
      have hgone : below offset todo = [] := htodo.below_eq_nil hle
      by_cases hlast : last b < offset
      · have hb : below offset (b :: todo) = [b] := by
          unfold Extent.below at hgone ⊢
          rw [filter_cons_of_pos (by simpa using hlast), hgone]
        rw [below_append, hkept, hb]
      · have hb : below offset (b :: todo) = [] := by
          unfold Extent.below at hgone ⊢
          rw [filter_cons_of_neg (by simpa using hlast), hgone]
        rw [below_append, hkept, hb, append_nil] at hend
        omega
    have hwritten : ∀ covered : List Int, (∀ offset ∈ covered, offset ∈ r.boundaries ∧
        offset ≤ b.lastOffset + 1) → ∀ snapshots, SnapshotsOf (done ++ b :: todo) snapshots →
        SnapshotsOf (done ++ b :: todo) (covered.foldl (fun s boundary => writeSnapshot s boundary
          (r.state.applyRecoveredBatchState b).producerState) snapshots) := by
      intro covered
      induction covered with
      | nil => exact fun _ snapshots hs => hs
      | cons offset covered ihc =>
        intro hcov snapshots hs
        obtain ⟨hmem, hle⟩ := hcov offset mem_cons_self
        obtain ⟨hgt, hend⟩ := hbound offset hmem
        have hpos : 0 < offset := hdone.le_endOf.trans_lt hgt
        refine ihc (fun x hx => hcov x (mem_cons_of_mem offset hx)) _
          (hs.write hpos hend ?_)
        rw [hcovered offset hmem hle, hproducers]
    rw [foldl_cons, foldl_cons]
    have hstep := ih (done ++ [b]) (r.step b (b.lastOffset + 1))
      (hassoc ▸ hord) hproducers ?_ ?_
    · rw [hassoc]
      exact hstep
    · rw [← hassoc]
      refine hwritten _ ?_ _ hsnap
      intro offset hoffset
      obtain ⟨hmem, hle⟩ := mem_filter.mp hoffset
      exact ⟨hmem, by simpa using hle⟩
    · intro offset hoffset
      obtain ⟨hmem, hgt⟩ := mem_filter.mp hoffset
      rw [← hassoc, endOf_concat]
      have hgt' : b.lastOffset + 1 < offset := by simpa using hgt
      exact ⟨hgt', (hbound offset hmem).2⟩

end Snapshots

/-! ## What a replay leaves unreplicated -/

theorem foldl_unreplicated {done todo : List (RecordBatch ρ)} {s : TransactionState}
    {first last : Int} (hproducers : s.producerState = producersOf done) (hderived : s.Derived)
    (hseq : ∀ b ∈ done ++ todo, Sequenced b)
    (hget : (todo.foldl applyRecoveredBatchState s).unreplicated.get? first =
      some last) :
    s.unreplicated.get? first = some last ∨ ∃ b ∈ done ++ todo, b.baseOffset = first := by
  induction todo generalizing done s with
  | nil => exact .inl hget
  | cons b todo ih =>
    have hproducers' :
        (s.applyRecoveredBatchState b).producerState = producersOf (done ++ [b]) := by
      rw [applyRecoveredBatchState_producerState, hproducers]
      simp [producersOf]
    have hassoc : done ++ b :: todo = (done ++ [b]) ++ todo := by simp
    rcases ih hproducers' (hderived.applyRecoveredBatchState (hseq b (by simp)))
      (hassoc ▸ hseq) hget with hold | hnew
    · -- the batch itself completes the transaction, or it was complete before
      rcases s.applyRecoveredBatchState_unreplicated_get? b first with hsame | hpending
      · exact .inl (hsame ▸ hold)
      · rw [hderived.pending_eq, hproducers] at hpending
        obtain ⟨x, hx, hbase⟩ := exists_first_of_producersOf
          (fun x hx => hseq x (mem_append_left _ hx)) hpending
        exact .inr ⟨x, mem_append_left _ hx, hbase⟩
    · rw [hassoc]
      exact .inr hnew

end Krabka.Log

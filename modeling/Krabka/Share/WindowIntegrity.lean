import Krabka.Share.Lifecycle

/-!
# Window integrity

The geometry and the locks are `Valid`.  This module adds the two counters of a
window: its `delivery_complete_count`, which is kept by `i32` additions while
runs turn terminal and are pruned, and the first run, which is terminal only
between a `finish_archiving` and the next operation that prunes.
-/

namespace Krabka.Share

open Run AcquisitionState Delivery

def terminals (s : AcquisitionState) : Int := weigh isTerminal s.batches

def FirstTerminal (s : AcquisitionState) : Prop :=
  s.batches.head?.any (fun b => b.value.isTerminal) = true

instance (s : AcquisitionState) : Decidable (FirstTerminal s) :=
  inferInstanceAs (Decidable (_ = _))

/-! ## `i32` sums that fit -/

variable {n : Int}

theorem saturate_of_fits (h : i32Min ≤ n) (h' : n ≤ i32Max) : saturate n = n := by
  unfold saturate
  omega

theorem clampI32_of_fits (h : i32Min ≤ n) (h' : n ≤ i32Max) : clampI32 n = n :=
  if_pos ⟨h, h'⟩

theorem wrap_of_fits (h : i32Min ≤ n) (h' : n ≤ i32Max) : wrap n = n := by
  unfold i32Min at h
  unfold i32Max at h'
  unfold wrap
  rw [Int.bmod_eq_of_le] <;> omega

/-! ## The count through a pass -/

theorem Turn.count {kind : TurnKind} {k k' : ArchiveSink} {b : InFlightBatch} {v : Delivery}
    (h : Turn kind k b v k') (hlen : 1 ≤ b.len) (hnonneg : 0 ≤ k.deliveryCompleteCount)
    (hfits : k.deliveryCompleteCount + (if v.isTerminal then b.len else 0) ≤ i32Max) :
    k'.deliveryCompleteCount = k.deliveryCompleteCount + if v.isTerminal then b.len else 0 := by
  have hmin : i32Min ≤ 0 := by decide
  have hkeep : ∀ {v' : Delivery}, v'.isTerminal = false →
      k.deliveryCompleteCount = k.deliveryCompleteCount + if v'.isTerminal then b.len else 0 := by
    intro v' hv'
    rw [hv', if_neg (by simp), add_zero]
  cases h with
  | settle state hstate _ =>
    have hterm : isTerminal { b.value.clearAcquisition with state := state } = true := hstate
    rw [if_pos hterm] at hfits ⊢
    rw [clampI32_of_fits (by omega) (by omega), wrap_of_fits (by omega) hfits]
  | archive _ =>
    have hterm : isTerminal { b.value.clearAcquisition with state := .archived } = true :=
      rfl
    rw [if_pos hterm] at hfits ⊢
    rw [clampI32_of_fits (by omega) (by omega), saturate_of_fits (by omega) hfits]
  | finish _ =>
    have hterm : isTerminal { b.value with state := .archived } = true := rfl
    rw [if_pos hterm] at hfits ⊢
    rw [clampI32_of_fits (by omega) (by omega), saturate_of_fits (by omega) hfits]
  | renew deadline hstate =>
    exact hkeep (by simp [isTerminal, hstate, RecordState.isTerminal])
  | acquire | release | queue | defer | promote => exact hkeep rfl

section

variable {ok : TurnKind → InFlightBatch → Prop}

theorem Pass.weigh_le {k k' : ArchiveSink} {rs rs' : List InFlightBatch} {a e : Int}
    (h : Pass (Turning ok) k rs rs' k') (htiles : Tiles rs a e) :
    weigh isTerminal rs ≤ weigh isTerminal rs' := by
  induction h generalizing a with
  | nil => exact le_rfl
  | keep _ ih =>
    have := ih htiles.2.2
    simp only [weigh]
    omega
  | @turn _ r v _ _ _ _ hturn _ ih =>
    have hrest := ih htiles.2.2
    have hne := htiles.2.1
    obtain ⟨kind, -, hturn⟩ := hturn
    simp only [weigh, hturn.not_terminal, Bool.false_eq_true, if_false, len]
    split <;> omega

/-- **The count follows the terminal offsets** as long as they fit its type. -/
theorem Pass.count {k k' : ArchiveSink} {rs rs' : List InFlightBatch} {a e : Int}
    (h : Pass (Turning ok) k rs rs' k') (htiles : Tiles rs a e)
    (hnonneg : 0 ≤ k.deliveryCompleteCount) (hfits : k.deliveryCompleteCount +
      (weigh isTerminal rs' - weigh isTerminal rs) ≤ i32Max) :
    k'.deliveryCompleteCount = k.deliveryCompleteCount +
      (weigh isTerminal rs' - weigh isTerminal rs) := by
  induction h generalizing a with
  | nil => omega
  | keep _ ih =>
    simp only [weigh] at hfits ⊢
    rw [ih htiles.2.2 hnonneg (by omega)]
    omega
  | @turn k r v k₁ rs rs' k' hturn hpass ih =>
    have hgrow := Pass.weigh_le hpass htiles.2.2
    obtain ⟨kind, -, hturn⟩ := hturn
    have hlen : 1 ≤ r.len := by
      have := htiles.2.1
      rw [len]
      omega
    have hgain : (0 : Int) ≤ if v.isTerminal then r.len else 0 := by split <;> omega
    have hnew : len { r with value := v } = r.len := rfl
    simp only [weigh, hturn.not_terminal, Bool.false_eq_true, if_false, hnew] at hfits ⊢
    -- This run first, then the rest of the walk.
    have hstep := hturn.count hlen hnonneg (by omega)
    rw [ih htiles.2.2 (by omega) (by omega), hstep]
    omega

end

/-! ## The count through an action -/

/-- The count is the number of terminal offsets, and that number fits. -/
structure Counted (s : AcquisitionState) : Prop where
  count : s.deliveryCompleteCount = terminals s
  fits : terminals s ≤ i32Max

section

variable {s s' : AcquisitionState} {ok : TurnKind → InFlightBatch → Prop}

theorem Counted.rewritten (hc : Counted s) (hv : Valid s) (h : Rewritten ok s s')
    (hfits : terminals s' ≤ i32Max) : Counted s' := by
  obtain ⟨⟨rs₁, rs₂, h₁, hpass, h₂⟩, -, -⟩ := h
  have htiles₁ := (h₁ _ _ hv.tiles).1
  have htiles₂ := hpass.tiles htiles₁
  have hbefore : weigh isTerminal rs₁ = terminals s := h₁.weigh_eq hv.tiles _
  have hafter : terminals s' = weigh isTerminal rs₂ := h₂.weigh_eq htiles₂ _
  have hsink : s.sink.deliveryCompleteCount = terminals s := hc.count
  have hnonneg : 0 ≤ terminals s := hv.tiles.weigh_nonneg _
  have hcount := Pass.count hpass htiles₁ (by omega) (by omega)
  have hsink' : s'.sink.deliveryCompleteCount = s'.deliveryCompleteCount := rfl
  exact ⟨by omega, hfits⟩

theorem tally_filter (done : List InFlightBatch) (c : Int) {a e : Int} (htiles : Tiles done a e)
    (hc : 0 ≤ c) (hfits : c + weigh isTerminal done ≤ i32Max) :
    tally c (done.filter fun b => b.value.isTerminal) = c + weigh isTerminal done := by
  induction done generalizing a c with
  | nil => simp [tally, weigh]
  | cons b done ih =>
    obtain ⟨-, hne, hrest⟩ := htiles
    have hmin : i32Min ≤ 0 := by decide
    have hnonneg := hrest.weigh_nonneg isTerminal
    have hlen : 1 ≤ b.len := by rw [len]; omega
    rw [weigh] at hfits ⊢
    cases hb : b.value.isTerminal with
    | false =>
      rw [hb, if_neg (by simp)] at hfits
      rw [List.filter_cons_of_neg (by simp [hb]), if_neg (by simp), ih c hrest hc (by omega)]
      omega
    | true =>
      rw [hb, if_pos rfl] at hfits
      have hsum : saturate (c + clampI32 b.len) = c + b.len := by
        rw [clampI32_of_fits (by omega) (by omega), saturate_of_fits (by omega) (by omega)]
      have htally : tally c (b :: done.filter fun b => b.value.isTerminal) =
          tally (saturate (c + clampI32 b.len)) (done.filter fun b => b.value.isTerminal) := rfl
      rw [List.filter_cons_of_pos (p := fun b : InFlightBatch => b.value.isTerminal) hb, if_pos rfl,
        htally, hsum, ih _ hrest (by omega) (by omega)]
      omega

theorem tally_eq {done : List InFlightBatch} {a e c : Int} (htiles : Tiles done a e)
    (hterm : ∀ b ∈ done, b.value.isTerminal = true) (hc : 0 ≤ c)
    (hfits : c + weigh isTerminal done ≤ i32Max) : tally c done = c + weigh isTerminal done := by
  have h := tally_filter done c htiles hc hfits
  rwa [List.filter_eq_self.mpr hterm] at h

theorem Counted.prunes {done rest : List InFlightBatch} (hc : Counted s) (hv : Valid s)
    (h : Prunes s s' done rest) : Counted s' := by
  have hrest := h.rest_tiles hv.tiles
  have hterm : terminals s' = weigh isTerminal rest := h.runs.weigh_eq hrest _
  have hall : terminals s = weigh isTerminal done + weigh isTerminal rest := by
    rw [terminals, h.batches, weigh_append]
  have hnonneg := h.tiles.weigh_nonneg isTerminal
  have hnonneg' := hrest.weigh_nonneg isTerminal
  have hmin : i32Min ≤ 0 := by decide
  have hcount := hc.count
  have hfits := hc.fits
  have htally := tally_eq (c := 0) h.tiles h.terminal le_rfl (by omega)
  refine ⟨?_, by omega⟩
  rw [h.count]
  split
  · rename_i hnil
    rw [hnil] at hall
    simp only [weigh] at hall
    omega
  · rw [htally, saturate_of_fits (by omega) (by omega)]
    omega

theorem Counted.advanceSpso (hc : Counted s) (hv : Valid s) : Counted s.advanceSpso := by
  obtain ⟨done, rest, h⟩ := advanceSpso_prunes hv.tiles
  exact hc.prunes hv h

theorem Counted.jumpTo (hc : Counted s) (hv : Valid s) (logStart : Int) :
    Counted (s.jumpTo logStart) := by
  rcases jumpTo_cases hv.tiles logStart with h | ⟨-, -, h⟩
  · rw [h]
    exact hc
  · rw [h]
    exact ⟨hc.count, hc.fits⟩

theorem Counted.materialize (hc : Counted s) (hv : Valid s) (hwm maxRecordLocks : Int) :
    Counted (s.materialize hwm maxRecordLocks) := by
  rcases materialize_cases s hwm maxRecordLocks with h | ⟨last, hlast, hshape⟩
  · rw [h]
    exact hc
  · have htiles : Tiles (s.batches ++ [⟨s.endOffset, last, ⟨.available, 0, none, none⟩⟩])
        s.startOffset (last + 1) := tiles_append.mpr ⟨s.endOffset, hv.tiles, rfl, hlast, rfl⟩
    have hterm : terminals (s.materialize hwm maxRecordLocks) = terminals s := by
      rw [terminals, hshape.runs.weigh_eq htiles, weigh_append]
      simp [weigh, terminals, isTerminal, RecordState.isTerminal]
    have hcount : (s.materialize hwm maxRecordLocks).deliveryCompleteCount =
        s.deliveryCompleteCount := congrArg ArchiveSink.deliveryCompleteCount hshape.sink
    exact ⟨by rw [hcount, hterm, hc.count], hterm ▸ hc.fits⟩

theorem Counted.reloadSettled (hv : Valid s) (fresh : AcquisitionState)
    (stateEpoch leaderEpoch : Int)
    (hfits : terminals (reloadSettled s fresh stateEpoch leaderEpoch) ≤ i32Max) :
    Counted (reloadSettled s fresh stateEpoch leaderEpoch) := by
  have htiles := (hv.reloadSettled fresh stateEpoch leaderEpoch).tiles
  refine ⟨?_, hfits⟩
  have htally := tally_filter _ 0 htiles le_rfl (by rw [zero_add]; exact hfits)
  rw [zero_add] at htally
  exact htally

/-- The terminal offsets fit the count where the action has settled. -/
def CountFits (s : AcquisitionState) (a : Action) (_ : AcquisitionState) : Prop :=
  terminals (a.settled s) ≤ i32Max

instance (s : AcquisitionState) (a : Action) (s' : AcquisitionState) :
    Decidable (CountFits s a s') :=
  inferInstanceAs (Decidable (_ ≤ _))

theorem Counted.settled (hc : Counted s) (hv : Valid s) (a : Action)
    (hfits : terminals (a.settled s) ≤ i32Max) : Counted (a.settled s) := by
  cases a with
  | reload fresh stateEpoch leaderEpoch =>
    exact Counted.reloadSettled hv fresh stateEpoch leaderEpoch hfits
  | op operation =>
    by_cases hplain : operation.IsPlain
    · exact hc.rewritten hv (settled_rewritten hv.tiles hplain) hfits
    · cases operation with
      | materialize hwm maxRecordLocks => exact hc.materialize hv hwm maxRecordLocks
      | setDlqEnabled | takePendingDlq => exact ⟨hc.count, hc.fits⟩
      | _ => exact absurd trivial hplain

theorem Counted.action (hc : Counted s) (hv : Valid s) (a : Action)
    (hfits : terminals (a.settled s) ≤ i32Max) : Counted (a.run s) := by
  have hsettled := hc.settled hv a hfits
  cases a with
  | reload fresh stateEpoch leaderEpoch =>
    exact hsettled.advanceSpso (hv.reloadSettled fresh stateEpoch leaderEpoch)
  | op operation =>
    have hvs := hv.settled operation
    have hcs : Counted (operation.settled s) := hsettled
    show Counted (operation.run s)
    rcases run_cases s operation with ⟨h, -⟩ | ⟨dirty, h⟩ | ⟨logStart, -, -, h⟩
    · rw [h]
      exact hcs
    · have hdirty : Counted { operation.settled s with dirty := dirty } := ⟨hcs.count, hcs.fits⟩
      rw [h]
      exact hdirty.advanceSpso (hvs.dirty dirty)
    · rw [h]
      exact (hcs.advanceSpso hvs).jumpTo hvs.advanceSpso logStart

theorem counted_of_reachable (h : (system.restrict CountFits).Reachable s) :
    Valid s ∧ Counted s := by
  refine h.invariant (P := fun s => Valid s ∧ Counted s) ?_ ?_
  · rintro s ⟨start, rfl⟩
    exact ⟨new_valid start, rfl, show (0 : Int) ≤ i32Max by decide⟩
  · rintro s a s' ⟨hv, hc⟩ ⟨rfl, hfits⟩
    exact ⟨hv.action a, hc.action hv a hfits⟩

/-! ## The first run -/

theorem firstTerminal_iff (hv : Valid s) : FirstTerminal s ↔ IsTerminal s s.startOffset := by
  unfold FirstTerminal IsTerminal AcquisitionState.cell
  have htiles := hv.tiles
  cases hcases : s.batches with
  | nil => simp [lookup]
  | cons b rest =>
    rw [hcases] at htiles
    have hcov : b.Covers s.startOffset := ⟨le_of_eq htiles.1, htiles.1 ▸ htiles.2.1⟩
    rw [lookup, if_pos hcov]
    simp

theorem advanceSpso_firstTerminal (hv : Valid s) : ¬ FirstTerminal s.advanceSpso := by
  obtain ⟨done, rest, h⟩ := advanceSpso_prunes hv.tiles
  intro hfirst
  obtain ⟨b, hb, hterm⟩ := (Option.any_eq_true _ _).mp hfirst
  rw [h.head hv.tiles b hb] at hterm
  cases hterm

theorem jumpTo_firstTerminal (hv : Valid s) {logStart : Int}
    (h : FirstTerminal (s.jumpTo logStart)) : FirstTerminal s := by
  rcases jumpTo_cases hv.tiles logStart with heq | ⟨-, -, heq⟩
  · rw [heq] at h
    exact h
  · rw [heq] at h
    exact h

/-- **Only `finish_archiving` leaves a terminal first run** where there was none. -/
theorem action_firstTerminal (hv : Valid s) (a : Action) (h : FirstTerminal (a.run s)) :
    FirstTerminal s ∨ ∃ first last, a = .op (.finishArchiving first last) := by
  cases a with
  | reload fresh stateEpoch leaderEpoch =>
    exact absurd h (advanceSpso_firstTerminal (hv.reloadSettled fresh stateEpoch leaderEpoch))
  | op operation =>
    have hvs := hv.settled operation
    have hrun : FirstTerminal (operation.run s) := h
    rcases run_cases s operation with ⟨heq, hkind⟩ | ⟨dirty, heq⟩ | ⟨logStart, -, -, heq⟩
    · have hstart : (operation.settled s).startOffset = s.startOffset :=
        (settled_bounds hv (.op operation)).1
      rw [heq, firstTerminal_iff hvs, hstart] at hrun
      obtain ⟨d, hd, hterm⟩ := hrun
      rcases hkind with hquiet | hshape
      · -- The turns of these operations are not to a terminal state, but for one.
        rcases op_cell hv operation s.startOffset with
          hsame | ⟨hmakes, -, hturn, -, hafter⟩ | ⟨-, -, hafter⟩ | ⟨d', hbefore, hafter⟩
        · exact .inl ((firstTerminal_iff hv).mpr ⟨d, hsame.symm.trans hd, hterm⟩)
        · rw [hd] at hafter
          rw [Option.some.inj hafter] at hterm
          cases operation with
          | finishArchiving first last => exact .inr ⟨first, last, rfl⟩
          | renew member first last now lockDur =>
            obtain rfl : _ = TurnKind.renew := hmakes
            cases hturn with
            | renew deadline hstate =>
              simp [isTerminal, hstate, RecordState.isTerminal] at hterm
          | deferInternal first last =>
            obtain rfl : _ = TurnKind.defer := hmakes
            cases hturn with
            | defer _ => exact absurd hterm (by simp [isTerminal, RecordState.isTerminal])
          | promoteDeferred =>
            obtain rfl : _ = TurnKind.promote := hmakes
            cases hturn with
            | promote _ =>
              exact absurd hterm (by simp [isTerminal, RecordState.isTerminal])
          | materialize | setDlqEnabled | takePendingDlq => exact hmakes.elim
          | _ => exact hquiet.elim
        · rw [hd] at hafter
          rw [Option.some.inj hafter] at hterm
          cases hterm
        · rw [hd] at hafter
          rw [Option.some.inj hafter, reread_isTerminal] at hterm
          exact .inl ((firstTerminal_iff hv).mpr ⟨d', hbefore, hterm⟩)
      · have hcell : s.cell s.startOffset = some d :=
          ((hshape.runs _ _ hv.tiles).2 s.startOffset).symm.trans hd
        exact .inl ((firstTerminal_iff hv).mpr ⟨d, hcell, hterm⟩)
    · rw [heq] at hrun
      exact absurd hrun (advanceSpso_firstTerminal (hvs.dirty dirty))
    · rw [heq] at hrun
      exact absurd (jumpTo_firstTerminal hvs.advanceSpso hrun) (advanceSpso_firstTerminal hvs)

theorem terminals_eq_card (hv : Valid s) :
    terminals s =
      ((Finset.Ico s.startOffset s.endOffset).filter fun o => IsTerminal s o).card := by
  rw [terminals, hv.tiles.weigh_eq_card]
  congr 2
  ext o
  simp only [Finset.mem_filter, and_congr_right_iff]
  intro _
  exact Option.any_eq_true _ _

end

/-- **Window integrity.**  In every state that operations and reloads reach the
runs tile the window, locks fit states, the window never moves back, and a
terminal first run is what a `finish_archiving` left, until the next prune.  The
count is the number of terminal offsets as long as that number fits an `i32`. -/
theorem window_integrity :
    (∀ s, system.Reachable s →
      Tiles s.batches s.startOffset s.endOffset ∧
        (∀ b ∈ s.batches, b.value.LockFits) ∧
        (∀ a : Action, s.startOffset ≤ (a.run s).startOffset ∧
          s.endOffset ≤ (a.run s).endOffset) ∧
        (∀ a : Action, FirstTerminal (a.run s) →
          FirstTerminal s ∨ ∃ first last, a = .op (.finishArchiving first last)) ∧
        ¬ FirstTerminal (Op.pruneTerminalPrefix.run s)) ∧
      ∀ s, (system.restrict CountFits).Reachable s →
        s.deliveryCompleteCount =
          ((Finset.Ico s.startOffset s.endOffset).filter fun o => IsTerminal s o).card := by
  constructor
  · intro s h
    have hv := valid_of_reachable h
    exact ⟨hv.tiles, hv.locks, action_bounds hv, action_firstTerminal hv,
      advanceSpso_firstTerminal hv⟩
  · intro s h
    obtain ⟨hv, hc⟩ := counted_of_reachable h
    rw [hc.count, terminals_eq_card hv]

/-- A rejected record whose dead-letter record is written: `finish_archiving`
without the prune, and then an operation that does not prune. -/
def finishedUnpruned : AcquisitionState :=
  [Op.setDlqEnabled true, .materialize 1 10, .acquireShaped ⟨"m", ⟨1, none⟩, 9, 0, 30, 5⟩,
    .acknowledge "m" 0 0 .reject 5, .takePendingDlq, .finishArchiving 0 0,
    .promoteDeferred].foldl Op.run (.new 0)

/-- Two full materializations, the first of them deferred, and all but one of
their records archived. -/
def overfull : AcquisitionState :=
  [Op.materialize 1099511627776 2147483647, .deferInternal 0 1099511627776,
    .materialize 1099511627776 2147483647, .archiveInternal 1 1099511627776].foldl Op.run (.new 0)

/-- After `promote_deferred` the first run can be terminal, and a window of more
terminal offsets than an `i32` can count has a saturated count. -/
theorem window_integrity_fails :
    FirstTerminal finishedUnpruned ∧
      system.Reachable overfull ∧ overfull.deliveryCompleteCount = 2147483647 ∧
      ((Finset.Ico overfull.startOffset overfull.endOffset).filter fun o =>
        IsTerminal overfull o).card = 4294967293 := by
  have hreach : system.Reachable overfull := reachable_foldl (reachable_new 0) _
  refine ⟨by decide, hreach, by decide, ?_⟩
  have hcard := terminals_eq_card (valid_of_reachable hreach)
  have hterm : terminals overfull = 4294967293 := by decide
  rw [hterm] at hcard
  exact_mod_cast hcard.symm

theorem window_integrity_accepted :
    ∃ s, (system.restrict CountFits).Reachable s ∧ s.deliveryCompleteCount = 1 ∧
      ((Finset.Ico s.startOffset s.endOffset).filter fun o => IsTerminal s o).card = 1 := by
  have hreach : (system.restrict CountFits).Reachable
      ([Action.op (.materialize 3 10), .op (.acquireShaped ⟨"m", ⟨3, none⟩, 9, 0, 30, 5⟩),
        .op (.acknowledge "m" 1 1 .accept 5)].foldl Action.run (.new 0)) :=
    .foldl CountFits (.init ⟨0, rfl⟩) (fun s a hok => ⟨rfl, hok⟩) (by decide)
  refine ⟨_, hreach, by decide, ?_⟩
  have hcount := window_integrity.2 _ hreach
  have hone : ([Action.op (.materialize 3 10), .op (.acquireShaped ⟨"m", ⟨3, none⟩, 9, 0, 30, 5⟩),
      .op (.acknowledge "m" 1 1 .accept 5)].foldl Action.run
        (.new 0)).deliveryCompleteCount = 1 := by
    decide
  rw [hone] at hcount
  exact_mod_cast hcount.symm

end Krabka.Share

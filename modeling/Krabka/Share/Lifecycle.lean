import Krabka.Share.Steps

/-!
# The lifecycle of a record

What a run of operations can do to one offset.  The offset is read off the
window with `cell`; `action_cell` follows it through an operation up to the
point where the start offset moves (it stays, makes one `Turn`, or enters the
window), and `action_leaves` and `settled_bounds` through the end of it.

`Done` is the end of a lifecycle: the offset is acknowledged or archived, or lies
below the start offset.  No operation and no reload leads out of it.
-/

namespace Krabka.Share

open Run AcquisitionState Option

variable (s : AcquisitionState)

/-- The delivery of an offset of the window. -/
def AcquisitionState.cell (o : Int) : Option Delivery :=
  lookup s.batches o

def Holds (member : Member) (o : Int) : Prop :=
  ∃ b ∈ s.batches, b.Covers o ∧ b.value.state = .acquired ∧ b.value.acquiredBy = some member

def IsAcquired (o : Int) : Prop :=
  ∃ d, s.cell o = some d ∧ d.state = .acquired

def IsTerminal (o : Int) : Prop :=
  ∃ d, s.cell o = some d ∧ d.isTerminal = true

/-- The offset is complete, in the window or below it. -/
def Done (o : Int) : Prop := IsTerminal s o ∨ o < s.startOffset

instance (s : AcquisitionState) (o : Int) : Decidable (IsTerminal s o) :=
  decidable_of_iff ((s.cell o).any Delivery.isTerminal = true) (any_eq_true _ _)

instance (s : AcquisitionState) (o : Int) : Decidable (IsAcquired s o) :=
  decidable_of_iff ((s.cell o).any (fun d => d.state == .acquired) = true) (by
    simp [IsAcquired, any_eq_true])

section

variable {s : AcquisitionState}

theorem Holds.cell {member : Member} {o : Int} (hv : Valid s) (h : Holds s member o) :
    ∃ d, s.cell o = some d ∧ d.acquiredBy = some member := by
  obtain ⟨b, hb, hcov, -, howner⟩ := h
  exact ⟨b.value, hv.tiles.lookup_of_mem hb hcov, howner⟩

/-! ## One action -/

/-- The ways in which an action may treat an offset before the start offset
moves. -/
inductive CellStep (s s' : AcquisitionState) (ok : TurnKind → InFlightBatch → Prop) (o : Int) : Prop
  | same (h : s'.cell o = s.cell o)
  | turn {kind k b v k'} (hok : ok kind b) (hcov : b.Covers o) (h : Turn kind k b v k')
      (hbefore : s.cell o = some b.value) (hafter : s'.cell o = some v)
  | enter (hbefore : s.cell o = none) (hend : s.endOffset ≤ o)
      (hafter : s'.cell o = some ⟨.available, 0, none, none⟩)
  | reread (d : Delivery) (hbefore : s.cell o = some d) (hafter : s'.cell o = some d.reread)

theorem materialize_cell (hv : Valid s) (hwm maxRecordLocks o : Int) :
    CellStep s (s.materialize hwm maxRecordLocks) (fun _ _ => False) o := by
  rcases materialize_cases s hwm maxRecordLocks with h | ⟨last, hlast, hshape⟩
  · exact .same (by rw [h])
  · have htiles : Tiles (s.batches ++ [⟨s.endOffset, last, ⟨.available, 0, none, none⟩⟩])
        s.startOffset (last + 1) := tiles_append.mpr ⟨s.endOffset, hv.tiles, rfl, hlast, rfl⟩
    have hcell := (hshape.runs _ _ htiles).2 o
    rw [lookup_append] at hcell
    by_cases hin : (⟨s.endOffset, last, ⟨.available, 0, none, none⟩⟩ : InFlightBatch).Covers o
    · have hnone := hv.tiles.lookup_eq_none (o := o) (.inr hin.1)
      refine .enter hnone hin.1 ?_
      rw [hnone, lookup, if_pos hin] at hcell
      exact hcell
    · refine .same ?_
      rw [lookup, if_neg hin] at hcell
      exact hcell.trans or_none

/-- **What an operation does to an offset before the start offset moves.** -/
theorem op_cell (hv : Valid s) (op : Op) (o : Int) : CellStep s (op.settled s) op.Makes o := by
  by_cases hplain : op.IsPlain
  · rcases (settled_rewritten hv.tiles hplain).runs.lookup hv.tiles o with
      h | ⟨k, b, v, k', ⟨kind, hmakes, hturn⟩, hcov, hbefore, hafter⟩
    · exact .same h
    · exact .turn hmakes hcov hturn hbefore hafter
  · cases op with
    | materialize hwm maxRecordLocks =>
      rcases materialize_cell hv hwm maxRecordLocks o with h | hno | ⟨h₁, h₂, h₃⟩ | ⟨d, h₁, h₂⟩
      · exact .same h
      · exact hno.elim
      · exact .enter h₁ h₂ h₃
      · exact .reread d h₁ h₂
    | setDlqEnabled | takePendingDlq => exact .same rfl
    | _ => exact absurd trivial hplain

theorem reload_cell (fresh : AcquisitionState) (stateEpoch leaderEpoch o : Int) :
    (reloadSettled s fresh stateEpoch leaderEpoch).cell o = (s.cell o).map Delivery.reread := by
  rw [AcquisitionState.cell, reloadSettled_batches, lookup_mapValue]
  rfl

def Action.Makes : Action → TurnKind → InFlightBatch → Prop
  | .op operation => operation.Makes
  | .reload .. => fun _ _ => False

theorem action_cell (hv : Valid s) (a : Action) (o : Int) : CellStep s (a.settled s) a.Makes o := by
  cases a with
  | op operation => exact op_cell hv operation o
  | reload fresh stateEpoch leaderEpoch =>
    have hcell := reload_cell (s := s) fresh stateEpoch leaderEpoch o
    cases hs : s.cell o with
    | none =>
      rw [hs] at hcell
      exact .same (hcell.trans hs.symm)
    | some d =>
      rw [hs] at hcell
      exact .reread d hs hcell

/-! ## The end of an action -/

/-- What leaves the window at the end of an action, and what stays. -/
structure Leaves (s s' : AcquisitionState) (below : Int → Prop) : Prop where
  start_le : s.startOffset ≤ s'.startOffset
  end_le : s.endOffset ≤ s'.endOffset
  above : ∀ o, s'.startOffset ≤ o → s'.cell o = s.cell o
  passed : ∀ o, s.startOffset ≤ o → o < s'.startOffset →
    IsTerminal s o ∨ (s.cell o = none ∧ below o)

theorem Leaves.refl (s : AcquisitionState) (below : Int → Prop) : Leaves s s below :=
  ⟨le_rfl, le_rfl, fun _ _ => rfl, fun o h₁ h₂ => by omega⟩

theorem advanceSpso_leaves (hv : Valid s) (below : Int → Prop) : Leaves s s.advanceSpso below := by
  obtain ⟨done, rest, h⟩ := advanceSpso_prunes hv.tiles
  exact ⟨h.start_le, le_of_eq h.endOffset.symm, fun o ho => h.lookup_above hv.tiles ho,
    fun o h₁ h₂ => .inl (h.lookup_below h₁ h₂)⟩

theorem jumpTo_leaves (hv : Valid s) (logStart : Int) :
    Leaves s (s.jumpTo logStart) (fun o => o < logStart) := by
  rcases jumpTo_cases hv.tiles logStart with h | ⟨hempty, hlt, h⟩
  · rw [h]
    exact .refl s _
  · have hend : s.startOffset = s.endOffset := by
      have := hv.tiles
      rw [hempty] at this
      exact this
    rw [h]
    refine ⟨hlt.le, by dsimp only; omega, fun o _ => rfl, fun o _ h₂ => .inr ⟨?_, h₂⟩⟩
    rw [AcquisitionState.cell, hempty]
    rfl

/-- Offsets below this have no records any more when the action ends. -/
def Action.LogStart : Action → Int → Prop
  | .op (.advancePastLogStart logStart), o => o < logStart
  | _, _ => False

theorem Leaves.trans {s' s'' : AcquisitionState} {below : Int → Prop} (h : Leaves s s' below)
    (h' : Leaves s' s'' below) : Leaves s s'' below := by
  refine ⟨h.start_le.trans h'.start_le, h.end_le.trans h'.end_le, fun o ho => ?_,
    fun o hlow hhigh => ?_⟩
  · rw [h'.above o ho, h.above o (h'.start_le.trans ho)]
  · by_cases hpassed : o < s'.startOffset
    · exact h.passed o hlow hpassed
    · have hcell := h.above o (by omega)
      rcases h'.passed o (by omega) hhigh with ⟨d, hd, hterm⟩ | ⟨hnone, hbelow⟩
      · exact .inl ⟨d, hcell.symm.trans hd, hterm⟩
      · exact .inr ⟨hcell.symm.trans hnone, hbelow⟩

theorem action_leaves (hv : Valid s) (a : Action) : Leaves (a.settled s) (a.run s) a.LogStart := by
  cases a with
  | reload fresh stateEpoch leaderEpoch =>
    exact advanceSpso_leaves (hv.reloadSettled fresh stateEpoch leaderEpoch) _
  | op operation =>
    have hsettled := hv.settled operation
    rcases run_cases s operation with ⟨h, -⟩ | ⟨dirty, h⟩ | ⟨logStart, rfl, -, h⟩
    · have hrun : (Action.op operation).run s = operation.settled s := h
      rw [hrun]
      exact .refl _ _
    · have hrun : (Action.op operation).run s =
          { operation.settled s with dirty := dirty }.advanceSpso := h
      have hleaves := advanceSpso_leaves (hsettled.dirty dirty) (Action.op operation).LogStart
      rw [hrun]
      exact ⟨hleaves.start_le, hleaves.end_le, hleaves.above, hleaves.passed⟩
    · have hrun : (Action.op (.advancePastLogStart logStart)).run s =
          ((Op.advancePastLogStart logStart).settled s).advanceSpso.jumpTo logStart := h
      rw [hrun]
      exact (advanceSpso_leaves hsettled _).trans (jumpTo_leaves hsettled.advanceSpso logStart)

theorem settled_bounds (hv : Valid s) (a : Action) :
    (a.settled s).startOffset = s.startOffset ∧ s.endOffset ≤ (a.settled s).endOffset := by
  cases a with
  | reload fresh stateEpoch leaderEpoch =>
    exact ⟨rfl, le_of_eq (reloadSettled_endOffset fresh stateEpoch leaderEpoch hv.tiles).symm⟩
  | op operation =>
    by_cases hplain : operation.IsPlain
    · have h := settled_rewritten hv.tiles hplain
      exact ⟨h.startOffset, le_of_eq h.endOffset.symm⟩
    · cases operation with
      | materialize hwm maxRecordLocks =>
        rcases materialize_cases s hwm maxRecordLocks with h | ⟨last, hlast, hshape⟩
        · have hrun : (Action.op (.materialize hwm maxRecordLocks)).settled s = s := h
          rw [hrun]
          exact ⟨rfl, le_rfl⟩
        · refine ⟨hshape.startOffset, ?_⟩
          have : ((Action.op (.materialize hwm maxRecordLocks)).settled s).endOffset = last + 1 :=
            hshape.endOffset
          omega
      | setDlqEnabled | takePendingDlq => exact ⟨rfl, le_rfl⟩
      | _ => exact absurd trivial hplain

/-- **The start and the end of the window never move back.** -/
theorem action_bounds (hv : Valid s) (a : Action) :
    s.startOffset ≤ (a.run s).startOffset ∧ s.endOffset ≤ (a.run s).endOffset := by
  obtain ⟨hstart, hend⟩ := settled_bounds hv a
  have hleaves := action_leaves hv a
  exact ⟨hstart ▸ hleaves.start_le, hend.trans hleaves.end_le⟩

end

/-! ## The clauses -/

theorem reread_isTerminal (d : Delivery) : d.reread.isTerminal = d.isTerminal := by
  show (RecordState.ofCode d.state.code).isTerminal = d.state.isTerminal
  cases d.state <;> decide

theorem reread_not_acquired (d : Delivery) : d.reread.state ≠ .acquired := by
  show RecordState.ofCode d.state.code ≠ .acquired
  cases d.state <;> decide

section

variable {s : AcquisitionState} {o : Int}

theorem settled_done (hv : Valid s) (a : Action) (h : Done s o) : Done (a.settled s) o := by
  rcases h with ⟨d, hd, hterm⟩ | hbelow
  · left
    rcases action_cell hv a o with hsame | ⟨-, -, hturn, hbefore, -⟩ | ⟨hnone, -, -⟩ |
      ⟨d', hbefore, hafter⟩
    · exact ⟨d, hsame.trans hd, hterm⟩
    · -- No turn leads out of a terminal state.
      rw [hd] at hbefore
      rw [some.inj hbefore, hturn.not_terminal] at hterm
      cases hterm
    · rw [hd] at hnone
      cases hnone
    · rw [hd] at hbefore
      exact ⟨d'.reread, hafter, by rw [reread_isTerminal, ← some.inj hbefore, hterm]⟩
  · right
    rw [(settled_bounds hv a).1]
    exact hbelow

theorem run_done (hv : Valid s) (a : Action) (h : Done (a.settled s) o) : Done (a.run s) o := by
  have hleaves := action_leaves hv a
  by_cases hbelow : o < (a.run s).startOffset
  · exact .inr hbelow
  · left
    rcases h with ⟨d, hd, hterm⟩ | hlow
    · exact ⟨d, (hleaves.above o (by omega)).trans hd, hterm⟩
    · have := hleaves.start_le
      omega

theorem Done.not_acquired (hv : Valid s) (h : Done s o) : ¬ IsAcquired s o := by
  rintro ⟨d, hd, hacq⟩
  rcases h with ⟨d', hd', hterm⟩ | hbelow
  · rw [hd] at hd'
    rw [← some.inj hd', Delivery.isTerminal, hacq] at hterm
    cases hterm
  · have hnone : s.cell o = none := hv.tiles.lookup_eq_none (.inl hbelow)
    rw [hnone] at hd
    cases hd

/-- **A lifecycle that has ended stays ended.** -/
theorem leads_done {s' : AcquisitionState} (hv : Valid s) (h : Done s o)
    (hlead : system.Leads s s') : ¬ IsAcquired s' o := by
  have hkeep : Valid s' ∧ Done s' o := by
    refine hlead.invariant (P := fun s => Valid s ∧ Done s o) ?_ ⟨hv, h⟩
    rintro t a t' ⟨hvt, ht⟩ rfl
    exact ⟨hvt.action a, run_done hvt a (settled_done hvt a ht)⟩
  exact hkeep.2.not_acquired hkeep.1

variable {d : Delivery}

theorem cell_of_run (hv : Valid s) (a : Action) (h : (a.run s).cell o = some d) :
    (a.settled s).cell o = some d := by
  have hin := (hv.action a).tiles.lookup_bounds h
  rw [← (action_leaves hv a).above o hin.1]
  exact h

theorem run_of_settled (hv : Valid s) (a : Action)
    (h : (a.settled s).cell o = some d) (hlive : d.isTerminal = false) :
    (a.run s).cell o = some d := by
  have hleaves := action_leaves hv a
  by_cases hbelow : o < (a.run s).startOffset
  · have hlow : (a.settled s).startOffset ≤ o := by
      have hvs : Valid (a.settled s) := by
        cases a with
        | op operation => exact hv.settled operation
        | reload fresh stateEpoch leaderEpoch =>
          exact hv.reloadSettled fresh stateEpoch leaderEpoch
      exact (hvs.tiles.lookup_bounds h).1
    rcases hleaves.passed o hlow hbelow with ⟨d', hd', hterm⟩ | ⟨hnone, -⟩
    · rw [h] at hd'
      rw [← some.inj hd', hlive] at hterm
      cases hterm
    · rw [h] at hnone
      cases hnone
  · rw [hleaves.above o (by omega)]
    exact h

theorem acquired_from_available (hv : Valid s) (a : Action) (hafter : IsAcquired (a.run s) o)
    (hbefore : ¬ IsAcquired s o) :
    ∃ d d', s.cell o = some d ∧ d.state = .available ∧ (a.run s).cell o = some d' ∧
      d'.deliveryCount = d.deliveryCount + 1 := by
  obtain ⟨d', hd', hacq⟩ := hafter
  have hsettled := cell_of_run hv a hd'
  rcases action_cell hv a o with hsame | ⟨-, -, hturn, hb, hv'⟩ | ⟨-, -, henter⟩ | ⟨d, -, hreread⟩
  · exact absurd ⟨d', hsame.symm.trans hsettled, hacq⟩ hbefore
  · rw [hsettled] at hv'
    cases hv'
    cases hturn with
    | acquire member deadline havail => exact ⟨_, _, hb, havail, hd', rfl⟩
    | settle state hstate _ =>
      have hstate' : state = .acquired := hacq
      rw [hstate'] at hstate
      cases hstate
    | renew deadline hheld => exact absurd ⟨_, hb, hheld⟩ hbefore
    | _ => exact absurd hacq (by simp [*])
  · rw [hsettled] at henter
    rw [some.inj henter] at hacq
    cases hacq
  · rw [hsettled] at hreread
    rw [some.inj hreread] at hacq
    exact absurd hacq (reread_not_acquired d)

theorem deliveryCount_unchanged (hv : Valid s) (a : Action) {d' : Delivery}
    (hbefore : s.cell o = some d) (hafter : (a.run s).cell o = some d')
    (hnot : IsAcquired s o ∨ ¬ IsAcquired (a.run s) o) : d'.deliveryCount = d.deliveryCount := by
  have hsettled := cell_of_run hv a hafter
  rcases action_cell hv a o with hsame | ⟨-, -, hturn, hb, hv'⟩ | ⟨hnone, -, -⟩ | ⟨d₀, hb, hreread⟩
  · rw [hsettled, hbefore] at hsame
    rw [some.inj hsame]
  · rw [hsettled] at hv'
    rw [hbefore] at hb
    cases hv'
    cases hb
    cases hturn with
    | acquire member deadline havail =>
      rcases hnot with ⟨d₁, hd₁, hacq⟩ | hnot
      · rw [hbefore] at hd₁
        rw [← some.inj hd₁, havail] at hacq
        cases hacq
      · exact absurd ⟨_, hafter, rfl⟩ hnot
    | _ => rfl
  · rw [hbefore] at hnone
    cases hnone
  · rw [hsettled] at hreread
    rw [hbefore] at hb
    rw [some.inj hreread, some.inj hb]
    rfl

end

/-- **The lifecycle of a record**, in every state that operations and reloads
reach and for every action `a` in it.  `a.settled s` is the state inside `a` in
which the records that `a` has completed are still in the window. -/
theorem record_lifecycle {s : AcquisitionState} (h : system.Reachable s) (o : Int) :
    (∀ m m', Holds s m o → Holds s m' o → m = m') ∧
      (∀ a : Action, IsAcquired (a.run s) o → ¬ IsAcquired s o →
        ∃ d d', s.cell o = some d ∧ d.state = .available ∧ (a.run s).cell o = some d' ∧
          d'.deliveryCount = d.deliveryCount + 1) ∧
      (∀ (a : Action) (d d' : Delivery), s.cell o = some d → (a.run s).cell o = some d' →
        IsAcquired s o ∨ ¬ IsAcquired (a.run s) o → d'.deliveryCount = d.deliveryCount) ∧
      (∀ s', Done s o → system.Leads s s' → ¬ IsAcquired s' o) ∧
      (∀ (a : Action) s', Done (a.settled s) o → system.Leads (a.run s) s' → ¬ IsAcquired s' o) ∧
      (∀ a : Action, s.startOffset ≤ o → o < (a.run s).startOffset →
        IsTerminal (a.settled s) o ∨ ∃ l, a = .op (.advancePastLogStart l) ∧ o < l) := by
  have hv := valid_of_reachable h
  refine ⟨fun m m' hm hm' => ?_, fun a => acquired_from_available hv a,
    fun a d d' => deliveryCount_unchanged hv a, fun s' hdone => leads_done hv hdone,
    fun a s' hdone => leads_done (hv.action a) (run_done hv a hdone), fun a hlow hpassed => ?_⟩
  · obtain ⟨d, hd, howner⟩ := hm.cell hv
    obtain ⟨d', hd', howner'⟩ := hm'.cell hv
    rw [hd] at hd'
    rw [← some.inj hd', howner] at howner'
    exact some.inj howner'
  · rcases (action_leaves hv a).passed o ((settled_bounds hv a).1 ▸ hlow) hpassed with
      hterm | ⟨-, hbelow⟩
    · exact .inl hterm
    · right
      cases a with
      | reload => exact hbelow.elim
      | op operation =>
        cases operation with
        | advancePastLogStart l => exact ⟨l, rfl, hbelow⟩
        | _ => exact hbelow.elim

/-- The window after three records were materialized and the first two acquired. -/
def twoAcquired : AcquisitionState :=
  [Op.materialize 3 10, .acquireShaped ⟨"m", ⟨2, none⟩, 9, 0, 30, 5⟩].foldl Op.run (.new 0)

theorem twoAcquired_reachable : system.Reachable twoAcquired :=
  reachable_foldl (reachable_new 0) _

/-- The first record of that window, once it is accepted, passes below the start
as an acknowledged one, and no run acquires it again. -/
theorem record_lifecycle_accepted :
    IsTerminal ((Op.acknowledge "m" 0 0 .accept 5).settled twoAcquired) 0 ∧
      ∀ s', system.Leads ((Op.acknowledge "m" 0 0 .accept 5).run twoAcquired) s' →
        ¬ IsAcquired s' 0 := by
  have hterm : IsTerminal ((Op.acknowledge "m" 0 0 .accept 5).settled twoAcquired) 0 := by decide
  obtain ⟨-, -, -, -, hnever, -⟩ := record_lifecycle twoAcquired_reachable 0
  exact ⟨hterm, fun s' => hnever (.op (.acknowledge "m" 0 0 .accept 5)) s' (.inl hterm)⟩

end Krabka.Share

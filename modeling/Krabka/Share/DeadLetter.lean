import Krabka.Share.Lifecycle

/-!
# Dead-letter accounting

An owner of the acquisition state takes the pending ranges with
`take_pending_dlq`, writes their dead-letter records, and passes each range to
`finish_archiving` once.  `Owner` is the state together with the ranges that are
taken and not finished, and all the ranges that were handed out since the state
was made.

`Pass.queued` says what an operation adds to `pending_dlq`: exactly the offsets
that it moves into `Archiving`.  An offset is moved there once, so that the
ranges that were ever handed out or pending never overlap.  An operation that
moves offsets out of `Archiving` does not touch the queue, and
`archive_internal` can do so to a pending range: `archive_internal_misses_queue`.
-/

namespace Krabka.Share

open Run AcquisitionState

def DlqRange.Covers (r : DlqRange) (o : Int) : Prop := r.first ≤ o ∧ o ≤ r.last

instance (r : DlqRange) (o : Int) : Decidable (r.Covers o) := inferInstanceAs (Decidable (_ ∧ _))

def coverage (rs : List DlqRange) (o : Int) : Nat := rs.countP fun r => r.Covers o

theorem coverage_append (rs rs' : List DlqRange) (o : Int) :
    coverage (rs ++ rs') o = coverage rs o + coverage rs' o :=
  List.countP_append

theorem coverage_cons (r : DlqRange) (rs : List DlqRange) (o : Int) :
    coverage (r :: rs) o = coverage rs o + if r.Covers o then 1 else 0 := by
  rw [coverage, List.countP_cons]
  simp [coverage]

variable {o : Int}

theorem coverage_pos {rs : List DlqRange} : 0 < coverage rs o ↔ ∃ r ∈ rs, r.Covers o := by
  rw [coverage, List.countP_pos_iff]
  simp

def IsArchiving (s : AcquisitionState) (o : Int) : Prop :=
  ∃ d, s.cell o = some d ∧ d.state = .archiving

instance (s : AcquisitionState) (o : Int) : Decidable (IsArchiving s o) :=
  decidable_of_iff ((s.cell o).any (fun d => d.state == .archiving) = true) (by
    simp [IsArchiving, Option.any_eq_true])

/-! ## What an operation queues -/

/-- The offsets of a list of runs that are `Archiving`. -/
def archivingIn (rs : List InFlightBatch) (o : Int) : Bool :=
  (lookup rs o).any fun d => d.state == .archiving

/-- The ranges name exactly the offsets that turn `Archiving` between the two
lists of runs, with their delivery counts. -/
structure Queues (rs rs' : List InFlightBatch) (queued : List DlqRange) : Prop where
  once : ∀ o, coverage queued o =
    if archivingIn rs' o = true ∧ archivingIn rs o = false then 1 else 0
  names : ∀ r ∈ queued, ∀ o, r.Covers o →
    ∃ d, lookup rs' o = some d ∧ d.state = .archiving ∧ d.deliveryCount = r.deliveryCount

section

variable {ok : TurnKind → InFlightBatch → Prop}

theorem Queues.nil (rs : List InFlightBatch) : Queues rs rs [] := by
  refine ⟨fun o => ?_, by simp⟩
  rw [if_neg]
  · rfl
  · rintro ⟨h, h'⟩
    rw [h] at h'
    cases h'

variable {b : InFlightBatch}

theorem archivingIn_turned (h : ¬ b.Covers o) (v : Delivery) (rs : List InFlightBatch) :
    archivingIn ({ b with value := v } :: rs) o = archivingIn rs o := by
  rw [archivingIn, archivingIn, lookup_turned_of_not h]

variable {rs rs' : List InFlightBatch} {e : Int}

theorem Queues.outside {queued : List DlqRange} (h : Queues rs rs' queued)
    (hrest' : Tiles rs' (b.lastOffset + 1) e)
    (hcov : b.Covers o) : coverage queued o = 0 := by
  by_contra hpos
  obtain ⟨r, hr, hro⟩ := coverage_pos.mp (Nat.pos_of_ne_zero hpos)
  obtain ⟨d, hd, -⟩ := h.names r hr o hro
  have hlow := (hrest'.lookup_bounds hd).1
  have hhigh := hcov.2
  omega

theorem Queues.names_behind {queued : List DlqRange} (h : Queues rs rs' queued)
    (hrest' : Tiles rs' (b.lastOffset + 1) e) (v : Delivery) {r : DlqRange} (hr : r ∈ queued)
    (hro : r.Covers o) :
    ∃ d, lookup ({ b with value := v } :: rs') o = some d ∧ d.state = .archiving ∧
      d.deliveryCount = r.deliveryCount := by
  have hout : ¬ b.Covers o := by
    intro hcov
    have hzero := h.outside hrest' hcov
    have hpos := coverage_pos.mpr ⟨r, hr, hro⟩
    omega
  rw [lookup_turned_of_not hout]
  exact h.names r hr o hro

theorem Queues.cons {queued : List DlqRange}
    {v : Delivery} (h : Queues rs rs' queued) (hrest' : Tiles rs' (b.lastOffset + 1) e)
    (hv : v.state = .archiving → b.value.state = .archiving) :
    Queues (b :: rs) ({ b with value := v } :: rs') queued := by
  refine ⟨fun o => ?_, fun r hr o hro => h.names_behind hrest' v hr hro⟩
  by_cases hcov : b.Covers o
  · rw [h.outside hrest' hcov, if_neg]
    rintro ⟨h₁, h₂⟩
    rw [archivingIn, lookup_turned_of_covers hcov] at h₁
    rw [archivingIn, lookup_of_covers hcov] at h₂
    simp only [Option.any_some, beq_iff_eq] at h₁ h₂
    exact absurd (hv h₁) (by simpa using h₂)
  · rw [h.once o, archivingIn_turned hcov, archivingIn_turned hcov b.value]

theorem Queues.cons_queued {queued : List DlqRange} {cause : Option DlqCause}
    (h : Queues rs rs' queued)
    (hrest' : Tiles rs' (b.lastOffset + 1) e) (hstate : b.value.state ≠ .archiving) :
    Queues (b :: rs)
      ({ b with value := { b.value.clearAcquisition with state := .archiving } } :: rs')
      (⟨b.firstOffset, b.lastOffset, b.value.deliveryCount, cause⟩ :: queued) := by
  refine ⟨fun o => ?_, fun r hr o hro => ?_⟩
  · rw [coverage_cons]
    have hrange : DlqRange.Covers ⟨b.firstOffset, b.lastOffset, b.value.deliveryCount, cause⟩ o ↔
        b.Covers o := Iff.rfl
    by_cases hcov : b.Covers o
    · rw [h.outside hrest' hcov, if_pos (hrange.mpr hcov), if_pos]
      refine ⟨?_, ?_⟩
      · rw [archivingIn, lookup_turned_of_covers hcov]
        rfl
      · rw [archivingIn, lookup_of_covers hcov]
        simpa using hstate
    · rw [h.once o, if_neg (fun hc => hcov (hrange.mp hc)), Nat.add_zero, archivingIn_turned hcov,
        archivingIn_turned hcov b.value]
  · rcases List.mem_cons.mp hr with rfl | hr
    · exact ⟨_, lookup_turned_of_covers (r := b) hro _ rs', rfl, rfl⟩
    · exact h.names_behind hrest' _ hr hro

theorem Turn.queue_cases {kind : TurnKind} {k k' : ArchiveSink} {v : Delivery}
    (h : Turn kind k b v k') :
    (k'.pendingDlq = k.pendingDlq ∧ v.state ≠ .archiving) ∨
      (b.value.state ≠ .archiving ∧ v = { b.value.clearAcquisition with state := .archiving } ∧
        ∃ cause, k'.pendingDlq = k.pendingDlq ++
          [⟨b.firstOffset, b.lastOffset, b.value.deliveryCount, cause⟩]) := by
  cases h with
  | queue cause _ hstate =>
    refine .inr ⟨?_, rfl, some cause, rfl⟩
    rcases hstate with h | h <;> rw [h] <;> decide
  | settle state hstate _ =>
    refine .inl ⟨rfl, ?_⟩
    rintro (rfl : state = .archiving)
    cases hstate
  | renew deadline hstate => exact .inl ⟨rfl, by rw [hstate]; decide⟩
  | acquire | release | archive | finish | defer | promote => exact .inl ⟨rfl, by simp⟩

/-- **What a pass queues is what it moves into `Archiving`.** -/
theorem Pass.queued {k k' : ArchiveSink} {a : Int}
    (h : Pass (Turning ok) k rs rs' k') (htiles : Tiles rs a e) :
    ∃ queued, k'.pendingDlq = k.pendingDlq ++ queued ∧ Queues rs rs' queued := by
  induction h generalizing a with
  | nil => exact ⟨[], by simp, .nil []⟩
  | keep hpass ih =>
    obtain ⟨queued, hpending, hq⟩ := ih htiles.2.2
    exact ⟨queued, hpending, hq.cons (hpass.tiles htiles.2.2) id⟩
  | turn hturn hpass ih =>
    obtain ⟨queued, hpending, hq⟩ := ih htiles.2.2
    have hrest' := hpass.tiles htiles.2.2
    obtain ⟨kind, -, hturn⟩ := hturn
    rcases hturn.queue_cases with ⟨hsame, hstate⟩ | ⟨hstate, rfl, cause, hadd⟩
    · rw [hsame] at hpending
      exact ⟨queued, hpending, hq.cons hrest' fun h => absurd h hstate⟩
    · rw [hadd, List.append_assoc] at hpending
      exact ⟨_, hpending, hq.cons_queued hrest' hstate⟩

theorem Rewritten.queued {s s' : AcquisitionState} (h : Rewritten ok s s') (hv : Valid s) :
    ∃ queued, s'.pendingDlq = s.pendingDlq ++ queued ∧ Queues s.batches s'.batches queued := by
  obtain ⟨⟨rs₁, rs₂, h₁, hpass, h₂⟩, -, -⟩ := h
  obtain ⟨htiles₁, hlookup₁⟩ := h₁ _ _ hv.tiles
  obtain ⟨-, hlookup₂⟩ := h₂ _ _ (hpass.tiles htiles₁)
  obtain ⟨queued, hpending, hq⟩ := Pass.queued hpass htiles₁
  refine ⟨queued, hpending, fun o => ?_, fun r hr o hro => ?_⟩
  · rw [hq.once o, archivingIn, archivingIn, archivingIn, archivingIn, hlookup₁, hlookup₂]
  · rw [hlookup₂]
    exact hq.names r hr o hro

end

/-! ## `Archiving` through an action -/

/-- The offset is in `Archiving` or behind it. -/
def Spent (s : AcquisitionState) (o : Int) : Prop := IsArchiving s o ∨ Done s o

section

variable {s : AcquisitionState} {o : Int}

theorem archivingIn_iff : archivingIn s.batches o = true ↔ IsArchiving s o := by
  rw [archivingIn, Option.any_eq_true]
  simp only [beq_iff_eq]
  rfl

theorem not_terminal_of_archiving {d : Delivery} (h : d.state = .archiving) :
    d.isTerminal = false := by
  rw [Delivery.isTerminal, h]
  rfl

theorem reread_archiving {d : Delivery} : d.reread.state = .archiving ↔ d.state = .archiving := by
  show RecordState.ofCode d.state.code = .archiving ↔ d.state = .archiving
  cases d.state <;> decide

theorem run_archiving (hv : Valid s) (a : Action) :
    IsArchiving (a.run s) o ↔ IsArchiving (a.settled s) o := by
  constructor
  · rintro ⟨d, hd, hstate⟩
    exact ⟨d, cell_of_run hv a hd, hstate⟩
  · rintro ⟨d, hd, hstate⟩
    exact ⟨d, run_of_settled hv a hd (not_terminal_of_archiving hstate), hstate⟩

theorem Turn.of_archiving {kind : TurnKind} {k k' : ArchiveSink} {b : InFlightBatch}
    {v : Delivery} (h : Turn kind k b v k') (hstate : b.value.state = .archiving) :
    (kind = .archive ∨ kind = .finish) ∧ v.isTerminal = true := by
  cases h with
  | archive _ => exact ⟨.inl rfl, rfl⟩
  | finish _ => exact ⟨.inr rfl, rfl⟩
  | queue _ _ h => rcases h with h | h <;> rw [h] at hstate <;> cases hstate
  | acquire _ _ h | release h | settle _ _ h | defer h | promote h | renew _ h =>
    rw [h] at hstate
    cases hstate

theorem spent_action (hv : Valid s) (a : Action) (h : Spent s o) : Spent (a.run s) o := by
  rcases h with ⟨d, hd, hstate⟩ | hdone
  · rcases action_cell hv a o with
      hsame | ⟨-, -, hturn, hbefore, hafter⟩ | ⟨hnone, -, -⟩ | ⟨d', hbefore, hafter⟩
    · exact .inl ((run_archiving hv a).mpr ⟨d, hsame.trans hd, hstate⟩)
    · rw [hd] at hbefore
      cases hbefore
      exact .inr (run_done hv a (.inl ⟨_, hafter, (hturn.of_archiving hstate).2⟩))
    · rw [hd] at hnone
      cases hnone
    · rw [hd] at hbefore
      cases hbefore
      exact .inl ((run_archiving hv a).mpr ⟨_, hafter, reread_archiving.mpr hstate⟩)
  · exact .inr (run_done hv a (settled_done hv a hdone))

theorem not_spent_of_queued (hv : Valid s) (a : Action) (h : IsArchiving (a.run s) o)
    (hnot : ¬ IsArchiving s o) : ¬ Spent s o := by
  rintro (harch | hdone)
  · exact hnot harch
  · obtain ⟨d, hd, hstate⟩ := h
    have hlater := run_done hv a (settled_done hv a hdone)
    rcases hlater with ⟨d', hd', hterm⟩ | hbelow
    · rw [hd] at hd'
      rw [← Option.some.inj hd', not_terminal_of_archiving hstate] at hterm
      cases hterm
    · have := ((hv.action a).tiles.lookup_bounds hd).1
      omega

theorem run_pendingDlq (hv : Valid s) (op : Op) :
    (op.run s).pendingDlq = (op.settled s).pendingDlq := by
  have hvs := hv.settled op
  rcases run_cases s op with ⟨h, -⟩ | ⟨dirty, h⟩ | ⟨logStart, -, -, h⟩
  · rw [h]
  · obtain ⟨done, rest, hprunes⟩ := advanceSpso_prunes (hvs.dirty dirty).tiles
    rw [h, hprunes.pendingDlq]
  · obtain ⟨done, rest, hprunes⟩ := advanceSpso_prunes hvs.tiles
    rw [h]
    rcases jumpTo_cases hvs.advanceSpso.tiles logStart with hj | ⟨-, -, hj⟩ <;>
      rw [hj, ← hprunes.pendingDlq]

/-- **What an operation adds to the queue**: the offsets it moves into
`Archiving`, with their delivery counts. -/
theorem op_queued (hv : Valid s) {op : Op} (htake : op ≠ .takePendingDlq) :
    ∃ queued, (op.run s).pendingDlq = s.pendingDlq ++ queued ∧
      (∀ o, coverage queued o ≤ 1) ∧
      (∀ o, 0 < coverage queued o ↔ IsArchiving (op.run s) o ∧ ¬ IsArchiving s o) ∧
      ∀ r ∈ queued, ∀ o, r.Covers o → ∃ d, (op.run s).cell o = some d ∧
        d.state = .archiving ∧ d.deliveryCount = r.deliveryCount := by
  have harch : ∀ o, IsArchiving (op.run s) o ↔ IsArchiving (op.settled s) o :=
    fun o => run_archiving hv (.op op)
  by_cases hplain : op.IsPlain
  · obtain ⟨queued, hpending, hq⟩ := (settled_rewritten hv.tiles hplain).queued hv
    refine ⟨queued, (run_pendingDlq hv op).trans hpending, fun o => ?_, fun o => ?_,
      fun r hr o hro => ?_⟩
    · rw [hq.once o]
      split <;> omega
    · rw [hq.once o, harch o, ← archivingIn_iff, ← archivingIn_iff]
      split <;> simp_all
    · obtain ⟨d, hd, hstate, hcount⟩ := hq.names r hr o hro
      exact ⟨d, run_of_settled hv (.op op) hd (not_terminal_of_archiving hstate), hstate, hcount⟩
  · -- The window grows or a flag changes: nothing is queued.
    have hnone : ∀ o, ¬ (IsArchiving (op.run s) o ∧ ¬ IsArchiving s o) := by
      rintro o ⟨⟨d, hd, hstate⟩, hnot⟩
      have hsettled : (op.settled s).cell o = some d := cell_of_run hv (.op op) hd
      rcases op_cell hv op o with
        hsame | ⟨hmakes, -, -, -, -⟩ | ⟨-, -, hafter⟩ | ⟨d', hbefore, hafter⟩
      · exact hnot ⟨d, hsame.symm.trans hsettled, hstate⟩
      · cases op with
        | materialize | setDlqEnabled | takePendingDlq => exact hmakes
        | _ => exact absurd trivial hplain
      · rw [hsettled] at hafter
        rw [Option.some.inj hafter] at hstate
        cases hstate
      · rw [hsettled] at hafter
        rw [Option.some.inj hafter] at hstate
        exact hnot ⟨d', hbefore, reread_archiving.mp hstate⟩
    refine ⟨[], ?_, by simp [coverage], fun o => ?_, by simp⟩
    · rw [List.append_nil]
      cases op with
      | materialize hwm maxRecordLocks =>
        rcases materialize_cases s hwm maxRecordLocks with h | ⟨last, -, hshape⟩
        · exact congrArg pendingDlq h
        · exact congrArg ArchiveSink.pendingDlq hshape.sink
      | setDlqEnabled => rfl
      | takePendingDlq => exact absurd rfl htake
      | _ => exact absurd trivial hplain
    · simp only [coverage, List.countP_nil, lt_self_iff_false, false_iff]
      exact hnone o

end

/-! ## Finishing a range and reloading -/

variable {s : AcquisitionState}

theorem finishArchiving_clears (hv : Valid s) {first last : Int}
    (hlow : first ≤ o) (hhigh : o ≤ last) : ¬ IsArchiving (s.finishArchiving first last) o := by
  rintro ⟨d, hd, hstate⟩
  have hshape := splitValidRange_reshaped s first last
  have htiles := (hshape.runs _ _ hv.tiles).1
  have hinside : ∀ b ∈ (s.splitValidRange first last).1.batches, b.Covers o →
      first ≤ b.firstOffset ∧ b.lastOffset ≤ last := by
    intro b hb hcov
    exact splitValidRange_inside hv.tiles (by omega) hb (by have := hcov.2; omega)
      (by have := hcov.1; omega)
  unfold finishArchiving at hd
  split at hd
  · rename_i t hsplit
    rw [splitValidRange, if_neg (by omega)] at hsplit
    cases hsplit
  · rename_i t hsplit
    rw [hsplit] at htiles hinside
    -- The offset is read before the final coalesce.
    have hswept : Tiles (t.archiveMatching (finishing first last) false).1.batches
        s.startOffset s.endOffset := by
      refine (sweep_pass (T := fun _ _ _ _ => True) (fun _ _ _ => ?_) t.sink).tiles
        htiles
      exact .inr trivial
    have hcoalesce := (coalesce_reshaped { (t.archiveMatching (finishing first last) false).1 with
      dirty := (t.archiveMatching (finishing first last) false).1.dirty ||
        (t.archiveMatching (finishing first last) false).2 }).runs _ _ hswept
    have hd' : lookup (t.archiveMatching (finishing first last) false).1.batches o = some d :=
      (hcoalesce.2 o).symm.trans hd
    have hbounds := hswept.lookup_bounds hd'
    obtain ⟨d₀, hd₀⟩ := htiles.lookup_isSome hbounds.1 hbounds.2
    obtain ⟨b, hb, hcov, -⟩ := exists_of_lookup hd₀
    obtain ⟨k, hk⟩ := sweep_lookup (f := fun (sink : ArchiveSink) (b : InFlightBatch) =>
        if finishing first last b then
          ((b.archiveTerminal sink.deliveryCompleteCount).1,
            { sink with deliveryCompleteCount := (b.archiveTerminal sink.deliveryCompleteCount).2 })
        else (b.value, sink)) htiles hb hcov t.sink
    have hvalue := Option.some.inj (hd'.symm.trans hk)
    by_cases hfin : finishing first last b = true
    · rw [if_pos hfin] at hvalue
      rw [hvalue] at hstate
      exact absurd hstate (by simp [InFlightBatch.archiveTerminal])
    · rw [if_neg hfin] at hvalue
      rw [hvalue] at hstate
      dsimp only at hstate
      obtain ⟨h₁, h₂⟩ := hinside b hb hcov
      exact hfin (by simp [finishing, hstate, h₁, h₂])

theorem restored_queues {rs : List InFlightBatch} {a e : Int} (htiles : Tiles rs a e) (o : Int) :
    coverage ((rs.filter fun b => b.value.state == .archiving).map fun b =>
        ⟨b.firstOffset, b.lastOffset, b.value.deliveryCount, none⟩) o =
      if archivingIn rs o = true then 1 else 0 := by
  induction rs generalizing a with
  | nil => rfl
  | cons b rs ih =>
    obtain ⟨-, -, hrest⟩ := htiles
    have hih := ih hrest
    by_cases hcov : b.Covers o
    · have hnone : archivingIn rs o = false := by
        rw [archivingIn, hrest.lookup_eq_none (.inl (by have := hcov.2; omega))]
        rfl
      rw [hnone, if_neg (by simp)] at hih
      rw [archivingIn, lookup_of_covers hcov, Option.any_some]
      cases hstate : b.value.state == RecordState.archiving with
      | false => rw [List.filter_cons_of_neg (by simp [hstate]), hih, if_neg (by simp)]
      | true =>
        rw [List.filter_cons_of_pos (by simp [hstate]), List.map_cons, coverage_cons, hih,
          if_pos (show DlqRange.Covers ⟨_, _, _, _⟩ o from hcov), if_pos rfl]
    · have hsame : archivingIn (b :: rs) o = archivingIn rs o := archivingIn_turned hcov b.value rs
      rw [hsame, ← hih]
      cases hstate : b.value.state == RecordState.archiving with
      | false => rw [List.filter_cons_of_neg (by simp [hstate])]
      | true =>
        rw [List.filter_cons_of_pos (by simp [hstate]), List.map_cons, coverage_cons,
          if_neg (show ¬ DlqRange.Covers ⟨_, _, _, _⟩ o from hcov), Nat.add_zero]

theorem reload_pendingDlq (hv : Valid s) (fresh : AcquisitionState) (stateEpoch leaderEpoch : Int) :
    (reload s fresh stateEpoch leaderEpoch).pendingDlq =
      (reloadSettled s fresh stateEpoch leaderEpoch).pendingDlq := by
  obtain ⟨done, rest, hprunes⟩ :=
    advanceSpso_prunes (hv.reloadSettled fresh stateEpoch leaderEpoch).tiles
  exact hprunes.pendingDlq

theorem reload_queued (hv : Valid s) (fresh : AcquisitionState) (stateEpoch leaderEpoch o : Int) :
    coverage (reload s fresh stateEpoch leaderEpoch).pendingDlq o =
      if IsArchiving (reload s fresh stateEpoch leaderEpoch) o then 1 else 0 := by
  have harch : IsArchiving (reload s fresh stateEpoch leaderEpoch) o ↔
      IsArchiving (reloadSettled s fresh stateEpoch leaderEpoch) o :=
    run_archiving hv (.reload fresh stateEpoch leaderEpoch)
  rw [reload_pendingDlq hv]
  refine (restored_queues (hv.reloadSettled fresh stateEpoch leaderEpoch).tiles o).trans ?_
  by_cases h : archivingIn (reloadSettled s fresh stateEpoch leaderEpoch).batches o = true
  · rw [if_pos h, if_pos (harch.mpr (archivingIn_iff.mp h))]
  · rw [if_neg h, if_neg fun h' => h (archivingIn_iff.mpr (harch.mp h'))]

/-! ## The owner -/

/-- The state and the ranges that were handed out of it. -/
structure Owner where
  state : AcquisitionState
  /-- Taken and not yet passed to `finish_archiving`. -/
  taken : List DlqRange
  /-- Every range taken since the state was made or loaded. -/
  handed : List DlqRange

inductive OwnerAction
  | op (op : Op)
  | take
  | finish (r : DlqRange)
  | reload (fresh : AcquisitionState) (stateEpoch leaderEpoch : Int)

/-- A leader that loads the state has taken nothing from it. -/
def Owner.run (w : Owner) : OwnerAction → Owner
  | .op operation => { w with state := operation.run w.state }
  | .take =>
    let (state, ranges) := w.state.takePendingDlq
    ⟨state, w.taken ++ ranges, w.handed ++ ranges⟩
  | .finish r =>
    { w with state := w.state.finishArchiving r.first r.last, taken := w.taken.erase r }
  | .reload fresh stateEpoch leaderEpoch =>
    ⟨Share.reload w.state fresh stateEpoch leaderEpoch, [], []⟩

/-- Every range that is taken is finished at most once, and no other is. -/
def Owner.Enabled (w : Owner) : OwnerAction → Prop
  | .op .takePendingDlq | .op (.finishArchiving ..) => False
  | .finish r => r ∈ w.taken
  | _ => True

def ownerSystem : TransitionSystem Owner OwnerAction where
  init w := ∃ start, w = ⟨.new start, [], []⟩
  step w a w' := w.Enabled a ∧ w' = w.run a

/-- `archive_internal` keeps off the pending ranges. -/
def SparesPending (w : Owner) (a : OwnerAction) (_ : Owner) : Prop :=
  ∀ first last, a = .op (.archiveInternal first last) →
    ∀ r ∈ w.state.pendingDlq, ∀ o, r.Covers o → ¬ (first ≤ o ∧ o ≤ last)

/-- The ranges that are pending or taken hold every `Archiving` offset, and no
offset is in two ranges of the state's life. -/
structure Owner.Accounted (w : Owner) : Prop where
  valid : Valid w.state
  held : ∀ o, IsArchiving w.state o → 0 < coverage (w.state.pendingDlq ++ w.taken) o
  spent : ∀ o, 0 < coverage (w.state.pendingDlq ++ w.handed) o → Spent w.state o
  disjoint : ∀ o, coverage (w.state.pendingDlq ++ w.handed) o ≤ 1
  taken : ∀ o, coverage w.taken o ≤ coverage w.handed o

section

variable {w : Owner}

theorem Owner.Accounted.op (h : w.Accounted) {op : Op} (htake : op ≠ .takePendingDlq) :
    Owner.Accounted { w with state := op.run w.state } := by
  obtain ⟨queued, hpending, hle, hqueued, -⟩ := op_queued h.valid htake
  have hgrows : ∀ (rs : List DlqRange) (o : Int), coverage ((op.run w.state).pendingDlq ++ rs) o =
      coverage (w.state.pendingDlq ++ rs) o + coverage queued o := by
    intro rs o
    rw [hpending]
    simp only [coverage_append]
    omega
  -- A queued offset was in no range: it was not spent.
  have hnew : ∀ o, 0 < coverage queued o → coverage (w.state.pendingDlq ++ w.handed) o = 0 := by
    intro o ho
    obtain ⟨harch, hnot⟩ := (hqueued o).mp ho
    have hfresh := not_spent_of_queued h.valid (.op op) harch hnot
    by_contra hpos
    exact hfresh (h.spent o (Nat.pos_of_ne_zero hpos))
  refine ⟨h.valid.run op, fun o ho => ?_, fun o ho => ?_, fun o => ?_, h.taken⟩
  · rw [hgrows]
    by_cases hold : IsArchiving w.state o
    · exact Nat.add_pos_left (h.held o hold) _
    · exact Nat.add_pos_right _ ((hqueued o).mpr ⟨ho, hold⟩)
  · rw [hgrows] at ho
    rcases Nat.add_pos_iff_pos_or_pos.mp ho with ho | ho
    · exact spent_action h.valid (.op op) (h.spent o ho)
    · exact .inl ((hqueued o).mp ho).1
  · show coverage ((op.run w.state).pendingDlq ++ w.handed) o ≤ 1
    have hold := h.disjoint o
    have hadd := hle o
    have hapart := hnew o
    rw [hgrows]
    omega

theorem Owner.Accounted.take (h : w.Accounted) : (w.run .take).Accounted := by
  have hmove : ∀ (rs : List DlqRange) (o : Int),
      coverage ([] ++ (rs ++ w.state.pendingDlq)) o = coverage (w.state.pendingDlq ++ rs) o := by
    intro rs o
    simp only [List.nil_append, coverage_append]
    omega
  refine ⟨h.valid.run .takePendingDlq, fun o ho => ?_, fun o ho => ?_, fun o => ?_, fun o => ?_⟩
  · exact (hmove w.taken o).symm ▸ h.held o ho
  · exact h.spent o (hmove w.handed o ▸ ho)
  · exact (hmove w.handed o).symm ▸ h.disjoint o
  · have hle := h.taken o
    show coverage (w.taken ++ w.state.pendingDlq) o ≤ coverage (w.handed ++ w.state.pendingDlq) o
    simp only [coverage_append]
    omega

theorem coverage_erase {rs : List DlqRange} {r : DlqRange} (h : r ∈ rs) (o : Int) :
    coverage rs o = coverage (rs.erase r) o + if r.Covers o then 1 else 0 := by
  rw [← coverage_cons]
  exact (List.perm_cons_erase h).countP_eq _

theorem Owner.Accounted.finish (h : w.Accounted) {r : DlqRange} (hr : r ∈ w.taken) :
    (w.run (.finish r)).Accounted := by
  have hop := h.op (show Op.finishArchiving r.first r.last ≠ .takePendingDlq by simp)
  refine ⟨hop.valid, fun o ho => ?_, hop.spent, hop.disjoint, fun o => ?_⟩
  · have hout : ¬ r.Covers o := fun hcov => finishArchiving_clears h.valid hcov.1 hcov.2 ho
    have hheld : 0 < coverage ((w.state.finishArchiving r.first r.last).pendingDlq ++ w.taken) o :=
      hop.held o ho
    have herase := coverage_erase hr o
    rw [if_neg hout, Nat.add_zero] at herase
    show 0 < coverage ((w.state.finishArchiving r.first r.last).pendingDlq ++ w.taken.erase r) o
    rw [coverage_append] at hheld ⊢
    rw [← herase]
    exact hheld
  · have hle := h.taken o
    have herase := coverage_erase hr o
    show coverage (w.taken.erase r) o ≤ coverage w.handed o
    omega

theorem Owner.Accounted.reload (h : w.Accounted) (fresh : AcquisitionState)
    (stateEpoch leaderEpoch : Int) : (w.run (.reload fresh stateEpoch leaderEpoch)).Accounted := by
  have hqueued := reload_queued h.valid fresh stateEpoch leaderEpoch
  have hcount :
      ∀ o, coverage ((w.run (.reload fresh stateEpoch leaderEpoch)).state.pendingDlq ++ [])
      o = if IsArchiving (w.run (.reload fresh stateEpoch leaderEpoch)).state o then 1 else 0 := by
    intro o
    rw [List.append_nil]
    exact hqueued o
  refine ⟨h.valid.reload fresh stateEpoch leaderEpoch, fun o ho => ?_, fun o ho => ?_, fun o => ?_,
    fun o => le_rfl⟩
  · exact (hcount o).symm ▸ (by rw [if_pos ho]; omega)
  · have hpos := hcount o ▸ ho
    by_contra hnot
    rw [if_neg fun harch => hnot (.inl harch)] at hpos
    omega
  · refine (hcount o).trans_le ?_
    split <;> omega

theorem accounted_of_reachable (h : ownerSystem.Reachable w) : w.Accounted := by
  refine h.invariant (P := Owner.Accounted) ?_ ?_
  · rintro w ⟨start, rfl⟩
    refine ⟨new_valid start, fun o ho => ?_, fun o ho => ?_, fun o => ?_, fun o => le_rfl⟩
    · obtain ⟨d, hd, -⟩ := ho
      exact absurd hd (by simp [cell, new, lookup])
    · exact absurd ho (by simp [new, coverage])
    · simp [new, coverage]
  · rintro w a w' hw ⟨henabled, rfl⟩
    cases a with
    | op operation => exact hw.op (by rintro rfl; exact henabled)
    | take => exact hw.take
    | finish r => exact hw.finish henabled
    | reload fresh stateEpoch leaderEpoch => exact hw.reload fresh stateEpoch leaderEpoch

end

/-! ## What the pending ranges name -/

/-- The pending ranges name `Archiving` offsets, with their delivery counts. -/
def Named (s : AcquisitionState) : Prop :=
  ∀ r ∈ s.pendingDlq, ∀ o, r.Covers o →
    ∃ d, s.cell o = some d ∧ d.state = .archiving ∧ d.deliveryCount = r.deliveryCount

theorem archiving_kept (hv : Valid s) {op : Op} {d : Delivery}
    (hd : s.cell o = some d) (hstate : d.state = .archiving)
    (hno : ∀ kind b, op.Makes kind b → b.Covers o → b.value.state = .archiving →
      kind = .archive ∨ kind = .finish → False) :
    ∃ d', (op.run s).cell o = some d' ∧ d'.state = .archiving ∧
      d'.deliveryCount = d.deliveryCount := by
  have hlive : ∀ d', (op.settled s).cell o = some d' → d'.state = .archiving →
      (op.run s).cell o = some d' := fun d' hd' hstate' =>
    run_of_settled hv (.op op) hd' (not_terminal_of_archiving hstate')
  rcases op_cell hv op o with
    hsame | ⟨hmakes, hcov, hturn, hbefore, -⟩ | ⟨hnone, -, -⟩ | ⟨d', hbefore, hafter⟩
  · exact ⟨d, hlive d (hsame.trans hd) hstate, hstate, rfl⟩
  · rw [hd] at hbefore
    cases hbefore
    exact (hno _ _ hmakes hcov hstate (hturn.of_archiving hstate).1).elim
  · rw [hd] at hnone
    cases hnone
  · rw [hd] at hbefore
    cases hbefore
    have hstate' := reread_archiving.mpr hstate
    exact ⟨_, hlive _ hafter hstate', hstate', rfl⟩

theorem Named.op (hv : Valid s) (h : Named s) {op : Op} (htake : op ≠ .takePendingDlq)
    (hno : ∀ r ∈ s.pendingDlq, ∀ o, r.Covers o → ∀ kind b, op.Makes kind b → b.Covers o →
      b.value.state = .archiving → kind = .archive ∨ kind = .finish → False) :
    Named (op.run s) := by
  obtain ⟨queued, hpending, -, -, hnames⟩ := op_queued hv htake
  intro r hr o hro
  rw [hpending] at hr
  rcases List.mem_append.mp hr with hr | hr
  · obtain ⟨d, hd, hstate, hcount⟩ := h r hr o hro
    obtain ⟨d', hd', hstate', hcount'⟩ := archiving_kept hv hd hstate (hno r hr o hro)
    exact ⟨d', hd', hstate', hcount'.trans hcount⟩
  · exact hnames r hr o hro

theorem Op.Makes.of_archiving {op : Op} {kind : TurnKind} {b : InFlightBatch}
    (h : op.Makes kind b) (hstate : b.value.state = .archiving)
    (hkind : kind = .archive ∨ kind = .finish) :
    ∃ first last, (op = .archiveInternal first last ∨ op = .finishArchiving first last) ∧
      first ≤ b.firstOffset ∧ b.lastOffset ≤ last := by
  have hrefuse : ∀ {state : RecordState}, state ≠ .archiving → b.value.state ≠ state :=
    fun hne heq => hne (heq.symm.trans hstate)
  cases op with
  | archiveInternal first last => exact ⟨first, last, .inl rfl, h.2⟩
  | finishArchiving first last => exact ⟨first, last, .inr rfl, h.2⟩
  | advancePastLogStart => exact (h.2.elim (hrefuse (by decide)) (hrefuse (by decide))).elim
  | archiveExhausted | acquireShaped | acknowledge | acknowledgeMixedWith | expireLocks
  | releaseMember => exact (hrefuse (by decide) h.2).elim
  | renew | deferInternal | promoteDeferred =>
    rcases hkind with rfl | rfl <;> exact absurd h (by simp [Op.Makes])
  | _ => exact h.elim

theorem named_reload (hv : Valid s) (fresh : AcquisitionState)
    (stateEpoch leaderEpoch : Int) : Named (reload s fresh stateEpoch leaderEpoch) := by
  intro r hr o hro
  rw [reload_pendingDlq hv] at hr
  obtain ⟨b, hb, rfl⟩ := List.mem_map.mp hr
  obtain ⟨hmem, hstate⟩ := List.mem_filter.mp hb
  have hstate : b.value.state = .archiving := by simpa using hstate
  have hcell : (reloadSettled s fresh stateEpoch leaderEpoch).cell o = some b.value :=
    (hv.reloadSettled fresh stateEpoch leaderEpoch).tiles.lookup_of_mem hmem hro
  exact ⟨b.value, run_of_settled hv (.reload fresh stateEpoch leaderEpoch) hcell
    (not_terminal_of_archiving hstate), hstate, rfl⟩

theorem named_of_reachable {w : Owner} (h : (ownerSystem.restrict SparesPending).Reachable w) :
    Named w.state := by
  induction h with
  | init hw =>
    obtain ⟨start, rfl⟩ := hw
    exact nofun
  | @step w a w' hreach hstep hnamed =>
    have hw := accounted_of_reachable hreach.of_restrict
    obtain ⟨⟨henabled, rfl⟩, hspares⟩ := hstep
    cases a with
    | op operation =>
      refine hnamed.op hw.valid (by rintro rfl; exact henabled)
        fun r hr o hro kind b hmakes hcov hstate hkind => ?_
      obtain ⟨first, last, hop, hlow, hhigh⟩ := hmakes.of_archiving hstate hkind
      rcases hop with rfl | rfl
      · exact hspares first last rfl r hr o hro ⟨hlow.trans hcov.1, hcov.2.trans hhigh⟩
      · exact henabled
    | take => exact nofun
    | finish r₀ =>
      refine hnamed.op hw.valid (show Op.finishArchiving r₀.first r₀.last ≠ .takePendingDlq by simp)
        fun r hr o hro kind b hmakes hcov hstate hkind => ?_
      -- The finished range is one that was handed out, so it is not pending.
      have hcov₀ : r₀.Covers o := ⟨hmakes.2.1.trans hcov.1, hcov.2.trans hmakes.2.2⟩
      have hpending := coverage_pos.mpr ⟨r, hr, hro⟩
      have htaken := coverage_pos.mpr ⟨r₀, henabled, hcov₀⟩
      have hle := hw.taken o
      have honce := hw.disjoint o
      rw [coverage_append] at honce
      omega
    | reload fresh stateEpoch leaderEpoch =>
      exact named_reload hw.valid fresh stateEpoch leaderEpoch

/-! ## The accounting -/

theorem pairwise_of_coverage {rs : List DlqRange} (h : ∀ o, coverage rs o ≤ 1) :
    rs.Pairwise fun r r' => ∀ o, ¬ (r.Covers o ∧ r'.Covers o) := by
  induction rs with
  | nil => exact .nil
  | cons r rs ih =>
    refine .cons (fun r' hr' o ⟨hr, hro⟩ => ?_) (ih fun o => ?_)
    · have hcount := h o
      have hpos := coverage_pos.mpr ⟨r', hr', hro⟩
      rw [coverage_cons, if_pos hr] at hcount
      omega
    · have hcount := h o
      rw [coverage_cons] at hcount
      omega

/-- **Dead-letter accounting**: in the runs in which `archive_internal` keeps
off the pending ranges, every `Archiving` offset is in exactly one of the
ranges that are pending or taken and not finished; the pending ranges are
disjoint and name `Archiving` offsets with their delivery counts; and no offset
is handed out twice. -/
theorem dead_letter_accounting {w : Owner} (h : (ownerSystem.restrict SparesPending).Reachable w) :
    (∀ o, IsArchiving w.state o → coverage (w.state.pendingDlq ++ w.taken) o = 1) ∧
      w.state.pendingDlq.Pairwise (fun r r' => ∀ o, ¬ (r.Covers o ∧ r'.Covers o)) ∧
      (∀ r ∈ w.state.pendingDlq, ∀ o, r.Covers o → ∃ d, w.state.cell o = some d ∧
        d.state = .archiving ∧ d.deliveryCount = r.deliveryCount) ∧
      ∀ o, coverage w.handed o ≤ 1 := by
  have hw := accounted_of_reachable h.of_restrict
  have honce : ∀ o, coverage w.state.pendingDlq o + coverage w.handed o ≤ 1 := fun o => by
    rw [← coverage_append]
    exact hw.disjoint o
  refine ⟨fun o ho => ?_, pairwise_of_coverage fun o => ?_, named_of_reachable h, fun o => ?_⟩
  · have hheld := hw.held o ho
    have hle := hw.taken o
    have hone := honce o
    rw [coverage_append] at hheld ⊢
    omega
  · have hone := honce o
    omega
  · have hone := honce o
    omega

/-- A record that a consumer rejects while the group has a dead-letter queue. -/
def rejecting : List OwnerAction :=
  [.op (.setDlqEnabled true), .op (.materialize 1 10),
    .op (.acquireShaped ⟨"m", ⟨1, none⟩, 9, 0, 30, 5⟩), .op (.acknowledge "m" 0 0 .reject 5)]

def rejected : Owner := rejecting.foldl Owner.run ⟨.new 0, [], []⟩

theorem dead_letter_accounting_rejected :
    IsArchiving rejected.state 0 ∧
      coverage (rejected.state.pendingDlq ++ rejected.taken) 0 = 1 := by
  have hreach : (ownerSystem.restrict SparesPending).Reachable rejected := by
    refine .foldl (fun w a w' => w.Enabled a ∧ SparesPending w a w')
      (.init ⟨0, rfl⟩) (fun w a h => ⟨⟨h.1, rfl⟩, h.2⟩) ?_
    refine ⟨⟨trivial, ?_⟩, ⟨trivial, ?_⟩, ⟨trivial, ?_⟩, ⟨trivial, ?_⟩, trivial⟩ <;>
      exact fun first last h => nomatch h
  have harch : IsArchiving rejected.state 0 := by decide
  exact ⟨harch, (dead_letter_accounting hreach).1 0 harch⟩

/-- `archive_internal` over the rejected record archives it and leaves its range
pending, so that the range will be handed out for a record that is `Archived`. -/
theorem archive_internal_misses_queue :
    ∃ w, ownerSystem.Reachable w ∧
      ∃ r ∈ w.state.pendingDlq, r.Covers 0 ∧ ¬ IsArchiving w.state 0 := by
  refine ⟨rejected.run (.op (.archiveInternal 0 0)), ?_, ⟨0, 0, 1, some .clientReject⟩, ?_⟩
  · have hreach : ownerSystem.Reachable (rejecting.foldl Owner.run ⟨.new 0, [], []⟩) :=
      .foldl (fun w a _ => w.Enabled a) (.init ⟨0, rfl⟩)
        (fun w a h => ⟨h, rfl⟩) ⟨trivial, trivial, trivial, trivial, trivial⟩
    have hstep : ownerSystem.step rejected (.op (.archiveInternal 0 0))
        (rejected.run (.op (.archiveInternal 0 0))) := ⟨trivial, rfl⟩
    exact .step hreach hstep
  · decide

end Krabka.Share

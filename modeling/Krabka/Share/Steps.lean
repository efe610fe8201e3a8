import Krabka.Lib.Transition
import Krabka.Share.Persistence
import Krabka.Share.Turns

/-!
# Whole operations on a window

How an operation ends: `advance_spso` drops a terminal prefix of the runs
(`advanceSpso_prunes`), and `advance_past_log_start` then jumps over offsets
that were never in the window (`jumpTo_cases`).  `run_cases` puts an operation
together from `Op.settled` and its end.

`Valid` says that the runs tile the window and that the lock of a run goes with
its state.  Every operation and every reload keep it, so that it holds of every
state of `system`, whose runs start at an empty window.
-/

namespace Krabka.Share

open Run AcquisitionState

/-! ## `advance_spso` -/

/-- The saturating sum of the lengths of runs. -/
def tally (count : Int) (done : List InFlightBatch) : Int :=
  done.foldl (fun count b => saturate (count + clampI32 b.len)) count

/-- `s'` is `s` without the terminal runs `done`, which stand at its start. -/
structure Prunes (s s' : AcquisitionState) (done rest : List InFlightBatch) : Prop where
  batches : s.batches = done ++ rest
  terminal : ∀ b ∈ done, b.value.isTerminal = true
  stops : ∀ b ∈ rest.head?, b.value.isTerminal = false
  tiles : Tiles done s.startOffset s'.startOffset
  runs : Reshapes rest s'.batches
  endOffset : s'.endOffset = s.endOffset
  count : s'.deliveryCompleteCount =
    if done = [] then s.deliveryCompleteCount
    else saturate (s.deliveryCompleteCount - tally 0 done)
  pendingDlq : s'.pendingDlq = s.pendingDlq
  dlqEnabled : s'.dlqEnabled = s.dlqEnabled

theorem terminalPrefix_spec {batches : List InFlightBatch} {a e : Int} (h : Tiles batches a e)
    (n : Nat) (c : Int) :
    ∃ done rest m, batches = done ++ rest ∧ (∀ b ∈ done, b.value.isTerminal = true) ∧
      (∀ b ∈ rest.head?, b.value.isTerminal = false) ∧ Tiles done a m ∧
      terminalPrefix batches (n, a, c) = (n + done.length, m, tally c done) := by
  induction batches generalizing a n c with
  | nil => exact ⟨[], [], a, rfl, by simp, by simp, rfl, rfl⟩
  | cons b rest ih =>
    obtain ⟨hfirst, hne, hrest⟩ := h
    rw [terminalPrefix]
    split
    · rename_i hstop
      have hlive : b.value.isTerminal = false := by
        rcases hstop with hmove | hlive
        · exact absurd hfirst hmove
        · exact hlive
      exact ⟨[], b :: rest, a, rfl, by simp, by simpa using hlive, rfl, rfl⟩
    · rename_i hterm
      obtain ⟨done, rest', m, hsplit, hdone, hstops, htiles, heq⟩ :=
        ih hrest (n + 1) (saturate (c + clampI32 b.len))
      refine ⟨b :: done, rest', m, by rw [hsplit]; rfl, ?_, hstops, ⟨hfirst, hne, htiles⟩, ?_⟩
      · intro r hr
        rcases List.mem_cons.mp hr with rfl | hr
        · simpa using (not_or.mp hterm).2
        · exact hdone r hr
      · rw [heq, List.length_cons, Nat.add_right_comm]
        rfl

variable {s : AcquisitionState}

theorem advanceSpso_prunes (h : Tiles s.batches s.startOffset s.endOffset) :
    ∃ done rest, Prunes s s.advanceSpso done rest := by
  obtain ⟨done, rest, m, hsplit, hdone, hstops, htiles, heq⟩ := terminalPrefix_spec h 0 0
  have hle : m ≤ s.endOffset := by
    rw [hsplit] at h
    obtain ⟨m', hm', hrest⟩ := tiles_append.mp h
    rw [htiles.end_unique hm']
    exact hrest.le
  have hdrop : s.batches.drop done.length = rest := by rw [hsplit, List.drop_left]
  have hlen : 0 + done.length ≠ 0 ↔ done ≠ [] := by
    rw [zero_add, Ne, List.length_eq_zero_iff]
  unfold advanceSpso
  rw [heq]
  dsimp only
  by_cases hnil : done = []
  · -- Nothing is dropped.
    have hm : s.startOffset = m := by rw [hnil] at htiles; exact htiles
    have hzero : ¬ 0 + done.length ≠ 0 := fun hne => hlen.mp hne hnil
    have hend : ¬ s.endOffset < s.startOffset := by omega
    rw [if_neg hzero, if_neg hend]
    have hshape := coalesce_reshaped s
    refine ⟨done, rest, hsplit, hdone, hstops, ?_, ?_, hshape.endOffset, ?_, ?_, ?_⟩
    · rw [hshape.startOffset, hm]
      exact hm ▸ htiles
    · have := hshape.runs
      rw [hsplit, hnil, List.nil_append] at this
      exact this
    · rw [if_pos hnil]
      rfl
    · rfl
    · rfl
  · rw [if_pos (hlen.mpr hnil)]
    have hend : ¬ s.endOffset < m := by omega
    rw [if_neg hend, zero_add, hdrop]
    exact ⟨done, rest, hsplit, hdone, hstops, htiles,
      (coalesce_reshaped { s with
        startOffset := m, deliveryCompleteCount := _, batches := rest }).runs,
      rfl, by rw [if_neg hnil]; rfl, rfl, rfl⟩

section

variable {s s' : AcquisitionState} {done rest : List InFlightBatch}

theorem Prunes.rest_tiles (h : Prunes s s' done rest)
    (htiles : Tiles s.batches s.startOffset s.endOffset) :
    Tiles rest s'.startOffset s'.endOffset := by
  rw [h.batches] at htiles
  obtain ⟨m, hdone, hrest⟩ := tiles_append.mp htiles
  rw [h.tiles.end_unique hdone, h.endOffset]
  exact hrest

theorem Prunes.tiles_after (h : Prunes s s' done rest)
    (htiles : Tiles s.batches s.startOffset s.endOffset) :
    Tiles s'.batches s'.startOffset s'.endOffset :=
  (h.runs _ _ (h.rest_tiles htiles)).1

theorem Prunes.start_le (h : Prunes s s' done rest) : s.startOffset ≤ s'.startOffset := h.tiles.le

theorem Prunes.lookup_above (h : Prunes s s' done rest)
    (htiles : Tiles s.batches s.startOffset s.endOffset) {o : Int} (ho : s'.startOffset ≤ o) :
    lookup s'.batches o = lookup s.batches o := by
  rw [(h.runs _ _ (h.rest_tiles htiles)).2, h.batches, lookup_append,
    h.tiles.lookup_eq_none (.inr ho)]
  rfl

theorem Prunes.lookup_below (h : Prunes s s' done rest) {o : Int} (hlow : s.startOffset ≤ o)
    (hhigh : o < s'.startOffset) : ∃ d, lookup s.batches o = some d ∧ d.isTerminal = true := by
  obtain ⟨d, hd⟩ := h.tiles.lookup_isSome hlow hhigh
  obtain ⟨b, hb, -, rfl⟩ := exists_of_lookup hd
  refine ⟨b.value, ?_, h.terminal b hb⟩
  rw [h.batches, lookup_append, hd]
  rfl

theorem Prunes.head (h : Prunes s s' done rest)
    (htiles : Tiles s.batches s.startOffset s.endOffset) :
    ∀ b ∈ s'.batches.head?, b.value.isTerminal = false := by
  intro b hb
  have hrest := h.rest_tiles htiles
  have htiles' := h.tiles_after htiles
  obtain ⟨tail, htail⟩ := List.head?_eq_some_iff.mp hb
  have hmem : b ∈ s'.batches := by rw [htail]; exact List.mem_cons_self
  have hfirst : b.firstOffset = s'.startOffset := by
    rw [htail] at htiles'
    exact htiles'.1
  have hvalue := htiles'.lookup_first hmem
  rw [(h.runs _ _ hrest).2, hfirst] at hvalue
  -- The run of `rest` that covers the new start is its first.
  cases hcases : rest with
  | nil =>
    rw [hcases] at hvalue
    exact absurd hvalue (by simp [lookup])
  | cons r rs =>
    have hcov : r.Covers s'.startOffset := by
      rw [hcases] at hrest
      exact ⟨le_of_eq hrest.1, hrest.1 ▸ hrest.2.1⟩
    rw [hcases, lookup, if_pos hcov] at hvalue
    rw [← Option.some.inj hvalue]
    exact h.stops r (by rw [hcases]; rfl)

end

/-! ## How operations end -/

theorem jumpTo_cases (h : Tiles s.batches s.startOffset s.endOffset) (logStart : Int) :
    s.jumpTo logStart = s ∨
      s.batches = [] ∧ s.startOffset < logStart ∧
        s.jumpTo logStart = { s with startOffset := logStart, endOffset := logStart } := by
  have hle := h.le
  unfold jumpTo
  cases hcases : s.batches with
  | nil =>
    rw [hcases] at h
    have hempty : s.startOffset = s.endOffset := h
    by_cases hlow : s.startOffset < logStart
    · right
      refine ⟨rfl, hlow, ?_⟩
      simp only [List.head?_nil, Option.any_none, Bool.not_false, hlow, decide_true,
        Bool.and_self, if_true]
      rw [if_pos (by omega)]
    · left
      simp only [hlow, decide_false, Bool.and_false, Bool.false_eq_true, if_false]
      rw [if_neg (by omega)]
  | cons b rest =>
    left
    rw [hcases] at h
    have hfirst : b.firstOffset = s.startOffset := h.1
    by_cases hlow : s.startOffset < logStart
    · simp only [List.head?_cons, Option.any_some, hfirst, hlow, decide_true, Bool.not_true,
        Bool.false_and, Bool.false_eq_true, if_false]
      rw [if_neg (by omega)]
    · simp only [hlow, decide_false, Bool.and_false, Bool.false_eq_true, if_false]
      rw [if_neg (by omega)]

theorem sweepRuns_none {chosen : InFlightBatch → Bool}
    {f : ArchiveSink → InFlightBatch → Delivery × ArchiveSink}
    (hnone : s.batches.any chosen = false) :
    (s.sweepRuns fun sink b => if chosen b then f sink b else (b.value, sink)) = s := by
  unfold sweepRuns
  rw [sweep_same fun b hb => if_neg (by simpa using List.any_eq_false.mp hnone b hb)]
  rfl

theorem close_cases (s : AcquisitionState) (changed : Bool) :
    (s.close changed = s ∧ changed = false) ∨
      s.close changed = { s with dirty := true }.advanceSpso := by
  cases changed with
  | false => exact .inl ⟨rfl, rfl⟩
  | true => exact .inr rfl

theorem acquireLoop_anyChange (a : AcquireArgs) {fuel : Nat} {w : AcquireWalk}
    {batches : List InFlightBatch} (h : (acquireLoop a fuel w batches).2.anyChange = false) :
    w.anyChange = false ∧ acquireLoop a fuel w batches = (batches, w) := by
  induction fuel generalizing w batches with
  | zero => exact ⟨h, rfl⟩
  | succ fuel ih =>
    cases batches with
    | nil => exact ⟨h, rfl⟩
    | cons b rest =>
      rw [acquireLoop] at h ⊢
      split
      · rename_i hstop
        rw [if_pos hstop] at h
        exact ⟨h, rfl⟩
      rename_i hgo
      rw [if_neg hgo] at h
      split
      · rename_i hstate
        rw [if_pos hstate] at h
        obtain ⟨hw, heq⟩ := ih h
        exact ⟨hw, by rw [heq]⟩
      rename_i hstate
      rw [if_neg hstate] at h
      split
      · rename_i hpoison
        rw [if_pos hpoison] at h
        exact absurd (ih h).1 (by simp)
      rename_i hpoison
      rw [if_neg hpoison] at h
      split
      · rename_i hthrottle
        rw [if_pos hthrottle] at h
        exact ⟨h, rfl⟩
      rename_i hthrottle
      rw [if_neg hthrottle] at h
      split
      · rename_i hsplit
        rw [hsplit] at h
        exact ⟨h, rfl⟩
      · rename_i head tail hsplit
        rw [hsplit] at h
        dsimp only at h
        split at h
        · cases h
        · exact absurd (ih h).1 (by simp)

theorem acquireRuns_same {a : AcquireArgs}
    (h : (s.acquireRuns a).2.anyChange = false) : Reshaped s (s.acquireRuns a).1 := by
  obtain ⟨-, heq⟩ := acquireLoop_anyChange a h
  unfold acquireRuns
  dsimp only
  rw [heq]
  exact ⟨.refl _, rfl, rfl, rfl⟩

/-- The operations that never move the start offset. -/
def Op.IsQuiet : Op → Prop
  | .materialize .. | .renew .. | .deferInternal .. | .promoteDeferred | .setDlqEnabled _
  | .takePendingDlq | .finishArchiving .. => True
  | _ => False

/-- **How an operation ends**: where it has settled, which is where it began
unless it never moves the start offset; with a pruned prefix; or with a jump
behind that. -/
theorem run_cases (s : AcquisitionState) (op : Op) :
    (op.run s = op.settled s ∧ (op.IsQuiet ∨ Reshaped s (op.settled s))) ∨
      (∃ dirty, op.run s = { op.settled s with dirty := dirty }.advanceSpso) ∨
      ∃ logStart, op = .advancePastLogStart logStart ∧ s.startOffset < logStart ∧
        op.run s = (op.settled s).advanceSpso.jumpTo logStart := by
  cases op with
  | archiveInternal first last =>
    rcases close_cases (s.archiveRangeRuns first last (internalTo first last) true).1
      (s.archiveRangeRuns first last (internalTo first last) true).2 with ⟨h, hnone⟩ | h
    · refine .inl ⟨h, .inr ?_⟩
      have hshape := splitValidRange_reshaped s first last
      simp only [Op.settled, archiveRangeRuns] at hnone ⊢
      split at hnone
      · rename_i hsplit
        rw [hsplit] at hshape
        exact hshape
      · rename_i t hsplit
        rw [hsplit] at hshape
        have hsame : (t.archiveMatching (internalTo first last) true).1 = t := sweepRuns_none hnone
        rw [hsame]
        exact hshape
    · exact .inr (.inl ⟨true, h⟩)
  | advancePastLogStart logStart =>
    simp only [Op.run, Op.settled, advancePastLogStart]
    split
    · exact .inl ⟨rfl, .inr (.refl s)⟩
    · exact .inr (.inr ⟨logStart, rfl, by omega, rfl⟩)
  | archiveExhausted maxAttempts =>
    rcases close_cases (s.exhaustRuns maxAttempts).1 (s.exhaustRuns maxAttempts).2 with
      ⟨h, hnone⟩ | h
    · refine .inl ⟨h, .inr ?_⟩
      have hsame : (s.exhaustRuns maxAttempts).1 = s := sweepRuns_none hnone
      rw [Op.settled, hsame]
      exact .refl s
    · exact .inr (.inl ⟨true, h⟩)
  | acquireShaped args =>
    simp only [Op.run, Op.settled, acquireShaped]
    split
    · exact .inr (.inl ⟨(s.acquireRuns args).1.dirty, rfl⟩)
    · rename_i hnone
      exact .inl ⟨rfl, .inr (acquireRuns_same (by simpa using hnone))⟩
  | acknowledge member first last ack maxAttempts =>
    simp only [Op.run, Op.settled, acknowledge]
    split
    · rename_i hsplit
      rw [hsplit]
      exact .inl ⟨rfl, .inr (.refl s)⟩
    · rename_i hsplit
      rw [hsplit]
      exact .inl ⟨rfl, .inr (.refl s)⟩
    · rename_i hsplit
      rw [hsplit]
      exact .inr (.inl ⟨true, rfl⟩)
  | acknowledgeMixedWith member first last actionCount actions maxAttempts =>
    simp only [Op.run, Op.settled, acknowledgeMixedWith]
    split
    · rename_i hsplit
      rw [hsplit]
      exact .inl ⟨rfl, .inr (.refl s)⟩
    · rename_i hsplit
      rw [hsplit]
      exact .inl ⟨rfl, .inr (.refl s)⟩
    · rename_i hsplit
      rw [hsplit]
      exact .inr (.inl ⟨true, rfl⟩)
  | expireLocks now maxAttempts =>
    rcases close_cases (s.releaseRuns maxAttempts (expired now)).1
      (s.releaseRuns maxAttempts (expired now)).2 with ⟨h, hnone⟩ | h
    · refine .inl ⟨h, .inr ?_⟩
      have hsame : (s.releaseRuns maxAttempts (expired now)).1 = s := sweepRuns_none hnone
      rw [Op.settled, hsame]
      exact .refl s
    · exact .inr (.inl ⟨true, h⟩)
  | releaseMember member maxAttempts =>
    rcases close_cases (s.releaseRuns maxAttempts (heldBy member)).1
      (s.releaseRuns maxAttempts (heldBy member)).2 with ⟨h, hnone⟩ | h
    · refine .inl ⟨h, .inr ?_⟩
      have hsame : (s.releaseRuns maxAttempts (heldBy member)).1 = s := sweepRuns_none hnone
      rw [Op.settled, hsame]
      exact .refl s
    · exact .inr (.inl ⟨true, h⟩)
  | pruneTerminalPrefix => exact .inr (.inl ⟨s.dirty, rfl⟩)
  | _ => exact .inl ⟨rfl, .inl trivial⟩

theorem materialize_cases (s : AcquisitionState) (hwm maxRecordLocks : Int) :
    s.materialize hwm maxRecordLocks = s ∨
      ∃ last, s.endOffset ≤ last ∧
        Reshaped { s with
          batches := s.batches ++ [⟨s.endOffset, last, ⟨.available, 0, none, none⟩⟩]
          endOffset := last + 1 } (s.materialize hwm maxRecordLocks) := by
  unfold materialize
  split
  · exact .inl rfl
  dsimp only
  split
  · exact .inl rfl
  · exact .inr ⟨_, by omega, coalesce_reshaped _⟩

/-! ## Valid windows -/

/-- An owner and a deadline stand with `Acquired`, and with it only. -/
def Delivery.LockFits (d : Delivery) : Prop :=
  (d.acquiredBy.isSome = true ↔ d.state = .acquired) ∧
    (d.lockDeadline.isSome = true ↔ d.state = .acquired)

structure Valid (s : AcquisitionState) : Prop where
  tiles : Tiles s.batches s.startOffset s.endOffset
  locks : ∀ b ∈ s.batches, b.value.LockFits

theorem Turn.lockFits {kind : TurnKind} {k k' : ArchiveSink} {b : InFlightBatch} {v : Delivery}
    (hturn : Turn kind k b v k') (h : b.value.LockFits) : v.LockFits := by
  obtain ⟨howner, hdeadline⟩ := h
  cases hturn with
  | acquire member deadline _ => exact ⟨by simp, by simp⟩
  | settle state hstate _ =>
    have hne : state ≠ .acquired := by
      rintro rfl
      cases hstate
    exact ⟨by simpa [Delivery.clearAcquisition] using hne,
      by simpa [Delivery.clearAcquisition] using hne⟩
  | renew deadline hstate => exact ⟨howner, by simp [hstate]⟩
  | release _ | archive _ | queue _ _ _ =>
    exact ⟨by simp [Delivery.clearAcquisition], by simp [Delivery.clearAcquisition]⟩
  | finish hstate | defer hstate | promote hstate =>
    rw [hstate] at howner hdeadline
    exact ⟨by simpa using howner, by simpa using hdeadline⟩

section

variable {s s' : AcquisitionState} {ok : TurnKind → InFlightBatch → Prop}

theorem Valid.reshaped (hv : Valid s) (h : Reshaped s s') : Valid s' := by
  refine ⟨?_, fun b hb => ?_⟩
  · rw [h.startOffset, h.endOffset]
    exact (h.runs _ _ hv.tiles).1
  · obtain ⟨b', hb', hvalue⟩ := h.runs.exists_value hv.tiles hb
    rw [← hvalue]
    exact hv.locks b' hb'

theorem Valid.rewritten (hv : Valid s) (h : Rewritten ok s s') : Valid s' := by
  obtain ⟨⟨rs₁, rs₂, h₁, hpass, h₂⟩, hstart, hend⟩ := h
  have htiles₁ := (h₁ _ _ hv.tiles).1
  have htiles₂ := hpass.tiles htiles₁
  refine ⟨?_, fun b hb => ?_⟩
  · rw [hstart, hend]
    exact (h₂ _ _ htiles₂).1
  · obtain ⟨b₂, hb₂, hvalue⟩ := h₂.exists_value htiles₂ hb
    have hfits₁ : ∀ b₁ ∈ rs₁, b₁.value.LockFits := by
      intro b₁ hb₁
      obtain ⟨b₀, hb₀, hvalue₀⟩ := h₁.exists_value hv.tiles hb₁
      rw [← hvalue₀]
      exact hv.locks b₀ hb₀
    rw [← hvalue]
    rcases hpass.exists_value hb₂ with hb₁ | ⟨k₁, b₁, k₂, hb₁, kind, -, hturn⟩
    · exact hfits₁ b₂ hb₁
    · exact hturn.lockFits (hfits₁ b₁ hb₁)

theorem Valid.prunes {done rest : List InFlightBatch} (hv : Valid s) (h : Prunes s s' done rest) :
    Valid s' := by
  refine ⟨h.tiles_after hv.tiles, fun b hb => ?_⟩
  obtain ⟨b', hb', hvalue⟩ := h.runs.exists_value (h.rest_tiles hv.tiles) hb
  rw [← hvalue]
  exact hv.locks b' (by rw [h.batches]; exact List.mem_append_right done hb')

theorem Valid.advanceSpso (hv : Valid s) : Valid s.advanceSpso := by
  obtain ⟨done, rest, h⟩ := advanceSpso_prunes hv.tiles
  exact hv.prunes h

theorem Valid.jumpTo (hv : Valid s) (logStart : Int) : Valid (s.jumpTo logStart) := by
  rcases jumpTo_cases hv.tiles logStart with h | ⟨hempty, -, h⟩
  · rw [h]
    exact hv
  · rw [h]
    exact ⟨by rw [hempty]; rfl, by rw [hempty]; simp⟩

theorem Valid.materialize (hv : Valid s) (hwm maxRecordLocks : Int) :
    Valid (s.materialize hwm maxRecordLocks) := by
  rcases materialize_cases s hwm maxRecordLocks with h | ⟨last, hlast, hshape⟩
  · rw [h]
    exact hv
  · refine Valid.reshaped ⟨?_, ?_⟩ hshape
    · exact tiles_append.mpr ⟨s.endOffset, hv.tiles, rfl, hlast, rfl⟩
    · intro b hb
      rcases List.mem_append.mp hb with hb | hb
      · exact hv.locks b hb
      · obtain rfl := List.mem_singleton.mp hb
        exact ⟨by simp, by simp⟩

theorem Valid.dirty (hv : Valid s) (dirty : Bool) : Valid { s with dirty := dirty } :=
  ⟨hv.tiles, hv.locks⟩

theorem Valid.settled (hv : Valid s) (op : Op) : Valid (op.settled s) := by
  by_cases hplain : op.IsPlain
  · exact hv.rewritten (settled_rewritten hv.tiles hplain)
  · cases op with
    | materialize hwm maxRecordLocks => exact hv.materialize hwm maxRecordLocks
    | setDlqEnabled | takePendingDlq => exact ⟨hv.tiles, hv.locks⟩
    | _ => exact absurd trivial hplain

/-- **Every operation keeps the window valid.** -/
theorem Valid.run (hv : Valid s) (op : Op) : Valid (op.run s) := by
  have hsettled := hv.settled op
  rcases run_cases s op with ⟨h, -⟩ | ⟨dirty, h⟩ | ⟨logStart, -, -, h⟩
  · rw [h]
    exact hsettled
  · rw [h]
    exact (hsettled.dirty dirty).advanceSpso
  · rw [h]
    exact hsettled.advanceSpso.jumpTo logStart

end

theorem new_valid (start : Int) : Valid (.new start) := ⟨rfl, by simp [new]⟩

/-! ## Reloads -/

/-- What a delivery is after it was written and read back. -/
def Delivery.reread (d : Delivery) : Delivery :=
  ⟨.ofCode d.state.code, d.deliveryCount, none, none⟩

/-- The machine that the next leader builds from what `s` writes. -/
def reload (s fresh : AcquisitionState) (stateEpoch leaderEpoch : Int) : AcquisitionState :=
  fresh.loadFrom s.toPersistBatches.1 stateEpoch leaderEpoch s.toPersistBatches.2.2

/-- The reloaded machine before it prunes a terminal prefix. -/
def reloadSettled (s fresh : AcquisitionState) (stateEpoch leaderEpoch : Int) : AcquisitionState :=
  fresh.restored s.toPersistBatches.1 stateEpoch leaderEpoch s.toPersistBatches.2.2

section

variable {s : AcquisitionState} (fresh : AcquisitionState) (stateEpoch leaderEpoch : Int)

theorem reloadSettled_batches :
    (reloadSettled s fresh stateEpoch leaderEpoch).batches =
      s.batches.map (mapValue Delivery.reread) := by
  simp only [reloadSettled, restored, toPersistBatches, List.map_map]
  rfl

theorem reloadSettled_endOffset (h : Tiles s.batches s.startOffset s.endOffset) :
    (reloadSettled s fresh stateEpoch leaderEpoch).endOffset = s.endOffset := by
  have hbatches := reloadSettled_batches (s := s) fresh stateEpoch leaderEpoch
  have hmax := ((tiles_mapValue Delivery.reread).mpr h).foldl_max
  rw [← hbatches] at hmax
  exact hmax

theorem reread_lockFits (d : Delivery) : d.reread.LockFits := by
  have hne : d.reread.state ≠ .acquired := by
    show RecordState.ofCode d.state.code ≠ .acquired
    cases d.state <;> decide
  exact ⟨by simpa [Delivery.reread] using hne, by simpa [Delivery.reread] using hne⟩

theorem Valid.reloadSettled (hv : Valid s) :
    Valid (reloadSettled s fresh stateEpoch leaderEpoch) := by
  refine ⟨?_, fun b hb => ?_⟩
  · rw [reloadSettled_batches, reloadSettled_endOffset fresh stateEpoch leaderEpoch hv.tiles]
    exact (tiles_mapValue Delivery.reread).mpr hv.tiles
  · rw [reloadSettled_batches] at hb
    obtain ⟨b', -, rfl⟩ := List.mem_map.mp hb
    exact reread_lockFits b'.value

theorem Valid.reload (hv : Valid s) : Valid (reload s fresh stateEpoch leaderEpoch) :=
  (hv.reloadSettled fresh stateEpoch leaderEpoch).advanceSpso

end

/-! ## Runs -/

/-- An operation, or a change of the leader, which loads what the old leader
would write into a machine of its own. -/
inductive Action
  | op (op : Op)
  | reload (fresh : AcquisitionState) (stateEpoch leaderEpoch : Int)

def Action.run (s : AcquisitionState) : Action → AcquisitionState
  | .op operation => operation.run s
  | .reload fresh stateEpoch leaderEpoch => Share.reload s fresh stateEpoch leaderEpoch

/-- The state inside an action just before it moves the start offset. -/
def Action.settled (s : AcquisitionState) : Action → AcquisitionState
  | .op operation => operation.settled s
  | .reload fresh stateEpoch leaderEpoch => reloadSettled s fresh stateEpoch leaderEpoch

/-- Runs of operations and reloads from an empty window. -/
def system : TransitionSystem AcquisitionState Action :=
  .ofFun (fun s => ∃ start, s = .new start) Action.run

theorem Valid.action (hv : Valid s) (a : Action) : Valid (a.run s) := by
  cases a with
  | op op => exact hv.run op
  | reload fresh stateEpoch leaderEpoch => exact hv.reload fresh stateEpoch leaderEpoch

theorem reachable_foldl (h : system.Reachable s) (ops : List Op) :
    system.Reachable (ops.foldl Op.run s) := by
  induction ops generalizing s with
  | nil => exact h
  | cons op ops ih =>
    have hstep : system.step s (.op op) (op.run s) := rfl
    exact ih (.step h hstep)

theorem reachable_new (start : Int) : system.Reachable (.new start) := .init ⟨start, rfl⟩

theorem valid_of_reachable (h : system.Reachable s) : Valid s := by
  refine h.invariant ?_ ?_
  · rintro s ⟨start, rfl⟩
    exact new_valid start
  · rintro s a s' hv rfl
    exact hv.action a

/-- **The walk of an acquisition ends.**  After any run, turns beyond the records
asked for and the runs in the window change nothing. -/
theorem acquireLoop_ends (start : Int) (actions : List Action) (a : AcquireArgs) (w : AcquireWalk)
    (extra : Nat) :
    let batches := (actions.foldl Action.run (.new start)).batches
    acquireLoop a (w.remaining.toNat + batches.length + extra) w batches =
      acquireLoop a (w.remaining.toNat + batches.length) w batches := by
  have hv : Valid (actions.foldl Action.run (.new start)) :=
    List.foldlRecOn actions _ (new_valid start) fun _ hs a _ => hs.action a
  induction extra with
  | zero => rfl
  | succ extra ih =>
    exact (acquireLoop_fuel a (fun _ hb => hv.tiles.nonempty hb) (Nat.le_add_right ..)).trans ih

end Krabka.Share

import Krabka.Share.Operations

/-!
# What an operation does to the window

Every operation is described once, and the results about runs of operations are
read off the description.  A `Turn` is what can happen to one run: it is
acquired, given back, settled by an acknowledgement, archived, queued for the
dead-letter queue, finished behind it, deferred, promoted or renewed.
`settled_rewritten` says that an operation, up to the point where it moves the
start offset, cuts and joins runs and makes one pass of such turns over them,
and `Op.Makes` says which turns on which runs.  `run_cases` says what follows:
nothing, `advance_spso` (`advanceSpso_prunes`), or the jump to a log start.
-/

namespace Krabka.Share

open Run AcquisitionState
open List hiding splitAt

/-! ## Turns -/

inductive TurnKind
  | acquire
  | release
  | settle
  | archive
  | queue
  | finish
  | defer
  | promote
  | renew
  deriving DecidableEq

/-- `Turn kind k b v k'`: the run `b` may get the delivery `v` while the sink
goes from `k` to `k'`. -/
inductive Turn : TurnKind → ArchiveSink → InFlightBatch → Delivery → ArchiveSink → Prop
  | acquire {k b} (member : Member) (deadline : Int) (h : b.value.state = .available) :
      Turn .acquire k b ⟨.acquired, b.value.deliveryCount + 1, some member, some deadline⟩ k
  | release {k b} (h : b.value.state = .acquired) :
      Turn .release k b { b.value.clearAcquisition with state := .available } k
  | settle {k b} (state : RecordState) (hstate : state.isTerminal = true)
      (h : b.value.state = .acquired) :
      Turn .settle k b { b.value.clearAcquisition with state := state }
        { k with deliveryCompleteCount := wrap (k.deliveryCompleteCount + clampI32 b.len) }
  | archive {k b} (h : b.value.isTerminal = false) :
      Turn .archive k b { b.value.clearAcquisition with state := .archived }
        { k with deliveryCompleteCount := saturate (k.deliveryCompleteCount + clampI32 b.len) }
  | queue {k b} (cause : DlqCause) (hqueue : k.dlqEnabled = true)
      (h : b.value.state = .available ∨ b.value.state = .acquired) :
      Turn .queue k b { b.value.clearAcquisition with state := .archiving }
        { k with
          pendingDlq := k.pendingDlq ++
            [⟨b.firstOffset, b.lastOffset, b.value.deliveryCount, some cause⟩] }
  | finish {k b} (h : b.value.state = .archiving) :
      Turn .finish k b { b.value with state := .archived }
        { k with deliveryCompleteCount := saturate (k.deliveryCompleteCount + clampI32 b.len) }
  | defer {k b} (h : b.value.state = .available) :
      Turn .defer k b { b.value with state := .deferred } k
  | promote {k b} (h : b.value.state = .deferred) :
      Turn .promote k b { b.value with state := .available } k
  | renew {k b} (deadline : Int) (h : b.value.state = .acquired) :
      Turn .renew k b { b.value with lockDeadline := some deadline } k

variable {b : InFlightBatch}

theorem Turn.dlqEnabled {kind : TurnKind} {k k' : ArchiveSink} {v : Delivery}
    (h : Turn kind k b v k') : k'.dlqEnabled = k.dlqEnabled := by
  cases h <;> rfl

theorem Turn.not_terminal {kind : TurnKind} {k k' : ArchiveSink}
    {v : Delivery} (h : Turn kind k b v k') : b.value.isTerminal = false := by
  cases h with
  | archive h => exact h
  | queue _ _ h => rcases h with h | h <;> simp [Delivery.isTerminal, h, RecordState.isTerminal]
  | acquire _ _ h | release h | settle _ _ h | finish h | defer h | promote h | renew _ h =>
    simp [Delivery.isTerminal, h, RecordState.isTerminal]

/-- The turns that `ok` allows on the runs it allows them on. -/
def Turning (ok : TurnKind → InFlightBatch → Prop) (k : ArchiveSink) (b : InFlightBatch)
    (v : Delivery) (k' : ArchiveSink) : Prop :=
  ∃ kind, ok kind b ∧ Turn kind k b v k'

/-- One pass of turns over the reshaped window; the window stays where it is. -/
structure Rewritten (ok : TurnKind → InFlightBatch → Prop) (s s' : AcquisitionState) : Prop where
  runs : Rewrites (Turning ok) s.sink s.batches s'.batches s'.sink
  startOffset : s'.startOffset = s.startOffset
  endOffset : s'.endOffset = s.endOffset

section

variable {ok : TurnKind → InFlightBatch → Prop} {s s' s'' : AcquisitionState}

theorem Rewritten.refl (s : AcquisitionState) : Rewritten ok s s :=
  ⟨(Reshapes.refl s.batches).rewrites s.sink, rfl, rfl⟩

/-- Only the geometry of the window changes. -/
structure Reshaped (s s' : AcquisitionState) : Prop where
  runs : Reshapes s.batches s'.batches
  sink : s'.sink = s.sink
  startOffset : s'.startOffset = s.startOffset
  endOffset : s'.endOffset = s.endOffset

theorem Reshaped.refl (s : AcquisitionState) : Reshaped s s := ⟨.refl _, rfl, rfl, rfl⟩

theorem Reshaped.trans (h : Reshaped s s') (h' : Reshaped s' s'') : Reshaped s s'' :=
  ⟨h.runs.trans h'.runs, h'.sink.trans h.sink, h'.startOffset.trans h.startOffset,
    h'.endOffset.trans h.endOffset⟩

theorem Reshaped.rewritten (h : Reshaped s s') : Rewritten ok s s' := by
  refine ⟨?_, h.startOffset, h.endOffset⟩
  rw [h.sink]
  exact h.runs.rewrites s.sink

theorem Rewritten.before (h : Reshaped s s') (h' : Rewritten ok s' s'') : Rewritten ok s s'' := by
  refine ⟨?_, h'.startOffset.trans h.startOffset, h'.endOffset.trans h.endOffset⟩
  have hruns := h'.runs
  rw [h.sink] at hruns
  exact hruns.before h.runs

theorem Rewritten.after (h : Rewritten ok s s') (h' : Reshaped s' s'') : Rewritten ok s s'' := by
  refine ⟨?_, h'.startOffset.trans h.startOffset, h'.endOffset.trans h.endOffset⟩
  rw [h'.sink]
  exact h.runs.after h'.runs

end

/-! ## Cutting and joining -/

theorem reshapes_splitAt (b : InFlightBatch) (split : Int) : Reshapes [b] (b.splitAt split) := by
  unfold InFlightBatch.splitAt
  split
  · exact Reshapes.refl [b]
  · exact reshapes_cut (by omega) (by omega)

variable (s : AcquisitionState)

theorem splitAt_reshaped (i : Nat) (split : Int) : Reshaped s (s.splitAt i split) := by
  unfold splitAt
  split
  · exact Reshaped.refl s
  · rename_i b hb
    refine ⟨?_, rfl, rfl, rfl⟩
    have hi := (List.getElem?_eq_some_iff.mp hb).1
    have hsplit : s.batches = s.batches.take i ++ [b] ++ s.batches.drop (i + 1) := by
      rw [← (List.getElem?_eq_some_iff.mp hb).2, List.take_append_getElem, List.take_append_drop]
    conv => enter [1]; rw [hsplit]
    exact ((Reshapes.refl _).append (reshapes_splitAt b split)).append (Reshapes.refl _)

theorem splitAtOffset_reshaped (offset : Int) : Reshaped s (s.splitAtOffset offset) := by
  unfold splitAtOffset
  split
  · exact splitAt_reshaped s _ offset
  · exact Reshaped.refl s

theorem splitValidRange_reshaped (first last : Int) :
    Reshaped s (s.splitValidRange first last).1 := by
  unfold splitValidRange
  split
  · exact Reshaped.refl s
  · exact (splitAtOffset_reshaped s first).trans (splitAtOffset_reshaped _ (last + 1))

theorem coalesceFrom_reshapes (previous : InFlightBatch) (rest : List InFlightBatch) :
    Reshapes (previous :: rest) (coalesceFrom previous rest) := by
  induction rest generalizing previous with
  | nil => exact Reshapes.refl [previous]
  | cons current rest ih =>
    rw [coalesceFrom]
    split
    · rename_i hjoin
      exact ((reshapes_join hjoin.1 hjoin.2).append (Reshapes.refl rest)).trans (ih _)
    · exact (ih current).cons previous

theorem coalesce_reshaped : Reshaped s s.coalesce := by
  refine ⟨?_, rfl, rfl, rfl⟩
  unfold coalesce
  split
  · rename_i h
    rw [h]
    exact Reshapes.refl []
  · rename_i b rest h
    rw [h]
    exact coalesceFrom_reshapes b rest

/-! ## Clean cuts -/

theorem exists_of_mem_splitAt {r : InFlightBatch} {split : Int} (hr : r ∈ b.splitAt split) :
    b.firstOffset ≤ r.firstOffset ∧ r.lastOffset ≤ b.lastOffset ∧ r.value = b.value := by
  unfold InFlightBatch.splitAt at hr
  split at hr
  · obtain rfl := mem_singleton.mp hr
    exact ⟨le_rfl, le_rfl, rfl⟩
  · rcases mem_cons.mp hr with rfl | htail
    · exact ⟨le_rfl, by dsimp only; omega, rfl⟩
    · obtain rfl := mem_singleton.mp htail
      exact ⟨by dsimp only; omega, le_rfl, rfl⟩

variable {s : AcquisitionState}

theorem splitAtOffset_keeps_clean {c : Int} (offset : Int)
    (h : Clean s.batches c) : Clean (s.splitAtOffset offset).batches c := by
  unfold splitAtOffset
  split
  · unfold splitAt
    split
    · exact h
    · rename_i i _ b hb
      intro r hr
      rcases mem_append.mp hr with hr | hr
      · rcases mem_append.mp hr with hr | hr
        · exact h r (mem_of_mem_take hr)
        · obtain ⟨hlow, hhigh, -⟩ := exists_of_mem_splitAt hr
          have := h b (mem_of_getElem? hb)
          omega
      · exact h r (mem_of_mem_drop hr)
  · exact h

variable {a e : Int}

theorem splitAtOffset_clean (h : Tiles s.batches a e)
    (offset : Int) : Clean (s.splitAtOffset offset).batches offset := by
  unfold splitAtOffset
  split
  · rename_i i hi
    obtain ⟨hlt, hat, hbefore⟩ := findIdx?_eq_some_iff_getElem.mp hi
    have hb : s.batches[i]? = some s.batches[i] := getElem?_eq_getElem hlt
    have hcross : s.batches[i].firstOffset < offset ∧ offset ≤ s.batches[i].lastOffset := by
      simp only [Bool.and_eq_true, decide_eq_true_eq] at hat
      omega
    rw [splitAt, hb]
    intro r hr
    rcases mem_append.mp hr with hr | hr
    · rcases mem_append.mp hr with hr | hr
      · -- A run before the one that was cut did not cross.
        obtain ⟨j, hj, rfl⟩ := mem_take_iff_getElem.mp hr
        have := hbefore j (by omega)
        simp only [Bool.and_eq_true, decide_eq_true_eq, not_and, not_le] at this
        by_cases hlow : s.batches[j].firstOffset + 1 ≤ offset
        · exact .inl (this hlow)
        · exact .inr (by omega)
      · rw [InFlightBatch.splitAt, if_neg (by omega)] at hr
        rcases mem_cons.mp hr with rfl | htail
        · exact .inl (by dsimp only; omega)
        · obtain rfl := mem_singleton.mp htail
          exact .inr le_rfl
    · -- A run behind it starts behind its end.
      have hsplit : s.batches = s.batches.take i ++ s.batches[i] :: s.batches.drop (i + 1) := by
        rw [← drop_eq_getElem_cons hlt, take_append_drop]
      rw [hsplit] at h
      obtain ⟨m, -, -, -, hrest⟩ := tiles_append.mp h
      have := (hrest.lookup_bounds (hrest.lookup_first hr)).1
      exact .inr (by omega)
  · rename_i hnone
    intro r hr
    have := findIdx?_eq_none_iff.mp hnone r hr
    simp only [Bool.and_eq_false_iff, decide_eq_false_iff_not] at this
    omega

variable {first last : Int}

theorem splitValidRange_inside (h : Tiles s.batches a e) (hvalid : first ≤ last)
    (hb : b ∈ (s.splitValidRange first last).1.batches) (hlow : first ≤ b.lastOffset)
    (hhigh : b.firstOffset ≤ last) : first ≤ b.firstOffset ∧ b.lastOffset ≤ last := by
  have hcut := (splitAtOffset_reshaped s first).runs a e h
  rw [splitValidRange, if_neg (by omega)] at hb
  exact (splitAtOffset_keeps_clean (last + 1) (splitAtOffset_clean h first)).inside
    (splitAtOffset_clean hcut.1 (last + 1)) hb hlow hhigh

/-! ## Loops over the runs -/

section

variable {ok : TurnKind → InFlightBatch → Prop} {s : AcquisitionState}

variable {k : ArchiveSink}

theorem Turning.dlqEnabled {k' : ArchiveSink} {v : Delivery}
    (h : Turning ok k b v k') : k'.dlqEnabled = k.dlqEnabled := by
  obtain ⟨kind, -, hturn⟩ := h
  exact hturn.dlqEnabled

theorem Pass.dlqEnabled {k' : ArchiveSink} {rs rs' : List InFlightBatch}
    (h : Pass (Turning ok) k rs rs' k') : k'.dlqEnabled = k.dlqEnabled :=
  h.acc (P := fun k' => k'.dlqEnabled = k.dlqEnabled)
    (fun _ _ _ _ hk hturn => (Turning.dlqEnabled hturn).trans hk) rfl

theorem sink_eq (hdlq : k.dlqEnabled = s.dlqEnabled)
    (hcount : s.deliveryCompleteCount = k.deliveryCompleteCount)
    (hpending : s.pendingDlq = k.pendingDlq) : s.sink = k := by
  cases k
  simp_all [sink]

theorem sweepRuns_rewritten {f : ArchiveSink → InFlightBatch → Delivery × ArchiveSink}
    (hf : ∀ k, ∀ b ∈ s.batches, f k b = (b.value, k) ∨ Turning ok k b (f k b).1 (f k b).2) :
    Rewritten ok s (s.sweepRuns f) := by
  have hpass := sweep_pass (T := Turning ok) hf s.sink
  refine ⟨?_, rfl, rfl⟩
  rw [sink_eq (s := s.sweepRuns f) (Pass.dlqEnabled hpass) rfl rfl]
  exact hpass.rewrites

theorem archive_turning (cause : DlqCause) (hqueue : ok .queue b) (harchive : ok .archive b)
    (h : b.value.state = .available ∨ b.value.state = .acquired) :
    Turning ok k b (k.archive b cause).1 (k.archive b cause).2 := by
  unfold ArchiveSink.archive
  split
  · rename_i hdlq
    exact ⟨.queue, hqueue, .queue cause hdlq h⟩
  · refine ⟨.archive, harchive, .archive ?_⟩
    rcases h with h | h <;> simp [Delivery.isTerminal, h, RecordState.isTerminal]

theorem giveBack_turning (maxAttempts : Int)
    (hok : ∀ kind, kind ≠ .acquire → ok kind b) (h : b.value.state = .acquired) :
    Turning ok k b (giveBack b maxAttempts k).1 (giveBack b maxAttempts k).2 := by
  unfold giveBack
  split
  · exact archive_turning _ (hok _ (by decide)) (hok _ (by decide)) (.inr h)
  · exact ⟨.release, hok _ (by decide), .release h⟩

theorem applyAck_turning (ack : AckType) (maxAttempts : Int)
    (hok : ∀ kind, kind ≠ .acquire → ok kind b) (h : b.value.state = .acquired) :
    Turning ok k b (applyAck b ack maxAttempts k).1 (applyAck b ack maxAttempts k).2 := by
  cases ack with
  | accept | gap => exact ⟨.settle, hok _ (by decide), .settle _ rfl h⟩
  | release => exact giveBack_turning maxAttempts hok h
  | reject => exact archive_turning _ (hok _ (by decide)) (hok _ (by decide)) (.inr h)

theorem applyAction_turning (action : AckAction)
    (maxAttempts : Int) (hok : ∀ kind, kind ≠ .acquire → ok kind b)
    (h : b.value.state = .acquired) :
    Turning ok k b (applyAction b action maxAttempts k).1
      (applyAction b action maxAttempts k).2 := by
  cases action with
  | disposition ack => exact applyAck_turning ack maxAttempts hok h
  | renew deadline => exact ⟨.renew, hok _ (by decide), .renew deadline h⟩

theorem archiveMatching_rewritten {eligible : InFlightBatch → Bool} {clear : Bool}
    (hturn : ∀ k, ∀ b ∈ s.batches, eligible b = true → Turning ok k b
      (if clear then { b.value with state := .archived }.clearAcquisition
        else { b.value with state := .archived })
      { k with deliveryCompleteCount := saturate (k.deliveryCompleteCount + clampI32 b.len) }) :
    Rewritten ok s (s.archiveMatching eligible clear).1 := by
  refine sweepRuns_rewritten fun k b hb => ?_
  split
  · rename_i helig
    exact .inr (hturn k b hb helig)
  · exact .inl rfl

end

/-! ## The walk of an acquisition -/

section

variable {ok : TurnKind → InFlightBatch → Prop}

theorem splitAt_cons {head : InFlightBatch} {tail : List InFlightBatch} {split : Int}
    (h : b.splitAt split = head :: tail) : head.value = b.value :=
  (exists_of_mem_splitAt (h ▸ mem_cons_self)).2.2

theorem acquireLoop_pass (a : AcquireArgs) (hok : ∀ b : InFlightBatch, b.value.state = .available →
      ok .acquire b ∧ ok .archive b ∧ ok .queue b)
    (fuel : Nat) (w : AcquireWalk) (batches : List InFlightBatch) :
    ∃ cut, Reshapes batches cut ∧ Pass (Turning ok) w.sink cut (acquireLoop a fuel w batches).1
      (acquireLoop a fuel w batches).2.sink := by
  induction fuel generalizing w batches with
  | zero => exact ⟨batches, .refl _, .refl _ _⟩
  | succ fuel ih =>
    cases batches with
    | nil => exact ⟨[], .refl _, .nil⟩
    | cons b rest =>
      rw [acquireLoop]
      split
      · exact ⟨b :: rest, .refl _, .refl _ _⟩
      split
      · -- A batch that is not available is stepped over.
        obtain ⟨cut, hcut, hpass⟩ := ih w rest
        exact ⟨b :: cut, hcut.cons b, .keep hpass⟩
      rename_i havail
      have hstate : b.value.state = .available := by simpa using havail
      split
      · obtain ⟨cut, hcut, hpass⟩ := ih
          { w with sink := (w.sink.archive b .deliveryCountExceeded).2, anyChange := true,
                   archived := true } rest
        exact ⟨b :: cut, hcut.cons b,
          .turn (archive_turning _ (hok b hstate).2.2 (hok b hstate).2.1 (.inl hstate)) hpass⟩
      split
      · exact ⟨b :: rest, .refl _, .refl _ _⟩
      split
      · exact ⟨b :: rest, .refl _, .refl _ _⟩
      · rename_i head tail hsplit
        have hhead : head.value.state = .available := by rw [splitAt_cons hsplit, hstate]
        have hturn : Turning ok w.sink head (a.handOut head.value) w.sink :=
          ⟨.acquire, (hok head hhead).1, .acquire a.member (a.now + a.lockDur) hhead⟩
        have hcut : Reshapes (b :: rest) (head :: (tail ++ rest)) := by
          have := (reshapes_splitAt b (a.splitPoint b w.remaining)).append (Reshapes.refl rest)
          rwa [hsplit] at this
        split
        · exact ⟨head :: (tail ++ rest), hcut, .turn hturn (.refl _ _)⟩
        · obtain ⟨cut, hcut', hpass⟩ := ih
            { w with
              acquired := w.acquired ++
                [⟨head.firstOffset, head.lastOffset, (a.handOut head.value).deliveryCount⟩]
              remaining := w.remaining - head.len
              anyChange := true } (tail ++ rest)
          exact ⟨head :: cut, hcut.trans (hcut'.cons head), .turn hturn hpass⟩

theorem splitAt_measure {head : InFlightBatch} {tail : List InFlightBatch} {split : Int}
    (hne : b.firstOffset ≤ b.lastOffset) (h : b.splitAt split = head :: tail) :
    1 ≤ head.len ∧ tail.length ≤ 1 ∧ ∀ r ∈ tail, r.firstOffset ≤ r.lastOffset := by
  unfold InFlightBatch.splitAt at h
  split at h
  · obtain ⟨rfl, rfl⟩ := cons.inj h
    exact ⟨by rw [len]; omega, by simp, by simp⟩
  · obtain ⟨rfl, rfl⟩ := cons.inj h
    exact ⟨by rw [len]; dsimp only; omega, by simp, by simp; omega⟩

variable {batches : List InFlightBatch}

/-- The fuel of `acquireRuns` is enough: more of it changes nothing. -/
theorem acquireLoop_fuel (a : AcquireArgs) {fuel : Nat} {w : AcquireWalk}
    (hne : ∀ b ∈ batches, b.firstOffset ≤ b.lastOffset)
    (hfuel : w.remaining.toNat + batches.length ≤ fuel) :
    acquireLoop a (fuel + 1) w batches = acquireLoop a fuel w batches := by
  induction fuel generalizing w batches with
  | zero =>
    obtain rfl : batches = [] := length_eq_zero_iff.mp (by omega)
    rfl
  | succ fuel ih =>
    cases batches with
    | nil => rfl
    | cons b rest =>
      rw [length_cons] at hfuel
      have hrest : ∀ c ∈ rest, c.firstOffset ≤ c.lastOffset :=
        fun c hc => hne c (mem_cons_of_mem b hc)
      rw [acquireLoop, acquireLoop]
      by_cases hstop : w.remaining ≤ 0 ∨ b.firstOffset > a.lastOffset
      · rw [if_pos hstop, if_pos hstop]
      rw [if_neg hstop, if_neg hstop]
      by_cases hstate : b.value.state ≠ .available
      · rw [if_pos hstate, if_pos hstate, ih hrest (by omega)]
      rw [if_neg hstate, if_neg hstate]
      by_cases hpoison : b.value.deliveryCount ≥ a.maxAttempts
      · rw [if_pos hpoison, if_pos hpoison]
        dsimp only
        rw [ih hrest (by dsimp only; omega)]
      rw [if_neg hpoison, if_neg hpoison]
      by_cases hthrottle : a.throttled b ∧ w.acquired ≠ []
      · rw [if_pos hthrottle, if_pos hthrottle]
      rw [if_neg hthrottle, if_neg hthrottle]
      cases hsplit : b.splitAt (a.splitPoint b w.remaining) with
      | nil => rfl
      | cons head tail =>
        obtain ⟨hlen, htail, hpieces⟩ := splitAt_measure (hne b mem_cons_self) hsplit
        dsimp only
        by_cases halone : a.throttled b
        · rw [if_pos halone, if_pos halone]
        · rw [if_neg halone, if_neg halone, ih]
          · intro c hc
            rcases mem_append.mp hc with hc | hc
            · exact hpieces c hc
            · exact hrest c hc
          · -- The budget pays for a tail that is walked again.
            rw [length_append]
            dsimp only
            omega

theorem acquireRuns_rewritten (s : AcquisitionState) (a : AcquireArgs)
    (hok : ∀ b : InFlightBatch, b.value.state = .available →
      ok .acquire b ∧ ok .archive b ∧ ok .queue b) : Rewritten ok s (s.acquireRuns a).1 := by
  obtain ⟨cut, hcut, hpass⟩ := acquireLoop_pass a hok
    ((max a.shape.maxRecords 0).toNat + s.batches.length)
    ⟨s.sink, [], max a.shape.maxRecords 0, false, false⟩ s.batches
  refine ⟨?_, rfl, rfl⟩
  rw [sink_eq (s := (s.acquireRuns a).1) (Pass.dlqEnabled hpass) rfl rfl]
  exact hpass.rewrites.before hcut

/-! ## The walk of a mixed acknowledgement -/

theorem acquiredFrom_held {member : Member} {cursor a e : Int} (h : Tiles batches a e)
    (hheld : acquiredFrom member first last batches cursor = true)
    (hb : b ∈ batches) (hlow : first ≤ b.lastOffset) (hhigh : b.firstOffset ≤ last) :
    b.value.state = .acquired ∧ b.value.acquiredBy = some member := by
  induction batches generalizing cursor a with
  | nil => cases hb
  | cons c rest ih =>
    obtain ⟨hfirst, hne, hrest⟩ := h
    rw [acquiredFrom] at hheld
    split at hheld
    · rcases mem_cons.mp hb with rfl | hb
      · omega
      · exact ih hrest hheld hb
    split at hheld
    · cases hheld
    split at hheld
    · cases hheld
    rename_i hc
    simp only [ne_eq, not_or, not_not] at hc
    rcases mem_cons.mp hb with rfl | hb
    · exact hc
    split at hheld
    · -- The cover has reached the end of the range.
      have := (hrest.lookup_bounds (hrest.lookup_first hb)).1
      omega
    · exact ih hrest hheld hb

/-- An action run covers at least one offset. -/
def AcquisitionState.MixedWalk.Positive (w : MixedWalk) : Prop :=
  ∀ action same, w.actionRun = some (action, same) → 1 ≤ same

theorem nextActionRun_positive {actions : List AckAction} {action : AckAction} {same : Nat}
    (h : (nextActionRun actions).1 = some (action, same)) : 1 ≤ same := by
  cases actions with
  | nil => exact absurd h (by simp [nextActionRun])
  | cons first rest =>
    simp only [nextActionRun, Option.some.injEq, Prod.mk.injEq] at h
    omega

theorem AcquisitionState.MixedWalk.consume_positive (w : MixedWalk) (action : AckAction)
    {same consumed : Nat} (h : consumed ≤ same) : (w.consume action same consumed).Positive := by
  intro action' same' hrun
  unfold MixedWalk.consume at hrun
  split at hrun
  · exact nextActionRun_positive hrun
  · simp only [Option.some.injEq, Prod.mk.injEq] at hrun
    omega

theorem AcquisitionState.MixedWalk.consume_sink (w : MixedWalk) (action : AckAction)
    (same consumed : Nat) :
    (w.consume action same consumed).sink = w.sink := by
  unfold MixedWalk.consume
  split <;> rfl

variable {w : MixedWalk}

theorem mixedPieces_pass {batch : InFlightBatch} (batchLast maxAttempts : Int)
    (hok : ∀ b : InFlightBatch, b.value.state = .acquired → ∀ kind, kind ≠ .acquire → ok kind b)
    (hacq : batch.value.state = .acquired) (fuel : Nat) (offset : Int)
    (hfuel : fuel = (batchLast + 1 - offset).toNat ∨ batchLast + 1 - offset ≤ fuel)
    (hoffset : offset ≤ batchLast + 1) (hw : w.Positive) :
    ∃ cut, Tiles cut offset (batchLast + 1) ∧ (∀ p ∈ cut, p.value = batch.value) ∧
      Pass (Turning ok) w.sink cut (mixedPieces batch batchLast maxAttempts fuel offset w).1
        (mixedPieces batch batchLast maxAttempts fuel offset w).2.sink ∧
      (mixedPieces batch batchLast maxAttempts fuel offset w).2.Positive := by
  induction fuel generalizing offset w with
  | zero => exact ⟨[], show offset = _ by omega, by simp, .nil, hw⟩
  | succ fuel ih =>
    rw [mixedPieces]
    split
    · exact ⟨[], show offset = _ by omega, by simp, .nil, hw⟩
    split
    · exact ⟨[{ batch with firstOffset := offset, lastOffset := batchLast }],
        ⟨rfl, by dsimp only; omega, rfl⟩, by simp, .refl _ _, hw⟩
    · rename_i action same hrun
      have hsame := hw action same hrun
      have hlow : offset ≤ min (offset + same - 1) batchLast := by omega
      have hhigh : min (offset + same - 1) batchLast ≤ batchLast := by omega
      generalize min (offset + same - 1) batchLast = runLast at hlow hhigh
      obtain ⟨cut, htiles, hvalue, hpass, hpos⟩ := ih (runLast + 1)
        (w := { w with
            sink := (applyAction { batch with firstOffset := offset, lastOffset := runLast } action
              maxAttempts w.sink).2 }.consume action same (min (runLast - offset + 1).toNat same))
        (by omega) (by omega) (MixedWalk.consume_positive _ _ (by omega))
      rw [MixedWalk.consume_sink] at hpass
      refine ⟨{ batch with firstOffset := offset, lastOffset := runLast } :: cut,
        ⟨rfl, hlow, htiles⟩, ?_, .turn (applyAction_turning action maxAttempts ?_ hacq) hpass,
        hpos⟩
      · intro p hp
        rcases mem_cons.mp hp with rfl | hp
        · rfl
        · exact hvalue p hp
      · exact hok _ hacq

theorem mixedBatch_pass {batch : InFlightBatch} (maxAttempts : Int)
    (hok : ∀ b : InFlightBatch, b.value.state = .acquired → ∀ kind, kind ≠ .acquire → ok kind b)
    (hacq : first ≤ batch.lastOffset → batch.firstOffset ≤ last → batch.value.state = .acquired)
    (hrange : first ≤ last + 1) (hne : batch.firstOffset ≤ batch.lastOffset) (hw : w.Positive) :
    ∃ cut, Reshapes [batch] cut ∧
      Pass (Turning ok) w.sink cut (mixedBatch batch first last maxAttempts w).1
        (mixedBatch batch first last maxAttempts w).2.sink ∧
      (mixedBatch batch first last maxAttempts w).2.Positive := by
  unfold mixedBatch
  split
  · exact ⟨[batch], .refl _, .refl _ _, hw⟩
  obtain ⟨cut, htiles, hvalue, hpass, hpos⟩ :=
    mixedPieces_pass (min batch.lastOffset last) maxAttempts
    hok (hacq (by omega) (by omega)) _ (max batch.firstOffset first) (.inl rfl) (by omega) hw
  refine ⟨_ ++ cut ++ _, reshapes_pieces ?_ ?_,
    ((Pass.refl w.sink _).append hpass).append (Pass.refl _ _), hpos⟩
  · refine tiles_append.mpr ⟨min batch.lastOffset last + 1, tiles_append.mpr
      ⟨max batch.firstOffset first, ?_, htiles⟩, ?_⟩
    · split
      · exact ⟨rfl, by dsimp only; omega, show first - 1 + 1 = _ by omega⟩
      · exact show batch.firstOffset = _ by omega
    · split
      · exact ⟨show last + 1 = _ by omega, by dsimp only; omega, rfl⟩
      · exact show _ = batch.lastOffset + 1 by omega
  · intro p hp
    rcases mem_append.mp hp with hp | hp
    · rcases mem_append.mp hp with hp | hp
      · split at hp
        · obtain rfl := mem_singleton.mp hp
          rfl
        · cases hp
      · exact hvalue p hp
    · split at hp
      · obtain rfl := mem_singleton.mp hp
        rfl
      · cases hp

theorem mixedBatches_pass (maxAttempts : Int)
    (hok : ∀ b : InFlightBatch, b.value.state = .acquired → ∀ kind, kind ≠ .acquire → ok kind b)
    (hacq : ∀ b ∈ batches, first ≤ b.lastOffset → b.firstOffset ≤ last →
      b.value.state = .acquired)
    (hrange : first ≤ last + 1) (hne : ∀ b ∈ batches, b.firstOffset ≤ b.lastOffset)
    (hw : w.Positive) :
    ∃ cut, Reshapes batches cut ∧
      Pass (Turning ok) w.sink cut (mixedBatches first last maxAttempts batches w).1
        (mixedBatches first last maxAttempts batches w).2.sink := by
  induction batches generalizing w with
  | nil => exact ⟨[], .refl _, .nil⟩
  | cons b rest ih =>
    obtain ⟨cut, hcut, hpass, hpos⟩ := mixedBatch_pass maxAttempts hok (hacq b mem_cons_self)
      hrange (hne b mem_cons_self) hw
    obtain ⟨cut', hcut', hpass'⟩ := ih (fun c hc => hacq c (mem_cons_of_mem b hc))
      (fun c hc => hne c (mem_cons_of_mem b hc)) hpos
    exact ⟨cut ++ cut', hcut.append hcut', hpass.append hpass'⟩

theorem mixedRuns_rewritten {s : AcquisitionState} (actions : List AckAction) (maxAttempts : Int)
    (hok : ∀ b : InFlightBatch, b.value.state = .acquired → ∀ kind, kind ≠ .acquire → ok kind b)
    (hacq : ∀ b ∈ s.batches, first ≤ b.lastOffset → b.firstOffset ≤ last →
      b.value.state = .acquired)
    (hrange : first ≤ last + 1) (hne : ∀ b ∈ s.batches, b.firstOffset ≤ b.lastOffset) :
    Rewritten ok s (s.mixedRuns first last actions maxAttempts) := by
  obtain ⟨cut, hcut, hpass⟩ := mixedBatches_pass maxAttempts hok hacq hrange hne
    (w := ⟨s.sink, (nextActionRun actions).1, (nextActionRun actions).2⟩)
    (fun _ _ h => nextActionRun_positive h)
  refine ⟨?_, rfl, rfl⟩
  rw [sink_eq (s := s.mixedRuns first last actions maxAttempts) (Pass.dlqEnabled hpass) rfl rfl]
  exact hpass.rewrites.before hcut

end

/-! ## The operations -/

/-- The turns that an operation makes, and on which runs. -/
def Op.Makes : Op → TurnKind → InFlightBatch → Prop
  | .archiveInternal first last, kind, b =>
    kind = .archive ∧ first ≤ b.firstOffset ∧ b.lastOffset ≤ last
  | .advancePastLogStart _, kind, b =>
    kind = .archive ∧ (b.value.state = .available ∨ b.value.state = .deferred)
  | .archiveExhausted _, kind, b =>
    (kind = .archive ∨ kind = .queue) ∧ b.value.state = .available
  | .acquireShaped _, kind, b =>
    (kind = .acquire ∨ kind = .archive ∨ kind = .queue) ∧ b.value.state = .available
  | .acknowledge .., kind, b | .acknowledgeMixedWith .., kind, b | .expireLocks .., kind, b
  | .releaseMember .., kind, b =>
    kind ≠ .acquire ∧ b.value.state = .acquired
  | .renew .., kind, _ => kind = .renew
  | .deferInternal .., kind, _ => kind = .defer
  | .promoteDeferred, kind, _ => kind = .promote
  | .finishArchiving first last, kind, b =>
    kind = .finish ∧ first ≤ b.firstOffset ∧ b.lastOffset ≤ last
  | _, _, _ => False

/-- The operations that change the window otherwise. -/
def Op.IsPlain : Op → Prop
  | .materialize .. | .setDlqEnabled _ | .takePendingDlq => False
  | _ => True

theorem acquiredWithin_state
    (h : b.acquiredWithin first last = true) : b.value.state = .acquired := by
  simp only [InFlightBatch.acquiredWithin, Bool.and_eq_true, beq_iff_eq] at h
  exact h.2

theorem splitAcquiredRange_reshaped {s' : AcquisitionState} {member : Member} {first' last' : Int}
    (h : s.splitAcquiredRange member first last = .ok (some (s', first', last'))) :
    Reshaped s s' := by
  unfold splitAcquiredRange at h
  split at h
  · cases h
  split at h
  · cases h
  · cases h
  split at h
  · obtain ⟨rfl, -, -⟩ := h
    exact (splitAtOffset_reshaped s _).trans (splitAtOffset_reshaped _ _)
  · cases h

theorem mixedRange_ok {member : Member} {first' last' : Int}
    {actionCount : Nat} {actions : Nat → Nat → List AckAction} {live : List AckAction}
    (htiles : Tiles s.batches a e)
    (h : s.mixedRange member first last actionCount actions = .ok (some (first', last', live))) :
    first' ≤ last' + 1 ∧ ∀ b ∈ s.batches, first' ≤ b.lastOffset → b.firstOffset ≤ last' →
      b.value.state = .acquired := by
  unfold mixedRange at h
  split at h
  · cases h
  split at h
  · cases h
  · cases h
  rename_i liveFirst liveLast hbounds
  split at h
  · cases h
  rename_i hheld
  split at h
  · cases h
  dsimp only at h
  split at h
  · cases h
  obtain ⟨rfl, rfl, -⟩ := h
  refine ⟨?_, fun b hb hlow hhigh =>
    (acquiredFrom_held htiles (by simpa [rangeAcquiredBy] using hheld) hb hlow hhigh).1⟩
  unfold ackBounds at hbounds
  split at hbounds
  · cases hbounds
  split at hbounds
  · cases hbounds
  split at hbounds
  · cases hbounds
  simp only [Except.ok.injEq, Option.some.injEq, Prod.mk.injEq] at hbounds
  omega

theorem archiveBelow_rewritten {ok : TurnKind → InFlightBatch → Prop} (s : AcquisitionState)
    (logStart : Int)
    (hok : ∀ b : InFlightBatch, b.value.state = .available ∨ b.value.state = .deferred →
      ok .archive b) : Rewritten ok s (s.archiveBelow logStart) := by
  refine .before (splitAtOffset_reshaped s logStart) ?_
  unfold archiveBelow
  dsimp only
  generalize s.splitAtOffset logStart = t
  have hlapse : ∀ k, ∀ b ∈ t.batches.takeWhile fun b => b.firstOffset < logStart,
      lapse k b = (b.value, k) ∨ Turning ok k b (lapse k b).1 (lapse k b).2 := by
    intro k b _
    unfold lapse
    split
    · rename_i hstate
      simp only [Bool.or_eq_true, beq_iff_eq] at hstate
      refine .inr ⟨.archive, hok b hstate, .archive ?_⟩
      rcases hstate with h | h <;> simp [Delivery.isTerminal, h, RecordState.isTerminal]
    · exact .inl rfl
  have hpass := sweep_pass hlapse t.sink
  have hpending := sweep_acc (P := fun k : ArchiveSink => k.pendingDlq = t.pendingDlq)
    (f := lapse) (k := t.sink)
    (fun k b hk => by unfold lapse; split <;> exact hk)
    (t.batches.takeWhile fun b => b.firstOffset < logStart) rfl
  have hall := hpass.append (Pass.refl _ (t.batches.dropWhile fun b => b.firstOffset < logStart))
  rw [takeWhile_append_dropWhile] at hall
  generalize Run.sweep lapse t.sink (t.batches.takeWhile fun b => b.firstOffset < logStart) = out
    at hpass hpending hall
  refine ⟨?_, rfl, rfl⟩
  rw [sink_eq (s := { t with batches := _, deliveryCompleteCount := out.2.deliveryCompleteCount })
    (Pass.dlqEnabled hpass) rfl hpending.symm]
  exact hall.rewrites

/-- **What an operation does before it moves the start offset.** -/
theorem settled_rewritten (htiles : Tiles s.batches a e)
    {op : Op} (hplain : op.IsPlain) : Rewritten op.Makes s (op.settled s) := by
  cases op with
  | materialize | setDlqEnabled | takePendingDlq => exact hplain.elim
  | pruneTerminalPrefix => exact .refl s
  | archiveInternal first last =>
    have hshape := splitValidRange_reshaped s first last
    simp only [Op.settled, archiveRangeRuns]
    split
    · rename_i t hsplit
      rw [hsplit] at hshape
      exact hshape.rewritten
    · rename_i t hsplit
      have hvalid : first ≤ last := by
        by_contra hlt
        rw [splitValidRange, if_pos (by omega)] at hsplit
        cases hsplit
      rw [hsplit] at hshape
      refine .before hshape (archiveMatching_rewritten fun k b hb helig => ?_)
      simp only [internalTo, ge_iff_le, Bool.and_eq_true, decide_eq_true_eq, Bool.not_eq_true']
        at helig
      have hb' : b ∈ (s.splitValidRange first last).1.batches := by rw [hsplit]; exact hb
      exact ⟨.archive, ⟨rfl, splitValidRange_inside htiles hvalid hb' helig.1.1 helig.1.2⟩,
        .archive helig.2⟩
  | advancePastLogStart logStart =>
    simp only [Op.settled]
    split
    · exact .refl s
    · exact archiveBelow_rewritten s logStart fun b hb => ⟨rfl, hb⟩
  | archiveExhausted maxAttempts =>
    refine sweepRuns_rewritten fun k b _ => ?_
    split
    · rename_i hex
      have hstate : b.value.state = .available := by
        simp only [exhausted, Bool.and_eq_true, beq_iff_eq] at hex
        exact hex.1
      exact .inr (archive_turning _ ⟨.inr rfl, hstate⟩ ⟨.inl rfl, hstate⟩ (.inl hstate))
    · exact .inl rfl
  | acquireShaped args =>
    exact acquireRuns_rewritten s args fun b hb =>
      ⟨⟨.inl rfl, hb⟩, ⟨.inr (.inl rfl), hb⟩, ⟨.inr (.inr rfl), hb⟩⟩
  | acknowledge member first last ack maxAttempts =>
    simp only [Op.settled]
    split
    · rename_i t first' last' hsplit
      refine .before (splitAcquiredRange_reshaped hsplit) (sweepRuns_rewritten fun k b _ => ?_)
      split
      · rename_i hin
        have hstate := acquiredWithin_state hin
        exact .inr (applyAck_turning ack maxAttempts (fun _ hkind => ⟨hkind, hstate⟩) hstate)
      · exact .inl rfl
    · exact .refl s
  | acknowledgeMixedWith member first last actionCount actions maxAttempts =>
    simp only [Op.settled]
    split
    · rename_i first' last' live hrange
      obtain ⟨hle, hacq⟩ := mixedRange_ok htiles hrange
      exact mixedRuns_rewritten live maxAttempts (fun b hb kind hkind => ⟨hkind, hb⟩) hacq hle
        fun b hb => htiles.nonempty hb
    · exact .refl s
  | renew member first last now lockDur =>
    simp only [Op.settled, Op.run, renew]
    split
    · exact .refl s
    · exact .refl s
    · rename_i t first' last' hsplit
      have hrenew : Rewritten (Op.renew member first last now lockDur).Makes t
          (t.renewRuns first' last' (now + lockDur)) := by
        refine sweepRuns_rewritten fun k b _ => ?_
        split
        · rename_i hin
          have hstate := acquiredWithin_state hin
          exact .inr ⟨.renew, rfl, .renew _ hstate⟩
        · exact .inl rfl
      exact .before (splitAcquiredRange_reshaped hsplit)
        ⟨hrenew.runs, hrenew.startOffset, hrenew.endOffset⟩
  | expireLocks now maxAttempts =>
    refine sweepRuns_rewritten fun k b _ => ?_
    split
    · rename_i hheld
      have hstate : b.value.state = .acquired := by
        simp only [expired, Bool.and_eq_true, beq_iff_eq] at hheld
        exact hheld.1
      exact .inr (giveBack_turning maxAttempts (fun _ hkind => ⟨hkind, hstate⟩) hstate)
    · exact .inl rfl
  | releaseMember member maxAttempts =>
    refine sweepRuns_rewritten fun k b _ => ?_
    split
    · rename_i hheld
      have hstate : b.value.state = .acquired := by
        simp only [heldBy, Bool.and_eq_true, beq_iff_eq] at hheld
        exact hheld.1
      exact .inr (giveBack_turning maxAttempts (fun _ hkind => ⟨hkind, hstate⟩) hstate)
    · exact .inl rfl
  | deferInternal first last =>
    simp only [Op.settled, Op.run, deferInternal]
    split
    · exact .refl s
    · refine .before ((splitAtOffset_reshaped s first).trans (splitAtOffset_reshaped _ (last + 1)))
        (.after (sweepRuns_rewritten fun k b _ => ?_) (coalesce_reshaped _))
      split
      · exact .inl rfl
      · rename_i hin
        simp only [ne_eq, not_or, not_not] at hin
        exact .inr ⟨.defer, rfl, .defer hin.2⟩
  | promoteDeferred =>
    refine .after (sweepRuns_rewritten fun k b _ => ?_) (coalesce_reshaped _)
    split
    · rename_i hstate
      exact .inr ⟨.promote, rfl, .promote hstate⟩
    · exact .inl rfl
  | finishArchiving first last =>
    have hshape := splitValidRange_reshaped s first last
    simp only [Op.settled, Op.run, finishArchiving]
    split
    · rename_i t hsplit
      rw [hsplit] at hshape
      exact hshape.rewritten
    · rename_i t hsplit
      rw [hsplit] at hshape
      have hfinish : Rewritten (Op.finishArchiving first last).Makes t
          (t.archiveMatching (finishing first last) false).1 := by
        refine archiveMatching_rewritten fun k b hb helig => ?_
        simp only [finishing, ge_iff_le, Bool.and_eq_true, decide_eq_true_eq, beq_iff_eq] at helig
        exact ⟨.finish, ⟨rfl, helig.1.2, helig.2⟩, .finish helig.1.1⟩
      have hdirty : Rewritten (Op.finishArchiving first last).Makes t
          { (t.archiveMatching (finishing first last) false).1 with
            dirty := (t.archiveMatching (finishing first last) false).1.dirty ||
              (t.archiveMatching (finishing first last) false).2 } :=
        ⟨hfinish.runs, hfinish.startOffset, hfinish.endOffset⟩
      exact .before hshape (hdirty.after (coalesce_reshaped _))

end Krabka.Share

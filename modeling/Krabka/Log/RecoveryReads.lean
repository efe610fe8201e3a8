import Krabka.Log.Recovery

/-!
# The reads of a recovery

A recovery read has a budget of 1 MiB.  It goes on into a segment once it has
read the one before it to the end, and it passes over a segment whose first
batch does not fit in what is left.  The batches of that segment are lost to the
recovery if it then returns one of a later segment.

`Recoverable` rules this out by the sizes of the batches: each one fits in a
read, and where the first batch of a segment does not fit behind what a read
has returned, no first batch of a later segment does.  The reads of a recoverable
log go in order.
-/

namespace Krabka.Log

open Extent List

variable {ρ : Type}

/-! ## Sizes -/

/-- Behind any run that ends `passed`, a segment whose first batch does not fit in
a recovery read is followed by such segments only. -/
def InTurn : List (RecordBatch ρ) → List (List (RecordBatch ρ)) → Prop
  | _, [] => True
  | passed, segment :: later =>
    (∀ run ∈ passed.tails, ∀ b ∈ segment.head?, ∀ other ∈ later, ∀ x ∈ other.head?,
      recoveryReadSize < consumed run + b.storedLen →
        recoveryReadSize < consumed run + x.storedLen) ∧
      InTurn (passed ++ segment) later

instance InTurn.decidable :
    ∀ (passed : List (RecordBatch ρ)) (segments : List (List (RecordBatch ρ))),
      Decidable (InTurn passed segments)
  | _, [] => .isTrue trivial
  | passed, segment :: later =>
    have := InTurn.decidable (passed ++ segment) later
    inferInstanceAs (Decidable (_ ∧ _))

/-- The batches of the segments of a log that its recovery reads return in order. -/
structure Readable (segments : List (List (RecordBatch ρ))) : Prop where
  fits : ∀ segment ∈ segments, ∀ b ∈ segment, b.storedLen ≤ recoveryReadSize
  inTurn : InTurn [] segments

instance (segments : List (List (RecordBatch ρ))) : Decidable (Readable segments) :=
  decidable_of_iff (_ ∧ _) ⟨fun h => ⟨h.1, h.2⟩, fun h => ⟨h.fits, h.inTurn⟩⟩

theorem readable_nil : Readable ([] : List (List (RecordBatch ρ))) := ⟨nofun, trivial⟩

/-- A cut of a segment at the back takes nothing from what a read may pass over. -/
theorem InTurn.cut {passed segment segment' : List (RecordBatch ρ)}
    {before after : List (List (RecordBatch ρ))}
    (h : InTurn passed (before ++ segment :: after)) (hcut : segment' <+: segment) :
    InTurn passed (before ++ [segment']) := by
  induction before generalizing passed with
  | nil => exact ⟨fun _ _ _ _ _ hother => absurd hother not_mem_nil, trivial⟩
  | cons first before ih =>
    refine ⟨?_, ih h.2⟩
    intro run hrun b hb other hother x hx
    rcases mem_append.mp hother with hother | hother
    · exact h.1 run hrun b hb other (mem_append_left _ hother) x hx
    · obtain rfl := mem_singleton.mp hother
      obtain ⟨rest, rfl⟩ := hcut
      have hhead : x ∈ (other ++ rest).head? := by
        rw [head?_append, Option.mem_def.mp hx]
        rfl
      exact h.1 run hrun b hb _ (mem_append_right _ mem_cons_self) x hhead

theorem Readable.cut {segment segment' : List (RecordBatch ρ)}
    {before after : List (List (RecordBatch ρ))}
    (h : Readable (before ++ segment :: after)) (hcut : segment' <+: segment) :
    Readable (before ++ [segment']) := by
  refine ⟨?_, h.inTurn.cut hcut⟩
  intro other hother b hb
  rcases mem_append.mp hother with hother | hother
  · exact h.fits other (mem_append_left _ hother) b hb
  · obtain rfl := mem_singleton.mp hother
    exact h.fits segment (mem_append_right _ mem_cons_self) b (hcut.subset hb)

theorem Readable.concat_nil {segments : List (List (RecordBatch ρ))} (h : Readable segments) :
    Readable (segments ++ [[]]) := by
  have hturn : ∀ passed : List (RecordBatch ρ), InTurn passed segments →
      InTurn passed (segments ++ [[]]) := by
    intro passed hin
    clear h
    induction segments generalizing passed with
    | nil => exact ⟨fun _ _ _ hb => absurd hb (by simp), trivial⟩
    | cons segment segments ih =>
      refine ⟨?_, ih _ hin.2⟩
      intro run hrun b hb other hother x hx
      rcases mem_append.mp hother with hother | hother
      · exact hin.1 run hrun b hb other hother x hx
      · obtain rfl := mem_singleton.mp hother
        cases hx
  refine ⟨?_, hturn [] h.inTurn⟩
  intro segment hsegment b hb
  rcases mem_append.mp hsegment with hsegment | hsegment
  · exact h.fits segment hsegment b hb
  · obtain rfl := mem_singleton.mp hsegment
    cases hb

/-! ## One segment -/

theorem consumed_append (xs ys : List (RecordBatch ρ)) :
    consumed (xs ++ ys) = consumed xs + consumed ys := by
  simp [consumed]

theorem fitting_isPrefix (budget : Nat) (batches : List (RecordBatch ρ)) :
    fitting budget batches <+: batches := by
  induction batches generalizing budget with
  | nil => exact prefix_rfl
  | cons b batches ih =>
    rw [fitting]
    split
    · exact (prefix_cons_inj b).mpr (ih _)
    · exact nil_prefix

theorem fitting_eq_nil {budget : Nat} {batches : List (RecordBatch ρ)} :
    fitting budget batches = [] ↔ ∀ b ∈ batches.head?, budget < b.storedLen := by
  cases batches with
  | nil => simp [fitting]
  | cons b batches =>
    rw [fitting]
    split <;> simp <;> omega

theorem Segment.Sound.read_eq {s : Segment ρ} {current : Int} (h : s.Sound) (hfit : s.Addressable)
    (hreach : ¬ s.lastOffset < current) (budget : Nat) :
    s.read current budget = .ok (fitting budget (above current s.batches)) := by
  have hfrom : (s.batches.dropWhile fun b => b.lastOffset < current) = above current s.batches :=
    (h.ordered.span_eq current).2
  have hall : ((fitting budget (above current s.batches)).filter
      fun b => current ≤ b.lastOffset) = fitting budget (above current s.batches) := by
    rw [filter_eq_self]
    intro b hb
    exact decide_eq_true (mem_above.mp ((fitting_isPrefix _ _).subset hb)).2
  have hspan := hfit.2
  unfold Segment.read
  rw [if_neg (by omega), if_neg (by unfold u32Max at *; omega)]
  dsimp only
  rw [hfrom, hall]

/-- The run that a read has passed behind the segment, when it has come to its start or
begins in it. -/
theorem Segment.Sound.run_mem_tails {s : Segment ρ} {current : Int}
    {passed run : List (RecordBatch ρ)} (h : s.Sound) (hrun : run ∈ passed.tails)
    (hstart : current = s.baseOffset ∨ run = []) :
    run ++ above current s.batches ∈ (passed ++ s.batches).tails := by
  rw [mem_tails]
  rcases hstart with rfl | rfl
  · obtain ⟨before, hbefore⟩ := (mem_tails run passed).mp hrun
    rw [h.ordered.above_eq_self le_rfl, ← hbefore, append_assoc]
    exact suffix_append _ _
  · refine ⟨passed ++ below current s.batches, ?_⟩
    rw [nil_append, append_assoc, h.ordered.below_append_above]

namespace PartitionLog

variable {s : Segment ρ} {segments : List (Segment ρ)} {a current : Int} {remaining : Nat}

/-- A read passes over the segment, ends in it, or takes what it has and goes on. -/
theorem readSegments_cons (segments : List (Segment ρ)) (remaining : Nat) (hs : s.Sound)
    (hfit : s.Addressable) (hreach : ¬ s.lastOffset < current) {taken : List (RecordBatch ρ)}
    (htaken : taken = fitting (max remaining 1) (above current s.batches)) :
    taken = [] ∧ readSegments (s :: segments) current remaining =
        readSegments segments current remaining ∨
      taken ≠ [] ∧ (readSegments (s :: segments) current remaining = .ok taken ∨
        taken = above current s.batches ∧
          readSegments (s :: segments) current remaining =
            (readSegments segments (s.lastOffset + 1) (remaining - consumed taken)).map
              (taken ++ ·)) := by
  have hread := hs.read_eq hfit hreach (max remaining 1)
  rw [← htaken] at hread
  rw [readSegments, if_neg hreach, hread]
  dsimp only
  cases hlast : taken.getLast? with
  | none => exact .inl ⟨getLast?_eq_none_iff.mp hlast, rfl⟩
  | some b =>
    have hne : taken ≠ [] := by
      rintro rfl
      cases hlast
    refine .inr ⟨hne, ?_⟩
    dsimp only
    by_cases hdone : remaining - consumed taken = 0 ∨ ¬ b.lastOffset + 1 > s.lastOffset
    · exact .inl (if_pos hdone)
    · right
      rw [if_neg hdone]
      obtain ⟨init, rfl⟩ := getLast?_eq_some_iff.mp hlast
      obtain ⟨rest, hrest⟩ := htaken ▸ fitting_isPrefix (max remaining 1) (above current s.batches)
      have hord : Ordered s.baseOffset (init ++ [b] ++ rest) := by
        rw [hrest]
        exact hs.ordered.sublist filter_sublist
      have hmem : ∀ x ∈ init ++ [b] ++ rest, x.lastOffset < s.lastOffset + 1 := by
        intro x hx
        rw [hrest] at hx
        rw [hs.lastOffset_eq]
        exact hs.ordered.last_lt_endOf (mem_above.mp hx).1
      have hb := hmem b (by simp)
      have hnext : b.lastOffset + 1 = s.lastOffset + 1 := by omega
      -- nothing of the segment lies behind its last offset
      have hnil : rest = [] := by
        rw [eq_nil_iff_forall_not_mem]
        intro x hx
        have hlow := (ordered_append.mp hord).2.lower x hx
        have hspan := hord.spans x (mem_append_right _ hx)
        have hlt := hmem x (mem_append_right _ hx)
        rw [endOf_concat] at hlow
        unfold Extent.next at hlow
        have hlast' : last b = b.lastOffset := rfl
        have hlast'' : last x = x.lastOffset := rfl
        omega
      rw [hnil, append_nil] at hrest
      refine ⟨hrest, ?_⟩
      rw [hnext]
      cases readSegments segments (s.lastOffset + 1) (remaining - consumed (init ++ [b])) <;> rfl

theorem readSegments_eq_nil (h : Chained a segments) (hfit : ∀ s ∈ segments, s.Addressable)
    (hle : current ≤ a)
    (hlarge : ∀ s ∈ segments, ∀ b ∈ s.batches.head?, max remaining 1 < b.storedLen) :
    readSegments segments current remaining = .ok [] := by
  induction segments generalizing a with
  | nil => rfl
  | cons s segments ih =>
    obtain ⟨rfl, hs, hrest⟩ := h
    have hbase := hs.baseOffset_le
    have htail := ih hrest (fun x hx => hfit x (mem_cons_of_mem s hx)) (by omega)
      fun x hx => hlarge x (mem_cons_of_mem s hx)
    by_cases hreach : s.lastOffset < current
    · rw [readSegments, if_pos hreach, htail]
    · have hall := hs.ordered.above_eq_self hle
      have hnil : fitting (max remaining 1) (above current s.batches) = [] := by
        rw [hall, fitting_eq_nil]
        exact hlarge s mem_cons_self
      rcases readSegments_cons segments remaining hs (hfit s mem_cons_self) hreach rfl with
        ⟨-, heq⟩ | ⟨hne, -⟩
      · rw [heq, htail]
      · exact absurd hnil hne

/-- A recovery read, or what is left of one that has passed `run`, returns a run of the
batches from its offset on. -/
theorem readSegments_recovery (h : Chained a segments) (hfit : ∀ s ∈ segments, s.Addressable)
    {passed run : List (RecordBatch ρ)}
    (hsize : ∀ s ∈ segments, ∀ b ∈ s.batches, b.storedLen ≤ recoveryReadSize)
    (hturn : InTurn passed (segments.map Segment.batches)) (hrun : run ∈ passed.tails)
    (hlow : a ≤ current) (hstart : current = a ∨ run = []) :
    ∃ found, readSegments segments current (recoveryReadSize - consumed run) = .ok found ∧
      found <+: above current (segments.flatMap Segment.batches) ∧
      (run = [] → current < endOf a (segments.flatMap Segment.batches) → found ≠ []) := by
  induction segments generalizing a current passed run with
  | nil =>
    refine ⟨[], rfl, nil_prefix, fun _ hlt => ?_⟩
    rw [flatMap_nil, endOf_nil] at hlt
    omega
  | cons s segments ih =>
    obtain ⟨rfl, hs, hrest⟩ := h
    have hfit' : ∀ x ∈ segments, x.Addressable := fun x hx => hfit x (mem_cons_of_mem s hx)
    have hsize' := fun x hx => hsize x (mem_cons_of_mem s hx)
    have hend := hs.lastOffset_eq
    have hbase := hs.baseOffset_le
    have hrun' := hs.run_mem_tails hrun hstart
    have hsplit : above current ((s :: segments).flatMap Segment.batches) =
        above current s.batches ++ above current (segments.flatMap Segment.batches) := by
      rw [flatMap_cons]
      exact filter_append ..
    rw [hsplit, flatMap_cons, endOf_append, ← hend]
    by_cases hreach : s.lastOffset < current
    · have hnone : above current s.batches = [] := hs.ordered.above_eq_nil (by omega)
      rw [hnone, append_nil] at hrun'
      rw [readSegments, if_pos hreach, hnone, nil_append]
      exact ih hrest hfit' hsize' hturn.2 hrun' (by omega) (hstart.imp_left fun _ => by omega)
    · have hne := hs.ordered.above_ne_nil hlow (by omega)
      rcases readSegments_cons segments (recoveryReadSize - consumed run) hs
        (hfit s mem_cons_self) hreach rfl with ⟨hnil, heq⟩ | ⟨htakes, heq | ⟨hwhole, heq⟩⟩
      · -- the first batch does not fit, so no first batch behind it does
        obtain ⟨b, rest, hcons⟩ := exists_cons_of_ne_nil hne
        have hb : b ∈ (above current s.batches).head? := by
          rw [hcons]
          rfl
        have hbig := fitting_eq_nil.mp hnil b hb
        have hle := hsize s mem_cons_self b (mem_above.mp (mem_of_mem_head? hb)).1
        have hstarted : run ≠ [] := by
          rintro rfl
          have hzero : consumed ([] : List (RecordBatch ρ)) = 0 := rfl
          omega
        obtain rfl := hstart.resolve_right hstarted
        rw [hs.ordered.above_eq_self le_rfl] at hb
        refine ⟨[], ?_, nil_prefix, fun hnil => absurd hnil hstarted⟩
        rw [heq]
        refine readSegments_eq_nil hrest hfit' hbase ?_
        intro x hx y hy
        have hlarge := hturn.1 run hrun b hb _ (mem_map_of_mem hx) y hy
        have hpos : 1 < y.storedLen := by
          unfold RecordBatch.storedLen RecordBatch.headerLen
          omega
        omega
      · exact ⟨_, heq, (fitting_isPrefix _ _).trans (prefix_append _ _), fun _ _ => htakes⟩
      · rw [hwhole] at heq
        obtain ⟨more, hmore, hprefix, -⟩ := ih hrest hfit' hsize' hturn.2 hrun' le_rfl (.inl rfl)
        rw [consumed_append, ← Nat.sub_sub] at hmore
        rw [hrest.ordered.above_eq_self le_rfl] at hprefix
        refine ⟨above current s.batches ++ more, ?_, ?_, fun _ _ => by simp [hne]⟩
        · rw [heq, hmore]
          rfl
        · rw [hrest.ordered.above_eq_self (by omega)]
          exact (prefix_append_right_inj _).mpr hprefix

theorem readSegments_dropWhile (segments more : List (Segment ρ)) (current : Int)
    (remaining : Nat) :
    readSegments ((segments.dropWhile fun s => s.lastOffset < current) ++ more) current remaining =
      readSegments (segments ++ more) current remaining := by
  induction segments with
  | nil => rfl
  | cons s segments ih =>
    by_cases hlt : s.lastOffset < current
    · rw [dropWhile_cons_of_pos (by simpa using hlt), cons_append, readSegments,
        if_pos hlt, ih]
    · rw [dropWhile_cons_of_neg (by simpa using hlt)]

/-! ## The log -/

variable {l l' : PartitionLog ρ} {b : RecordBatch ρ}

/-- The batches of the segments in offset order. -/
def segmented (l : PartitionLog ρ) : List (List (RecordBatch ρ)) :=
  l.allSegments.map Segment.batches

/-- The recovery reads of the log return its batches in order, by their sizes, and its
indexes can address its segments. -/
structure Recoverable (l : PartitionLog ρ) : Prop where
  readable : Readable l.segmented
  addressable : l.Addressable

theorem Laid.readsInOrder (h : l.Laid) (hrec : l.Recoverable) : l.ReadsInOrder := by
  intro next hzero hlt _
  have hreadable : l.checkLocallyReadable next = .ok () := by
    unfold checkLocallyReadable
    rw [h.startOffset_eq, h.localLogStartOffset_eq, if_neg (by omega), if_neg (by omega)]
  have hread : l.read next recoveryReadSize = readSegments l.allSegments next recoveryReadSize := by
    unfold PartitionLog.read
    rw [hreadable]
    rw [if_neg (by omega)]
    exact readSegments_dropWhile ..
  rw [h.logEndOffset_eq] at hlt
  obtain ⟨found, hfound, hprefix, hne⟩ := readSegments_recovery h.chained hrec.addressable
    (fun s hs b hb => hrec.readable.fits _ (mem_map_of_mem hs) b hb) hrec.readable.inTurn
    ((mem_tails [] []).mpr suffix_rfl) hzero (.inr rfl)
  obtain ⟨b, more, rfl⟩ := exists_cons_of_ne_nil (hne rfl hlt)
  rw [hread]
  exact ⟨b, more, hfound, hprefix⟩

theorem recoverable_fresh (remote : Bool) : (fresh remote : PartitionLog ρ).Recoverable where
  readable := readable_nil.concat_nil
  addressable := by
    intro s hs
    obtain rfl := mem_singleton.mp hs
    exact Segment.addressable_create 0

theorem Recoverable.congr (h : l.Recoverable) (hsegments : l'.segments = l.segments)
    (hactive : l'.active = l.active) : l'.Recoverable := by
  have hall : l'.allSegments = l.allSegments := by
    unfold allSegments
    rw [hsegments, hactive]
  refine ⟨?_, ?_⟩
  · unfold segmented
    rw [hall]
    exact h.readable
  · unfold Addressable
    rw [hall]
    exact h.addressable

theorem Recoverable.roll (h : l.Recoverable) : l.roll.Recoverable := by
  rcases l.roll_cases with heq | ⟨-, heq⟩
  · rw [heq]
    exact h
  · rw [heq]
    refine ⟨?_, ?_⟩
    · have hsegmented : l.rollActiveSegment.segmented = l.segmented ++ [[]] := by
        simp [segmented, allSegments, rollActiveSegment, Segment.create]
      rw [hsegmented]
      exact h.readable.concat_nil
    · intro s hs
      rcases mem_append.mp hs with hs | hs
      · exact h.addressable s hs
      · obtain rfl := mem_singleton.mp hs
        exact Segment.addressable_create _

/-- The batch can be appended to a log that stays recoverable. -/
structure Fits (l : PartitionLog ρ) (b : RecordBatch ρ) : Prop where
  readable : Readable (l.segments.map Segment.batches ++ [l.active.batches ++ [b]])
  position : ((l.active.size + b.storedLen : Nat) : Int) ≤ u32Max
  span : b.lastOffset + 1 - l.active.baseOffset ≤ u32Max

instance (l : PartitionLog ρ) (b : RecordBatch ρ) : Decidable (l.Fits b) :=
  decidable_of_iff (_ ∧ _ ∧ _)
    ⟨fun h => ⟨h.1, h.2.1, h.2.2⟩, fun h => ⟨h.readable, h.position, h.span⟩⟩

theorem Recoverable.append (h : l.Recoverable) (hfits : l.Fits b)
    (hsegments : l'.segments = l.segments)
    (hactive : l'.active = { l.active.append b with txnIndex := l'.active.txnIndex }) :
    l'.Recoverable := by
  refine ⟨?_, ?_⟩
  · have hsegmented :
        l'.segmented = l.segments.map Segment.batches ++ [l.active.batches ++ [b]] := by
      unfold segmented allSegments
      rw [hsegments, hactive]
      simp [Segment.append]
    rw [hsegmented]
    exact hfits.readable
  · intro s hs
    rcases mem_append.mp hs with hs | hs
    · rw [hsegments] at hs
      exact h.addressable s (mem_append_left _ hs)
    · obtain rfl := mem_singleton.mp hs
      rw [hactive]
      refine ⟨?_, hfits.span⟩
      show ((totalLen (l.active.batches ++ [b]) : Nat) : Int) ≤ u32Max
      rw [totalLen_append]
      simpa [totalLen, Segment.size] using hfits.position

theorem Recoverable.cutSegments {cut : Int} {segments : List (Segment ρ)} {active : Segment ρ}
    (h : l.Recoverable) (hrooted : l.Rooted a) (hcut : CutSegments l cut segments active)
    (hall : l'.allSegments = segments ++ [active]) : l'.Recoverable := by
  cases hcut with
  | inside before seg after hsplit hlow hhigh hafter =>
    have hsound : seg.Sound := hrooted.chained.sound (hsplit ▸ mem_append_right _ mem_cons_self)
    refine ⟨?_, ?_⟩
    · have hreadable := h.readable
      unfold segmented at hreadable ⊢
      rw [hsplit, map_append, map_cons] at hreadable
      rw [hall, map_append]
      exact hreadable.cut ⟨_, hsound.ordered.below_append_above cut⟩
    · intro s hs
      rw [hall] at hs
      rcases mem_append.mp hs with hs | hs
      · exact h.addressable s (hsplit ▸ mem_append_left _ hs)
      · obtain rfl := mem_singleton.mp hs
        obtain ⟨hsize, hspan⟩ := h.addressable seg (hsplit ▸ mem_append_right _ mem_cons_self)
        have hsize' := totalLen_below_le hsound.ordered cut
        have hlast := (hsound.cutAt cut).lastOffset_eq
        have hend := hsound.ordered.endOf_below_le_endOf cut
        rw [← hsound.lastOffset_eq] at hend
        refine ⟨?_, ?_⟩
        · show ((totalLen (below cut seg.batches) : Nat) : Int) ≤ u32Max
          unfold Segment.size at hsize
          omega
        · rw [hlast]
          exact (Int.sub_le_sub_right hend _).trans hspan
  | all hfirst =>
    refine ⟨?_, ?_⟩
    · unfold segmented
      rw [hall]
      exact readable_nil.concat_nil
    · intro s hs
      rw [hall] at hs
      obtain rfl := mem_singleton.mp hs
      exact Segment.addressable_create cut

end PartitionLog

end Krabka.Log

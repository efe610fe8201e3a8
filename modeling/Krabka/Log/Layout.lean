import Krabka.Log.PartitionLog

/-!
# The layout of a log

The batches of a log follow one another over the segment boundaries: a segment
begins where the one before it ends, its batches are in offset order and what it
caches is what they say.  `Laid` is that invariant for a log whose start stays at
offset 0.  A roll, an append and a cut keep it; a cut leaves exactly the batches
that end below it.
-/

namespace Krabka.Log

open Extent List Segment

variable {ρ : Type}

/-- A segment caches what its batches say. -/
structure Segment.Sound (s : Segment ρ) : Prop where
  ordered : Ordered s.baseOffset s.batches
  bounded : ∀ b ∈ s.batches, b.lastOffset < i64Max
  lastOffset_eq : s.lastOffset + 1 = endOf s.baseOffset s.batches
  maxTimestamp_eq : s.maxTimestamp = maxTimestampFrom i64Min s.batches

/-- The segments follow one another from `a` on without a gap. -/
def Chained : Int → List (Segment ρ) → Prop
  | _, [] => True
  | a, s :: segments => s.baseOffset = a ∧ s.Sound ∧ Chained (s.lastOffset + 1) segments

theorem totalLen_append (xs ys : List (RecordBatch ρ)) :
    totalLen (xs ++ ys) = totalLen xs + totalLen ys := by
  simp [totalLen]

theorem totalLen_below_le {a : Int} {batches : List (RecordBatch ρ)} (h : Ordered a batches)
    (cut : Int) : totalLen (below cut batches) ≤ totalLen batches := by
  have hsplit := congrArg totalLen (h.below_append_above cut)
  rw [totalLen_append] at hsplit
  omega

theorem ordered_concat {a : Int} {batches : List (RecordBatch ρ)} {b : RecordBatch ρ}
    (h : Ordered a (batches ++ [b])) : Ordered a batches ∧ endOf a batches ≤ b.baseOffset ∧
      b.baseOffset ≤ b.lastOffset ∧ endOf a (batches ++ [b]) = b.lastOffset + 1 := by
  obtain ⟨hinit, hlast⟩ := ordered_append.mp h
  obtain ⟨hlow, hspan, -⟩ := ordered_cons.mp hlast
  exact ⟨hinit, hlow, hspan, endOf_concat ..⟩

/-! ## Segments -/

namespace Segment

variable {s : Segment ρ} {b : RecordBatch ρ}

theorem sound_create (base : Int) : (create base : Segment ρ).Sound where
  ordered := ordered_nil base
  bounded := fun _ hb => absurd hb not_mem_nil
  lastOffset_eq := by simp [create]
  maxTimestamp_eq := rfl

theorem ofBatches_lastOffset (s : Segment ρ) (batches : List (RecordBatch ρ)) :
    (s.ofBatches batches).lastOffset + 1 = endOf s.baseOffset batches := by
  unfold ofBatches endOf
  cases batches.getLast? with
  | none => simp
  | some b => rfl

theorem Sound.append (h : s.Sound) (hbase : s.lastOffset + 1 ≤ b.baseOffset)
    (hdelta : 0 ≤ b.lastOffsetDelta) (hlast : b.lastOffset < i64Max) : (s.append b).Sound where
  ordered := by
    refine ordered_append.mpr ⟨h.ordered, ordered_cons.mpr ⟨?_, ?_, ordered_nil _⟩⟩
    · exact h.lastOffset_eq ▸ hbase
    · show b.baseOffset ≤ b.baseOffset + b.lastOffsetDelta
      omega
  bounded := by
    intro x hx
    rcases mem_append.mp hx with hx | hx
    · exact h.bounded x hx
    · obtain rfl := mem_singleton.mp hx
      exact hlast
  lastOffset_eq := by
    show b.lastOffset + 1 = endOf s.baseOffset (s.batches ++ [b])
    rw [endOf_concat]
    rfl
  maxTimestamp_eq := by
    show (if b.maxTimestamp > s.maxTimestamp then b.maxTimestamp else s.maxTimestamp) =
      maxTimestampFrom i64Min (s.batches ++ [b])
    rw [h.maxTimestamp_eq, maxTimestampFrom, maxTimestampFrom, foldl_append]
    rfl

theorem Sound.ofBatches (h : s.Sound) {batches : List (RecordBatch ρ)}
    (hsub : List.Sublist batches s.batches) : (s.ofBatches batches).Sound where
  ordered := h.ordered.sublist hsub
  bounded := fun b hb => h.bounded b (hsub.subset hb)
  lastOffset_eq := s.ofBatches_lastOffset batches
  maxTimestamp_eq := rfl

theorem scanValidTail_eq {fileEnd position : Nat} {expected : Int} {batches : List (RecordBatch ρ)}
    (h : Ordered expected batches) (hbound : ∀ b ∈ batches, b.lastOffset < i64Max)
    (hpos : position + totalLen batches ≤ fileEnd) :
    scanValidTail fileEnd position expected batches = batches := by
  induction batches generalizing position expected with
  | nil => rfl
  | cons b batches ih =>
    obtain ⟨hlow, hspan, hrest⟩ := ordered_cons.mp h
    have hb : b.baseOffset + b.lastOffsetDelta < i64Max := hbound b mem_cons_self
    have hspan' : b.baseOffset ≤ b.baseOffset + b.lastOffsetDelta := hspan
    have hlow' : expected ≤ b.baseOffset := hlow
    have hlen := b.storedLen_pos
    simp only [totalLen, map_cons, sum_cons] at hpos
    have hstep : restoreBatchStep expected b.baseOffset b.lastOffsetDelta =
        some (b.baseOffset + b.lastOffsetDelta + 1) := by
      unfold restoreBatchStep
      rw [if_neg (by omega), if_neg (by omega)]
    have hbatch : localRecoveryBatchStep position fileEnd expected b.baseOffset b.lastOffsetDelta
        b.storedLen = some ⟨position + b.storedLen, b.lastOffset, b.lastOffset + 1⟩ := by
      unfold localRecoveryBatchStep
      rw [if_neg (by omega), if_neg (by omega), hstep]
      simp [RecordBatch.lastOffset]
    rw [scanValidTail, hbatch]
    simp only
    have hrest' : Ordered (b.lastOffset + 1) batches := hrest
    rw [ih hrest' (fun x hx => hbound x (mem_cons_of_mem b hx))]
    unfold totalLen
    omega

/-- The sparse indexes can address the segment. -/
def Addressable (s : Segment ρ) : Prop :=
  (s.size : Int) ≤ u32Max ∧ s.lastOffset + 1 - s.baseOffset ≤ u32Max

instance (s : Segment ρ) : Decidable s.Addressable := by
  unfold Addressable
  infer_instance

theorem addressable_create (base : Int) : (create base : Segment ρ).Addressable :=
  ⟨by simp [create, size, totalLen, u32Max], by simp [create, u32Max]⟩

theorem Sound.ofBatches_self (h : s.Sound) : s.ofBatches s.batches = s := by
  have hlast := s.ofBatches_lastOffset s.batches
  have hlast' : (s.ofBatches s.batches).lastOffset = s.lastOffset := by
    have heq := h.lastOffset_eq
    omega
  have htime : (s.ofBatches s.batches).maxTimestamp = s.maxTimestamp := h.maxTimestamp_eq.symm
  calc s.ofBatches s.batches
      = ⟨s.baseOffset, s.batches, (s.ofBatches s.batches).lastOffset,
          (s.ofBatches s.batches).maxTimestamp, s.txnIndex⟩ := rfl
    _ = s := by rw [hlast', htime]

theorem Sound.scanValidTail_self (h : s.Sound) :
    s.ofBatches (scanValidTail s.size 0 s.baseOffset s.batches) = s := by
  rw [scanValidTail_eq h.ordered h.bounded (by simp [size]), h.ofBatches_self]

theorem Sound.recoverActiveTail_eq (h : s.Sound) (hfit : s.Addressable) :
    s.recoverActiveTail = .ok s := by
  have hsize := hfit.1
  have hspan := hfit.2
  unfold recoverActiveTail
  simp only [h.scanValidTail_self]
  rw [if_neg (by omega), if_neg (by omega)]

theorem Sound.recoverActiveTail_ok {s' : Segment ρ} (h : s.Sound)
    (hok : s.recoverActiveTail = .ok s') : s' = s := by
  unfold recoverActiveTail at hok
  simp only [h.scanValidTail_self] at hok
  split at hok
  · cases hok
  · split at hok
    · cases hok
    · exact (Except.ok.inj hok).symm

end Segment

/-! ## Chains of segments -/

section Chain

variable {a c : Int} {s : Segment ρ} {segments more : List (Segment ρ)}

theorem chained_append : Chained a (segments ++ more) ↔
    Chained a segments ∧ Chained (endOf a (segments.flatMap batches)) more := by
  induction segments generalizing a with
  | nil => simp [Chained]
  | cons s segments ih =>
    simp only [cons_append, Chained, flatMap_cons, endOf_append]
    constructor
    · rintro ⟨rfl, hs, hrest⟩
      rw [ih, hs.lastOffset_eq] at hrest
      rw [hs.lastOffset_eq]
      exact ⟨⟨rfl, hs, hrest.1⟩, hrest.2⟩
    · rintro ⟨⟨rfl, hs, hrest⟩, hmore⟩
      refine ⟨rfl, hs, ?_⟩
      rw [ih]
      rw [hs.lastOffset_eq] at hrest ⊢
      exact ⟨hrest, hmore⟩

theorem Chained.ordered (h : Chained a segments) : Ordered a (segments.flatMap batches) := by
  induction segments generalizing a with
  | nil => exact ordered_nil a
  | cons s segments ih =>
    obtain ⟨rfl, hs, hrest⟩ := h
    rw [flatMap_cons, ordered_append, ← hs.lastOffset_eq]
    exact ⟨hs.ordered, ih hrest⟩

theorem Chained.sound (h : Chained a segments) (hs : s ∈ segments) : s.Sound := by
  induction segments generalizing a with
  | nil => cases hs
  | cons x segments ih =>
    obtain ⟨-, hx, hrest⟩ := h
    rcases mem_cons.mp hs with rfl | hs
    · exact hx
    · exact ih hrest hs

theorem Chained.le_base (h : Chained a segments) (hs : s ∈ segments) : a ≤ s.baseOffset := by
  induction segments generalizing a with
  | nil => cases hs
  | cons x segments ih =>
    obtain ⟨rfl, hx, hrest⟩ := h
    rcases mem_cons.mp hs with rfl | hs
    · exact le_rfl
    · have hle := ih hrest hs
      have hend := hx.ordered.le_endOf
      rw [← hx.lastOffset_eq] at hend
      omega

theorem Chained.lastOffset_lt (h : Chained a segments) (hs : s ∈ segments) :
    s.lastOffset + 1 ≤ endOf a (segments.flatMap batches) := by
  induction segments generalizing a with
  | nil => cases hs
  | cons x segments ih =>
    obtain ⟨rfl, hx, hrest⟩ := h
    rw [flatMap_cons, endOf_append, ← hx.lastOffset_eq]
    rcases mem_cons.mp hs with rfl | hs
    · exact hrest.ordered.le_endOf
    · exact ih hrest hs

theorem Segment.Sound.baseOffset_le (h : s.Sound) : s.baseOffset ≤ s.lastOffset + 1 := by
  rw [h.lastOffset_eq]
  exact h.ordered.le_endOf

end Chain

/-! ## The layout of a log -/

namespace PartitionLog

variable {l : PartitionLog ρ} {b : RecordBatch ρ} {a : Int}

/-- A log whose local batches begin at offset `a`, in order and with no empty
sealed segment. -/
structure Rooted (a : Int) (l : PartitionLog ρ) : Prop where
  chained : Chained a l.allSegments
  sealed_ne : ∀ s ∈ l.segments, s.batches ≠ []

/-- A log whose start stays at offset 0. -/
structure Laid (l : PartitionLog ρ) : Prop extends Rooted 0 l where
  startOffset_eq : l.startOffset = 0

theorem laid_fresh (remote : Bool) : (fresh remote : PartitionLog ρ).Laid where
  chained := ⟨rfl, sound_create 0, trivial⟩
  sealed_ne := nofun
  startOffset_eq := rfl

theorem batches_eq (l : PartitionLog ρ) :
    l.batches = l.segments.flatMap Segment.batches ++ l.active.batches := by
  simp [batches, allSegments]

theorem Rooted.chained_segments (h : l.Rooted a) : Chained a l.segments :=
  (chained_append.mp h.chained).1

theorem Rooted.active_baseOffset (h : l.Rooted a) :
    l.active.baseOffset = endOf a (l.segments.flatMap Segment.batches) :=
  (chained_append.mp h.chained).2.1

theorem Rooted.active_sound (h : l.Rooted a) : l.active.Sound :=
  (chained_append.mp h.chained).2.2.1

theorem Rooted.ordered (h : l.Rooted a) : Ordered a l.batches := h.chained.ordered

theorem Rooted.logEndOffset_eq (h : l.Rooted a) : l.logEndOffset = endOf a l.batches := by
  unfold logEndOffset
  rw [h.active_sound.lastOffset_eq, h.active_baseOffset, batches_eq, endOf_append]

theorem Rooted.le_logEndOffset (h : l.Rooted a) : a ≤ l.logEndOffset := by
  rw [h.logEndOffset_eq]
  exact h.ordered.le_endOf

theorem Rooted.lastOffset_lt (h : l.Rooted a) (hb : b ∈ l.batches) :
    b.lastOffset < l.logEndOffset := by
  rw [h.logEndOffset_eq]
  exact h.ordered.last_lt_endOf hb

theorem Rooted.bounded (h : l.Rooted a) (hb : b ∈ l.batches) : b.lastOffset < i64Max := by
  obtain ⟨s, hs, hbs⟩ := mem_flatMap.mp hb
  exact (h.chained.sound hs).bounded b hbs

theorem Rooted.firstLocalOffset_eq (h : l.Rooted a) : l.firstLocalOffset = a := by
  unfold firstLocalOffset
  have hchain := h.chained
  unfold allSegments at hchain
  cases hseg : l.segments with
  | nil | cons s segments =>
    rw [hseg] at hchain
    exact hchain.1

theorem Laid.localLogStartOffset_eq (h : l.Laid) : l.localLogStartOffset = 0 := by
  unfold localLogStartOffset
  rw [h.firstLocalOffset_eq, h.startOffset_eq]
  rfl

theorem Laid.producerReloadRange_eq (h : l.Laid) (logEnd : Int) :
    l.producerReloadRange logEnd = ⟨0, 0, logEnd⟩ := by
  unfold producerReloadRange establishedLogStart
  rw [h.localLogStartOffset_eq, h.startOffset_eq]
  cases l.remoteStorageEnable <;> cases l.startOffsetEstablished <;> rfl

theorem Rooted.base_eq (h : l.Rooted a) {s : Segment ρ} (hs : s ∈ l.allSegments) :
    endOf a (below s.baseOffset l.batches) = s.baseOffset := by
  obtain ⟨before, after, hsplit⟩ := append_of_mem hs
  have hchain := h.chained
  rw [hsplit, chained_append] at hchain
  have hbase : s.baseOffset = endOf a (before.flatMap Segment.batches) := hchain.2.1
  have hbefore := hchain.1.ordered
  have hafter : Ordered s.baseOffset ((s :: after).flatMap Segment.batches) := by
    rw [hbase]
    exact hchain.2.ordered
  unfold batches
  rw [hsplit, flatMap_append, below_append, hbefore.below_eq_self hbase.ge,
    hafter.below_eq_nil le_rfl, append_nil]
  exact hbase.symm

/-! ## Rolls and appends -/

@[simp] theorem logEndOffset_rollActiveSegment (l : PartitionLog ρ) :
    l.rollActiveSegment.logEndOffset = l.logEndOffset := by
  simp [rollActiveSegment, logEndOffset, create]

@[simp] theorem batches_rollActiveSegment (l : PartitionLog ρ) :
    l.rollActiveSegment.batches = l.batches := by
  simp [rollActiveSegment, batches, allSegments, create]

theorem Rooted.rollActiveSegment (h : l.Rooted a) (hne : l.active.batches ≠ []) :
    l.rollActiveSegment.Rooted a where
  chained := by
    refine chained_append.mpr ⟨h.chained, ?_, sound_create _, trivial⟩
    exact h.logEndOffset_eq
  sealed_ne := by
    intro s hs
    rcases mem_append.mp hs with hs | hs
    · exact h.sealed_ne s hs
    · obtain rfl := mem_singleton.mp hs
      exact hne

theorem roll_cases (l : PartitionLog ρ) :
    l.roll = l ∨ l.active.batches ≠ [] ∧ l.roll = l.rollActiveSegment := by
  unfold roll
  cases hactive : l.active.batches with
  | nil => exact .inl rfl
  | cons b batches => exact .inr ⟨by simp, rfl⟩

theorem Rooted.append (h : l.Rooted a) {l' : PartitionLog ρ} (hbase : l.logEndOffset ≤ b.baseOffset)
    (hdelta : 0 ≤ b.lastOffsetDelta) (hlast : b.lastOffset < i64Max)
    (hsegments : l'.segments = l.segments)
    (hactive : l'.active = { l.active.append b with txnIndex := l'.active.txnIndex }) :
    l'.Rooted a ∧ l'.batches = l.batches ++ [b] ∧ l'.logEndOffset = b.lastOffset + 1 := by
  have hsound := h.active_sound.append hbase hdelta hlast
  have hactive_batches : l'.active.batches = l.active.batches ++ [b] := by
    rw [hactive]
    rfl
  have hactive_last : l'.active.lastOffset = b.lastOffset := by
    rw [hactive]
    rfl
  refine ⟨⟨?_, ?_⟩, ?_, ?_⟩
  · unfold allSegments
    rw [hsegments, hactive]
    refine chained_append.mpr ⟨h.chained_segments, h.active_baseOffset, ?_, trivial⟩
    exact ⟨hsound.ordered, hsound.bounded, hsound.lastOffset_eq, hsound.maxTimestamp_eq⟩
  · rw [hsegments]
    exact h.sealed_ne
  · rw [batches_eq, batches_eq, hsegments, hactive_batches, append_assoc]
  · unfold logEndOffset
    rw [hactive_last]

/-! ## Cuts -/

/-- The sparse indexes can address every segment. -/
def Addressable (l : PartitionLog ρ) : Prop := ∀ s ∈ l.allSegments, s.Addressable

instance (l : PartitionLog ρ) : Decidable l.Addressable := by
  unfold Addressable
  infer_instance

end PartitionLog

def Segment.cutAt (s : Segment ρ) (offset : Int) : Segment ρ :=
  (s.ofBatches (below offset s.batches)).truncateTxns offset

theorem Segment.Sound.cutAt {s : Segment ρ} (h : s.Sound) (offset : Int) :
    (s.cutAt offset).Sound := by
  have hcut := h.ofBatches (filter_sublist : List.Sublist (below offset s.batches) s.batches)
  exact ⟨hcut.ordered, hcut.bounded, hcut.lastOffset_eq, hcut.maxTimestamp_eq⟩

namespace PartitionLog

variable {l : PartitionLog ρ} {a offset : Int}

theorem cutSegment_ok {s s' : Segment ρ} (hs : s.Sound) (h : cutSegment s offset = .ok s') :
    s' = s.cutAt offset := by
  have hkept : (s.batches.takeWhile fun b => b.lastOffset < offset) = below offset s.batches :=
    (hs.ordered.span_eq offset).1
  unfold cutSegment truncateToRelative at h
  split at h
  · cases h
  · rename_i rel hrel
    unfold truncationRelativeOffset at hrel
    split at hrel
    · cases hrel
    · have htarget : s.baseOffset + rel = offset := by
        have hrel' := Option.some.inj hrel
        omega
      simp only [htarget, hkept] at h
      split at h
      · cases h
      · rename_i s₁ hs₁
        split at hs₁
        · cases hs₁
        · cases hs₁
          exact (Except.ok.inj h).symm

theorem cutSegment_eq {s : Segment ρ} (hs : s.Sound) (hfit : s.Addressable)
    (hbase : 0 ≤ s.baseOffset) (hlow : s.baseOffset ≤ offset) (hhigh : offset ≤ s.lastOffset + 1) :
    cutSegment s offset = .ok (s.cutAt offset) := by
  have hspan := hfit.2
  have hrel : truncationRelativeOffset s.baseOffset offset = some (offset - s.baseOffset) := by
    unfold truncationRelativeOffset
    rw [if_neg (by omega)]
  have htarget : s.baseOffset + (offset - s.baseOffset) = offset := by omega
  have hkept : (s.batches.takeWhile fun b => b.lastOffset < offset) = below offset s.batches :=
    (hs.ordered.span_eq offset).1
  have hsize : (totalLen (below offset s.batches) : Int) ≤ u32Max := by
    have hle := totalLen_below_le hs.ordered offset
    have hfit' : (totalLen s.batches : Int) ≤ u32Max := hfit.1
    omega
  unfold cutSegment truncateToRelative
  rw [hrel]
  simp only [htarget, hkept]
  rw [if_neg (by omega)]
  rfl

/-- Where a cut falls: inside one segment or at its end, or below all of them. -/
inductive CutAt (l : PartitionLog ρ) (offset : Int) : Prop
  | inside (before : List (Segment ρ)) (cut : Segment ρ) (after : List (Segment ρ))
      (hsplit : l.allSegments = before ++ cut :: after) (hlow : cut.baseOffset < offset)
      (hhigh : offset ≤ cut.lastOffset + 1) (hafter : ∀ s ∈ after, offset ≤ s.baseOffset)
      (heq : l.cutSegments offset = (cutSegment cut offset).map fun active => (before, active))
  | all (hfirst : offset ≤ l.firstLocalOffset)
      (heq : l.cutSegments offset = .ok ([], .create offset))

theorem Rooted.cutAt (h : l.Rooted a)
    (hcut : offset < l.logEndOffset ∨ offset = l.active.baseOffset) : l.CutAt offset := by
  by_cases hactive : l.active.baseOffset < offset
  · -- the cut lies inside the active segment, above every sealed one
    have hlast : offset ≤ l.active.lastOffset := by
      unfold logEndOffset at hcut
      omega
    have hall : (l.segments.takeWhile fun s => s.baseOffset < offset) = l.segments := by
      rw [takeWhile_eq_self_iff]
      intro s hs
      have hle := h.chained_segments.lastOffset_lt hs
      have hbase := (h.chained_segments.sound hs).baseOffset_le
      rw [← h.active_baseOffset] at hle
      simp only [decide_eq_true_eq]
      omega
    refine .inside l.segments l.active [] rfl hactive (by omega) (by simp) ?_
    unfold cutSegments
    rw [if_pos hactive, if_pos hlast, hall]
    cases cutSegment l.active offset <;> rfl
  · have hsplit : (l.segments.takeWhile fun s => s.baseOffset < offset) ++
        (l.segments.dropWhile fun s => s.baseOffset < offset) = l.segments :=
      takeWhile_append_dropWhile
    -- the segments behind the retained ones begin at or past the cut
    obtain ⟨next, rest, hrest, hnext⟩ : ∃ next rest,
        (l.segments.dropWhile fun s => s.baseOffset < offset) ++ [l.active] = next :: rest ∧
          offset ≤ next.baseOffset := by
      cases hdrop : l.segments.dropWhile fun s => s.baseOffset < offset with
      | nil => exact ⟨l.active, [], rfl, by omega⟩
      | cons s rest =>
        refine ⟨s, rest ++ [l.active], rfl, ?_⟩
        have hne : (l.segments.dropWhile fun s => s.baseOffset < offset) ≠ [] := by
          rw [hdrop]
          simp
        have hnot := head_dropWhile_not _ hne
        simpa [hdrop] using hnot
    have hsegments : l.allSegments =
        (l.segments.takeWhile fun s => s.baseOffset < offset) ++ next :: rest := by
      rw [← hrest, ← append_assoc, hsplit]
      rfl
    rcases eq_nil_or_concat' (l.segments.takeWhile fun s => s.baseOffset < offset) with
      hnil | ⟨before, cut, hconcat⟩
    · rw [hnil] at hsegments
      have hchain := h.chained
      rw [hsegments] at hchain
      refine .all ?_ ?_
      · rw [h.firstLocalOffset_eq, ← hchain.1]
        exact hnext
      · unfold cutSegments
        rw [if_neg hactive, hnil]
        rfl
    · rw [hconcat, append_assoc, singleton_append] at hsegments
      have hchain := h.chained
      rw [hsegments, chained_append] at hchain
      obtain ⟨-, -, -, hrest⟩ := hchain
      have hbase := hrest.1
      have hlow : cut.baseOffset < offset := by
        have hmem : cut ∈ l.segments.takeWhile fun s => s.baseOffset < offset := by
          rw [hconcat]
          simp
        simpa using mem_takeWhile_imp hmem
      refine .inside before cut (next :: rest) hsegments hlow (by omega) ?_ ?_
      · intro s hs
        have hle := hrest.le_base hs
        omega
      · unfold cutSegments
        rw [if_neg hactive, hconcat]
        simp only [getLast?_append, getLast?_singleton, Option.some_or,
          dropLast_concat]
        cases cutSegment cut offset <;> rfl

/-- What a cut does to the segments of a log: one of them is cut in place and
the later ones go, or nothing is left. -/
inductive CutSegments (l : PartitionLog ρ) (offset : Int) :
    List (Segment ρ) → Segment ρ → Prop
  | inside (before : List (Segment ρ)) (cut : Segment ρ) (after : List (Segment ρ))
      (hsplit : l.allSegments = before ++ cut :: after) (hlow : cut.baseOffset < offset)
      (hhigh : offset ≤ cut.lastOffset + 1) (hafter : ∀ s ∈ after, offset ≤ s.baseOffset) :
      CutSegments l offset before (cut.cutAt offset)
  | all (hfirst : offset ≤ l.firstLocalOffset) : CutSegments l offset [] (.create offset)

theorem Rooted.cutSegments_ok (h : l.Rooted a) (hfit : l.Addressable) (hzero : 0 ≤ a)
    (hcut : offset < l.logEndOffset ∨ offset = l.active.baseOffset) :
    ∃ segments active, l.cutSegments offset = .ok (segments, active) ∧
      CutSegments l offset segments active := by
  cases h.cutAt hcut with
  | inside before cut after hsplit hlow hhigh hafter heq =>
    have hmem : cut ∈ l.allSegments := by
      rw [hsplit]
      simp
    have hbase := h.chained.le_base hmem
    have hseg := cutSegment_eq (h.chained.sound hmem) (hfit cut hmem) (by omega) hlow.le hhigh
    refine ⟨before, cut.cutAt offset, ?_, .inside before cut after hsplit hlow hhigh hafter⟩
    rw [heq, hseg]
    rfl
  | all hfirst heq => exact ⟨[], .create offset, heq, .all hfirst⟩

theorem Rooted.cutSegments_inv (h : l.Rooted a)
    (hcut : offset < l.logEndOffset ∨ offset = l.active.baseOffset)
    {segments : List (Segment ρ)} {active : Segment ρ}
    (hok : l.cutSegments offset = .ok (segments, active)) :
    CutSegments l offset segments active := by
  cases h.cutAt hcut with
  | inside before cut after hsplit hlow hhigh hafter heq =>
    have hmem : cut ∈ l.allSegments := by
      rw [hsplit]
      simp
    rw [heq] at hok
    cases hseg : cutSegment cut offset with
    | error e =>
      rw [hseg] at hok
      cases hok
    | ok cut' =>
      rw [hseg] at hok
      obtain ⟨rfl, rfl⟩ := Prod.mk.inj (Except.ok.inj hok)
      rw [cutSegment_ok (h.chained.sound hmem) hseg]
      exact .inside before cut after hsplit hlow hhigh hafter
  | all hfirst heq =>
    obtain ⟨rfl, rfl⟩ := Prod.mk.inj (Except.ok.inj (heq.symm.trans hok))
    exact .all hfirst

theorem CutSegments.rooted {segments : List (Segment ρ)} {active : Segment ρ} (h : l.Rooted a)
    (ha : a ≤ offset) (hcut : CutSegments l offset segments active) :
    Chained a (segments ++ [active]) ∧ (∀ s ∈ segments, s.batches ≠ []) ∧
      (segments ++ [active]).flatMap Segment.batches = below offset l.batches := by
  cases hcut with
  | inside before cut after hsplit hlow hhigh hafter =>
    have hchain := h.chained
    rw [hsplit, chained_append] at hchain
    obtain ⟨hbefore, hbase, hsound, hrest⟩ := hchain
    have hkept : below offset (segments.flatMap Segment.batches) =
        segments.flatMap Segment.batches := hbefore.ordered.below_eq_self (by omega)
    have hgone : below offset (after.flatMap Segment.batches) = [] :=
      hrest.ordered.below_eq_nil hhigh
    refine ⟨chained_append.mpr ⟨hbefore, hbase, hsound.cutAt offset, trivial⟩, ?_, ?_⟩
    · have hinit : l.segments = segments ++ (cut :: after).dropLast := by
        have hdrop := congrArg dropLast hsplit
        rwa [allSegments, dropLast_concat, dropLast_append_cons] at hdrop
      intro s hs
      refine h.sealed_ne s ?_
      rw [hinit]
      exact mem_append_left _ hs
    · unfold batches
      rw [hsplit]
      simp only [flatMap_append, flatMap_cons, below_append, hkept, hgone,
        append_nil, flatMap_nil]
      rfl
  | all hfirst =>
    rw [h.firstLocalOffset_eq] at hfirst
    obtain rfl : a = offset := by omega
    refine ⟨⟨rfl, Segment.sound_create a, trivial⟩, nofun, ?_⟩
    rw [h.ordered.below_eq_nil le_rfl]
    rfl

end PartitionLog

end Krabka.Log

import Mathlib.Data.List.DropRight
import Mathlib.Data.List.Pairwise
import Krabka.Log.Kernels

/-!
# The leader-epoch checkpoint

The leader epochs of a log with the offset each one starts at.  The rows grow
strictly in both columns, which is a field of the structure: `assign` keeps it
by dropping the trailing rows that the new one does not follow, so the parser's
refusal of rows out of order never applies to a file that the log wrote.
-/

namespace Krabka.Log

open List

structure EpochEntry where
  epoch : Int
  startOffset : Int
  deriving DecidableEq

def IsStrictSuccessor (previous next : EpochEntry) : Prop :=
  previous.epoch < next.epoch ∧ previous.startOffset < next.startOffset

@[ext]
structure LeaderEpochCheckpoint where
  entries : List EpochEntry
  increasing : entries.Pairwise IsStrictSuccessor
  deriving DecidableEq

namespace LeaderEpochCheckpoint

def empty : LeaderEpochCheckpoint := ⟨[], .nil⟩

/-- `assign_needed`: an epoch that is the latest one already starts where it
started. -/
def assignNeeded (entries : List EpochEntry) (epoch startOffset : Int) : Bool :=
  match entries.getLast? with
  | some latest => latest.epoch ≠ epoch || startOffset < latest.startOffset
  | none => true

/-- The trailing rows that a row `(epoch, startOffset)` does not strictly follow. -/
def conflicts (epoch startOffset : Int) (e : EpochEntry) : Bool :=
  e.epoch ≥ epoch || e.startOffset ≥ startOffset

variable {entries : List EpochEntry}

theorem eq_or_successor {last e : EpochEntry} (h : entries.Pairwise IsStrictSuccessor)
    (hlast : entries.getLast? = some last) (he : e ∈ entries) :
    e = last ∨ IsStrictSuccessor e last := by
  obtain ⟨older, rfl⟩ := getLast?_eq_some_iff.mp hlast
  rcases mem_append.mp he with he | he
  · exact .inr ((pairwise_append.mp h).2.2 e he last mem_cons_self)
  · exact .inl (mem_singleton.mp he)

theorem le_of_getLast? {last e : EpochEntry} (h : entries.Pairwise IsStrictSuccessor)
    (hlast : entries.getLast? = some last) (he : e ∈ entries) :
    e.epoch ≤ last.epoch ∧ e.startOffset ≤ last.startOffset := by
  rcases eq_or_successor h hlast he with rfl | hs
  · exact ⟨le_rfl, le_rfl⟩
  · exact ⟨hs.1.le, hs.2.le⟩

theorem lt_of_mem_dropWhile {column : EpochEntry → Int} {bound : Int} {e : EpochEntry}
    (h : entries.Pairwise IsStrictSuccessor)
    (hcolumn : ∀ e f, IsStrictSuccessor e f → column e < column f)
    (he : e ∈ entries.dropWhile fun e => column e ≤ bound) : bound < column e := by
  induction entries with
  | nil => cases he
  | cons f entries ih =>
    obtain ⟨hfirst, hrest⟩ := pairwise_cons.mp h
    by_cases hf : column f ≤ bound
    · rw [dropWhile_cons_of_pos (by simpa using hf)] at he
      exact ih hrest he
    · rw [dropWhile_cons_of_neg (by simpa using hf)] at he
      rcases mem_cons.mp he with rfl | he
      · exact not_le.mp hf
      · exact (not_le.mp hf).trans (hcolumn _ _ (hfirst e he))

theorem pairwise_assign (h : entries.Pairwise IsStrictSuccessor) (epoch startOffset : Int) :
    List.Pairwise IsStrictSuccessor
      (entries.rdropWhile (conflicts epoch startOffset) ++ [⟨epoch, startOffset⟩]) := by
  have hprefix := rdropWhile_prefix (conflicts epoch startOffset) entries
  have hkept := h.sublist hprefix.sublist
  rw [pairwise_append]
  refine ⟨hkept, pairwise_singleton .., ?_⟩
  intro e he f hf
  obtain rfl := mem_singleton.mp hf
  -- every kept row precedes the last one, which does not conflict
  have hne := ne_nil_of_mem he
  have hstop := rdropWhile_last_not (conflicts epoch startOffset) entries hne
  simp only [conflicts, Bool.or_eq_true, decide_eq_true_eq, not_or, not_le] at hstop
  rcases eq_or_successor hkept (getLast?_eq_some_getLast hne) he with heq | hle
  · exact heq ▸ hstop
  · exact ⟨hle.1.trans hstop.1, hle.2.trans hstop.2⟩

def assign (c : LeaderEpochCheckpoint) (epoch startOffset : Int) :
    Except LogError LeaderEpochCheckpoint :=
  if epoch < 0 ∨ startOffset < 0 then
    .error (.invalidArgument s!"invalid leader epoch checkpoint entry ({epoch}, {startOffset})")
  else if assignNeeded c.entries epoch startOffset then
    .ok ⟨c.entries.rdropWhile (conflicts epoch startOffset) ++ [⟨epoch, startOffset⟩],
      pairwise_assign c.increasing epoch startOffset⟩
  else .ok c

def truncateFromEnd (c : LeaderEpochCheckpoint) (endOffset : Int) : LeaderEpochCheckpoint :=
  ⟨c.entries.filter fun e => e.startOffset < endOffset, c.increasing.filter _⟩

theorem pairwise_truncateFromStart {newest : EpochEntry}
    {startOffset : Int} (h : entries.Pairwise IsStrictSuccessor)
    (hnewest : (entries.takeWhile fun e => e.startOffset ≤ startOffset).getLast? = some newest) :
    List.Pairwise IsStrictSuccessor
      (⟨newest.epoch, startOffset⟩ :: entries.dropWhile fun e => e.startOffset ≤ startOffset) := by
  have hsplit : (entries.takeWhile fun e => e.startOffset ≤ startOffset) ++
      (entries.dropWhile fun e => e.startOffset ≤ startOffset) = entries :=
    takeWhile_append_dropWhile
  have hsorted := h
  rw [← hsplit, pairwise_append] at hsorted
  rw [pairwise_cons]
  refine ⟨?_, hsorted.2.1⟩
  intro e he
  have hmem := mem_of_getLast? hnewest
  exact ⟨(hsorted.2.2 newest hmem e he).1, lt_of_mem_dropWhile h (fun _ _ hs => hs.2) he⟩

/-- `LeaderEpochCheckpoint::truncate_from_start`: the newest row that starts at or
below the new start comes back there, and the older ones go. -/
def truncateFromStart (c : LeaderEpochCheckpoint) (startOffset : Int) : LeaderEpochCheckpoint :=
  match h : (c.entries.takeWhile fun e => e.startOffset ≤ startOffset).getLast? with
  | none => c
  | some _ => ⟨_, pairwise_truncateFromStart c.increasing h⟩

/-! ## Lookups -/

def latestEpoch (c : LeaderEpochCheckpoint) : Option Int := (c.entries.map EpochEntry.epoch).max?

/-- The row with the greatest start, the later one of two with the same. -/
def maxByStart (best : Option EpochEntry) (e : EpochEntry) : Option EpochEntry :=
  match best with
  | none => some e
  | some b => if b.startOffset ≤ e.startOffset then some e else some b

def epochForOffset (c : LeaderEpochCheckpoint) (offset : Int) : Option Int :=
  ((c.entries.filter fun e => e.startOffset ≤ offset).foldl maxByStart none).map EpochEntry.epoch

/-- `epoch_and_offset_for`: the epoch found and its end, `(-1, -1)` when the
requested epoch cannot be placed. -/
def epochAndOffsetFor (c : LeaderEpochCheckpoint) (requested logEnd : Int) : Int × Int :=
  if requested = -1 then (-1, -1)
  else
    let older := c.entries.takeWhile fun e => e.epoch ≤ requested
    match c.entries.dropWhile fun e => e.epoch ≤ requested with
    | [] => if older.getLast?.any fun last => last.epoch = requested then (requested, logEnd)
        else (-1, -1)
    | higher :: _ =>
      match older.getLast? with
      | none => (requested, higher.startOffset)
      | some previous => (previous.epoch, higher.startOffset)

variable {c c' : LeaderEpochCheckpoint} {epoch startOffset offset : Int}

theorem foldl_maxByStart (h : entries.Pairwise IsStrictSuccessor)
    (best : Option EpochEntry) (hbest : ∀ b, best = some b → ∀ e ∈ entries, IsStrictSuccessor b e) :
    entries.foldl maxByStart best = entries.getLast?.or best := by
  induction entries generalizing best with
  | nil => rfl
  | cons e entries ih =>
    have hstep : maxByStart best e = some e := by
      cases best with
      | none => rfl
      | some b => exact if_pos (hbest b rfl e mem_cons_self).2.le
    obtain ⟨hfirst, hrest⟩ := pairwise_cons.mp h
    rw [foldl_cons, hstep, ih hrest (some e) (fun b hb x hx => Option.some.inj hb ▸ hfirst x hx)]
    cases entries with
    | nil => rfl
    | cons f entries => simp [getLast?_cons]

theorem epochForOffset_eq (c : LeaderEpochCheckpoint) (offset : Int) :
    c.epochForOffset offset =
      (c.entries.filter fun e => e.startOffset ≤ offset).getLast?.map EpochEntry.epoch := by
  unfold epochForOffset
  rw [foldl_maxByStart (c.increasing.filter _) none nofun, Option.or_none]

theorem epochForOffset_eq_some : c.epochForOffset offset = some epoch ↔
    ∃ e ∈ c.entries, e.epoch = epoch ∧ e.startOffset ≤ offset ∧
      ∀ f ∈ c.entries, f.startOffset ≤ offset → f.startOffset ≤ e.startOffset := by
  have hsorted : (c.entries.filter fun e => e.startOffset ≤ offset).Pairwise IsStrictSuccessor :=
    c.increasing.filter _
  rw [epochForOffset_eq, Option.map_eq_some_iff]
  constructor
  · rintro ⟨e, hlast, rfl⟩
    obtain ⟨hmem, hle⟩ := mem_filter.mp (mem_of_getLast? hlast)
    refine ⟨e, hmem, rfl, by simpa using hle, ?_⟩
    exact fun f hf hfle =>
      (le_of_getLast? hsorted hlast (mem_filter.mpr ⟨hf, by simpa using hfle⟩)).2
  · rintro ⟨e, hmem, rfl, hle, hmax⟩
    have hemem : e ∈ c.entries.filter fun e => e.startOffset ≤ offset :=
      mem_filter.mpr ⟨hmem, by simpa using hle⟩
    obtain ⟨last, hlast⟩ := Option.isSome_iff_exists.mp
      (getLast?_isSome.mpr (ne_nil_of_mem hemem))
    rcases eq_or_successor hsorted hlast hemem with rfl | hs
    · exact ⟨_, hlast, rfl⟩
    · -- a row before the last one does not have the greatest start
      obtain ⟨hlast, hlastle⟩ := mem_filter.mp (mem_of_getLast? hlast)
      exact absurd (hmax last hlast (by simpa using hlastle)) (not_le.mpr hs.2)

theorem epochForOffset_congr (h : ∀ e, e.startOffset ≤ offset → (e ∈ c'.entries ↔ e ∈ c.entries)) :
    c'.epochForOffset offset = c.epochForOffset offset := by
  apply Option.ext
  intro epoch
  rw [epochForOffset_eq_some, epochForOffset_eq_some]
  constructor
  · rintro ⟨e, hmem, hepoch, hle, hmax⟩
    exact ⟨e, (h e hle).mp hmem, hepoch, hle, fun f hf hfle => hmax f ((h f hfle).mpr hf) hfle⟩
  · rintro ⟨e, hmem, hepoch, hle, hmax⟩
    exact ⟨e, (h e hle).mpr hmem, hepoch, hle, fun f hf hfle => hmax f ((h f hfle).mp hf) hfle⟩

theorem epochForOffset_truncateFromEnd {endOffset : Int} (h : offset < endOffset) :
    (c.truncateFromEnd endOffset).epochForOffset offset = c.epochForOffset offset := by
  apply epochForOffset_congr
  intro e hle
  unfold truncateFromEnd
  rw [mem_filter]
  have hlt : e.startOffset < endOffset := hle.trans_lt h
  simp [hlt]

theorem epochForOffset_truncateFromStart (h : startOffset ≤ offset) :
    (c.truncateFromStart startOffset).epochForOffset offset = c.epochForOffset offset := by
  unfold truncateFromStart
  split
  · rfl
  · rename_i newest hnewest
    have hsplit : (c.entries.takeWhile fun e => e.startOffset ≤ startOffset) ++
        (c.entries.dropWhile fun e => e.startOffset ≤ startOffset) = c.entries :=
      takeWhile_append_dropWhile
    have htaken : ((c.entries.takeWhile fun e => e.startOffset ≤ startOffset).filter
        fun e => e.startOffset ≤ offset) =
        c.entries.takeWhile fun e => e.startOffset ≤ startOffset := by
      rw [filter_eq_self]
      intro e he
      have hle : e.startOffset ≤ startOffset := by simpa using mem_takeWhile_imp he
      simpa using hle.trans h
    have hold : (c.entries.filter fun e => e.startOffset ≤ offset) =
        (c.entries.takeWhile fun e => e.startOffset ≤ startOffset) ++
          (c.entries.dropWhile fun e => e.startOffset ≤ startOffset).filter
            fun e => e.startOffset ≤ offset := by
      conv_lhs => rw [← hsplit, filter_append, htaken]
    rw [epochForOffset_eq, epochForOffset_eq, hold, filter_cons_of_pos (by simpa using h),
      getLast?_append, getLast?_cons, hnewest]
    cases ((c.entries.dropWhile fun e => e.startOffset ≤ startOffset).filter
      fun e => e.startOffset ≤ offset).getLast? <;> rfl

variable {e : EpochEntry}

theorem startOffset_lt_iff {f : EpochEntry} (he : e ∈ c.entries) (hf : f ∈ c.entries) :
    e.startOffset < f.startOffset ↔ e.epoch < f.epoch := by
  have htotal : c.entries.Pairwise fun e f => IsStrictSuccessor e f ∨ IsStrictSuccessor f e :=
    c.increasing.imp .inl
  have hsymm : Std.Symm fun e f => IsStrictSuccessor e f ∨ IsStrictSuccessor f e :=
    ⟨fun _ _ h => h.symm⟩
  by_cases heq : e = f
  · rw [heq]
    simp
  · rcases htotal.forall he hf heq with h | h
    · exact ⟨fun _ => h.1, fun _ => h.2⟩
    · have hepoch := h.1
      have hstart := h.2
      omega

theorem le_latestEpoch (he : e ∈ c.entries) :
    ∃ latest, c.latestEpoch = some latest ∧ e.epoch ≤ latest := by
  have hmem : e.epoch ∈ c.entries.map EpochEntry.epoch := mem_map_of_mem he
  obtain ⟨latest, hlatest⟩ := Option.isSome_iff_exists.mp (isSome_max?_of_mem hmem)
  exact ⟨latest, hlatest, (max?_eq_some_iff.mp hlatest).2 _ hmem⟩

/-! ## Assignments in order -/

def AllAtMost (c : LeaderEpochCheckpoint) (epoch : Int) : Prop := ∀ e ∈ c.entries, e.epoch ≤ epoch

instance (c : LeaderEpochCheckpoint) (epoch : Int) : Decidable (c.AllAtMost epoch) := by
  unfold AllAtMost
  infer_instance

theorem mem_assign (h : c.AllAtMost epoch) (hassign : c.assign epoch startOffset = .ok c')
    (he : e.startOffset < startOffset) : e ∈ c'.entries ↔ e ∈ c.entries := by
  unfold assign at hassign
  split at hassign
  · cases hassign
  · split at hassign
    · rename_i hneeded
      cases hassign
      rw [mem_append, mem_singleton]
      constructor
      · rintro (hmem | rfl)
        · have hkept := rdropWhile_prefix (conflicts epoch startOffset) c.entries
          exact hkept.subset hmem
        · exact absurd he (lt_irrefl _)
      · intro hmem
        -- the dropped rows start at or past the new one
        have hsplit := rdropWhile_append_rtakeWhile
          (p := conflicts epoch startOffset) (l := c.entries)
        rw [← hsplit, mem_append] at hmem
        refine .inl (hmem.resolve_right ?_)
        intro hdropped
        have hconflict := mem_rtakeWhile_imp hdropped
        have hin : e ∈ c.entries := by
          rw [← hsplit]
          exact mem_append_right _ hdropped
        unfold conflicts at hconflict
        simp only [Bool.or_eq_true, decide_eq_true_eq] at hconflict
        have hepoch : e.epoch = epoch := by
          have hle := h e hin
          omega
        -- a row of the same epoch is the latest one, and then the new row is needed for its start
        obtain ⟨last, hlast⟩ := Option.isSome_iff_exists.mp
          (getLast?_isSome.mpr (ne_nil_of_mem hin))
        have hmax := h last (mem_of_getLast? hlast)
        unfold assignNeeded at hneeded
        rw [hlast] at hneeded
        simp only [Bool.or_eq_true, decide_eq_true_eq] at hneeded
        rcases eq_or_successor c.increasing hlast hin with rfl | hs
        · omega
        · have hlt := hs.1
          omega
    · cases hassign
      rfl

theorem getLast?_assign (hassign : c.assign epoch startOffset = .ok c') :
    ∃ last, c'.entries.getLast? = some last ∧ last.epoch = epoch ∧
      last.startOffset ≤ startOffset := by
  unfold assign at hassign
  split at hassign
  · cases hassign
  · split at hassign
    · cases hassign
      exact ⟨_, getLast?_concat, rfl, le_rfl⟩
    · -- no row is needed when the epoch is the latest already
      rename_i hneeded
      cases hassign
      unfold assignNeeded at hneeded
      cases hlast : c.entries.getLast? with
      | none =>
        rw [hlast] at hneeded
        exact absurd rfl hneeded
      | some latest =>
        rw [hlast] at hneeded
        simp only [Bool.or_eq_true, decide_eq_true_eq, not_or, not_not, not_lt] at hneeded
        exact ⟨latest, rfl, hneeded⟩

theorem epochForOffset_assign
    (hassign : c.assign epoch startOffset = .ok c') (hle : startOffset ≤ offset) :
    c'.epochForOffset offset = some epoch := by
  obtain ⟨last, hlast, hepoch, hstart⟩ := getLast?_assign hassign
  exact epochForOffset_eq_some.mpr ⟨last, mem_of_getLast? hlast, hepoch, hstart.trans hle,
    fun f hf _ => (le_of_getLast? c'.increasing hlast hf).2⟩

theorem ext_mem (h : ∀ e, e ∈ c.entries ↔ e ∈ c'.entries) : c = c' := by
  apply LeaderEpochCheckpoint.ext
  have hirrefl : ∀ e : EpochEntry, ¬ IsStrictSuccessor e e := fun e he => lt_irrefl _ he.1
  have hnodup : ∀ d : LeaderEpochCheckpoint, d.entries.Nodup := by
    intro d
    refine d.increasing.imp ?_
    rintro e f hef rfl
    exact hirrefl e hef
  have hperm := (perm_ext_iff_of_nodup (hnodup c) (hnodup c')).mpr h
  refine hperm.eq_of_pairwise ?_ c.increasing c'.increasing
  intro e f _ _ hef hfe
  exact absurd (hef.1.trans hfe.1) (lt_irrefl _)

theorem assign_ok (c : LeaderEpochCheckpoint) (hepoch : 0 ≤ epoch) (hstart : 0 ≤ startOffset) :
    ∃ c', c.assign epoch startOffset = .ok c' := by
  unfold assign
  rw [if_neg (by omega)]
  split
  · exact ⟨_, rfl⟩
  · exact ⟨_, rfl⟩

theorem mem_assign_of_le (h : c.AllAtMost epoch) (hassign : c.assign epoch startOffset = .ok c')
    (he : startOffset ≤ e.startOffset) : e ∈ c'.entries ↔
      e = ⟨epoch, startOffset⟩ ∧ ∀ f ∈ c.entries,
        f.startOffset < startOffset → f.epoch ≠ epoch := by
  obtain ⟨row, hrow, hepoch, hle⟩ := getLast?_assign hassign
  have hmem := mem_of_getLast? hrow
  constructor
  · intro hin
    rcases eq_or_successor c'.increasing hrow hin with rfl | hs
    · have heq : e.startOffset = startOffset := le_antisymm hle he
      refine ⟨by rw [← hepoch, ← heq], ?_⟩
      intro f hf hlt hfepoch
      have hf' := (mem_assign h hassign hlt).mpr hf
      have hiff := startOffset_lt_iff hf' hin
      omega
    · have hlt := hs.2
      omega
  · rintro ⟨rfl, hnone⟩
    -- a row of the epoch that starts below would be one of the old rows
    have hstart : row.startOffset = startOffset := by
      by_contra hne
      have hlt : row.startOffset < startOffset := by omega
      exact hnone row ((mem_assign h hassign hlt).mp hmem) hlt hepoch
    rw [← hepoch, ← hstart]
    exact hmem

/-! ## The end of an epoch -/

theorem lt_epochAndOffsetFor {requested logEnd : Int}
    (hepoch : c.epochForOffset offset = some epoch)
    (hle : epoch ≤ requested) (hend : offset < logEnd) :
    (c.epochAndOffsetFor requested logEnd).2 = -1 ∨
      offset < (c.epochAndOffsetFor requested logEnd).2 := by
  obtain ⟨e, hmem, rfl, hstart, hmax⟩ := epochForOffset_eq_some.mp hepoch
  unfold epochAndOffsetFor
  split
  · exact .inl rfl
  · dsimp only
    cases hdrop : c.entries.dropWhile fun e => e.epoch ≤ requested with
    | nil =>
      dsimp only
      split
      · exact .inr hend
      · exact .inl rfl
    | cons higher rest =>
      have habove : requested < higher.epoch :=
        lt_of_mem_dropWhile c.increasing (fun _ _ hs => hs.1) (hdrop ▸ mem_cons_self)
      have hin : higher ∈ c.entries := by
        refine (dropWhile_suffix fun e : EpochEntry => e.epoch ≤ requested).subset ?_
        rw [hdrop]
        exact mem_cons_self
      -- the row of the offset comes before the first newer one
      have hlt : offset < higher.startOffset := by
        have hrows := (startOffset_lt_iff hmem hin).mpr (hle.trans_lt habove)
        by_contra hnot
        have hback := hmax higher hin (by omega)
        omega
      right
      cases (c.entries.takeWhile fun e => e.epoch ≤ requested).getLast? <;> exact hlt

end LeaderEpochCheckpoint

end Krabka.Log

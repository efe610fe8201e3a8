import Krabka.Lib.Transition
import Krabka.ShareCoordinator.StateMachine

/-!
# Pruning the share-state log

`pruning.rs` drops the records below the smallest latest-snapshot offset of the
live keys.  A `Journal` is the log with the live state that it has led to, and
`Tracks` compares the replay of the whole log with the replay from an offset on,
record by record: a key's states agree from the first snapshot behind the offset
on, except that the fences of the shorter replay have seen fewer records.

A snapshot carries the leader epoch of its key, so the fence comes back from it
as long as the two are the same.  `initialize` on a key that has state writes
leader epoch 0 and keeps the higher fence in memory only:
`initialize_loses_fence`.
-/

namespace Krabka.ShareCoordinator

open Krabka.Share SharePartitionState StateMap Option List

def sharePruneFrontier : List Int → Option Int
  | [] => none
  | first :: offsets =>
    some (offsets.foldl
      (fun frontier offset => if offset < frontier then offset else frontier) first)

def redundantOffset (perKeyLastSnapshot : List Int) : Option Int :=
  sharePruneFrontier perKeyLastSnapshot

theorem foldl_frontier_le (first : Int) (offsets : List Int) :
    offsets.foldl (fun frontier offset => if offset < frontier then offset else frontier) first ≤
        first ∧
      ∀ o ∈ offsets, offsets.foldl
        (fun frontier offset => if offset < frontier then offset else frontier) first ≤ o := by
  induction offsets generalizing first with
  | nil => simp
  | cons offset offsets ih =>
    obtain ⟨hfirst, hrest⟩ := ih (if offset < first then offset else first)
    have hle : (if offset < first then offset else first) ≤ first ∧
        (if offset < first then offset else first) ≤ offset := by
      split <;> omega
    rw [foldl_cons]
    refine ⟨hfirst.trans hle.1, forall_mem_cons.mpr ⟨hfirst.trans hle.2, hrest⟩⟩

theorem redundantOffset_le {offsets : List Int} {r : Int} (h : redundantOffset offsets = some r) :
    ∀ o ∈ offsets, r ≤ o := by
  cases offsets with
  | nil => exact absurd h (by simp [redundantOffset, sharePruneFrontier])
  | cons first offsets =>
    cases h
    obtain ⟨hfirst, hrest⟩ := foldl_frontier_le first offsets
    exact forall_mem_cons.mpr ⟨hfirst, hrest⟩

/-! ## Journals -/

structure Journal where
  log : List LogRecord
  live : StateMap

section

variable (config : ShareCoordinatorConfig)

/-- A step at a time of the wall clock. -/
def Journal.run (j : Journal) (a : Work × Int) : Journal :=
  match a.1.record config a.2 j.live with
  | .ok (some r) => ⟨j.log ++ [r], j.live.apply config j.log.length r⟩
  | _ => j

def journal : TransitionSystem Journal (Work × Int) :=
  .ofFun (fun j => j = ⟨[], .empty⟩) (Journal.run config)

/-- No initialize is accepted for a key whose leader-epoch fence is above 0. -/
def KeepsFence (j : Journal) (a : Work × Int) (_ : Journal) : Prop :=
  ∀ image key stateEpoch startOffset st, a.1 = .initializeState image key stateEpoch startOffset →
    j.live key = some st → (∃ r, a.1.record config a.2 j.live = .ok (some r)) →
      st.fenceLeaderEpoch ≤ 0

/-- The replay of the records at or behind an offset. -/
def Journal.replayFrom (j : Journal) (r : Nat) : StateMap :=
  .replay config r (j.log.drop r) .empty

end

/-! ## The states of the keys -/

/-- What the snapshots of a key carry is what it is fenced by. -/
structure SharePartitionState.Fenced (st : SharePartitionState) : Prop where
  stateFence : st.fenceStateEpoch = st.stateEpoch
  stateEpoch : 0 ≤ st.stateEpoch
  leaderFence : st.fenceLeaderEpoch = st.leaderEpoch
  leaderEpoch : 0 ≤ st.leaderEpoch

/-- The state without the count of the updates, which says when the next
snapshot is due. -/
def SharePartitionState.withoutCount (st : SharePartitionState) : SharePartitionState :=
  { st with updatesSinceSnapshot := 0 }

section

variable {st : SharePartitionState}

variable {v : ShareSnapshotValue}

theorem applySnapshot_eq {offset : Int} {n : Nat}
    (hleader : st.fenceLeaderEpoch ≤ v.leaderEpoch) (hstate : st.fenceStateEpoch ≤ v.stateEpoch) :
    (st.applySnapshot v offset n).withoutCount =
      (fromSnapshot v offset).withoutCount := by
  simp only [applySnapshot, fromSnapshot,
    withoutCount, max_eq_right hleader, max_eq_right hstate, max_self]

theorem applyUpdate_congr {st' : SharePartitionState} {v : ShareUpdateValue}
    (h : st'.withoutCount = st.withoutCount) :
    (st'.applyUpdate v).withoutCount = (st.applyUpdate v).withoutCount := by
  simp only [withoutCount, mk.injEq] at h
  obtain ⟨h₁, h₂, h₃, h₄, h₅, h₆, h₇, h₈, h₉, -, h₁₀, h₁₁⟩ := h
  simp only [applyUpdate, withoutCount, h₁, h₂, h₃, h₅, h₆,
    h₇, h₈, h₉, h₁₀, h₁₁]

theorem fences_of_withoutCount {st' : SharePartitionState}
    (h : st'.withoutCount = st.withoutCount) : st'.fenceLeaderEpoch = st.fenceLeaderEpoch ∧
      st'.fenceStateEpoch = st.fenceStateEpoch := by
  simp only [withoutCount, mk.injEq] at h
  obtain ⟨-, -, -, -, -, -, -, -, -, -, hleader, hstate⟩ := h
  exact ⟨hleader, hstate⟩

theorem applySnapshot_fenced {offset : Int} {n : Nat}
    (hleader : st.fenceLeaderEpoch ≤ v.leaderEpoch) (hstate : st.fenceStateEpoch ≤ v.stateEpoch)
    (h₀ : 0 ≤ v.stateEpoch) (h₁ : 0 ≤ v.leaderEpoch) : (st.applySnapshot v offset n).Fenced :=
  ⟨max_eq_right hstate, h₀, max_eq_right hleader, h₁⟩

theorem Fenced.progress (config : ShareCoordinatorConfig) (now offset : Int) (n : Nat)
    {leaderEpoch start count : Int} {batches : List StateBatch} (h : st.Fenced)
    (hepoch : leaderEpoch = st.leaderEpoch ∨ 0 ≤ leaderEpoch ∧ st.fenceLeaderEpoch < leaderEpoch) :
    (∀ v, shareStateRecord config now st ⟨leaderEpoch, start, count, batches⟩ = .snapshot v →
      (st.applySnapshot v offset n).Fenced) ∧
    ∀ v, shareStateRecord config now st ⟨leaderEpoch, start, count, batches⟩ = .update v →
      (st.applyUpdate v).Fenced := by
  have hleader := h.leaderFence
  have hnonneg := h.leaderEpoch
  have hstate := h.stateFence
  unfold shareStateRecord
  split
  · refine ⟨fun v hv => ?_, fun v hv => absurd hv (by simp)⟩
    obtain rfl := StateRecord.snapshot.inj hv
    exact applySnapshot_fenced (by dsimp only; omega) (by dsimp only; omega) h.stateEpoch
      (by dsimp only; omega)
  · refine ⟨fun v hv => absurd hv (by simp), fun v hv => ?_⟩
    obtain rfl := StateRecord.update.inj hv
    have hne : leaderEpoch ≠ -1 := by omega
    refine ⟨hstate, h.stateEpoch, ?_, ?_⟩
    · simp only [applyUpdate, if_pos hne]
      omega
    · simp only [applyUpdate, if_pos hne]
      omega

end

/-! ## Two replays -/

/-- The keys of a journal: fenced, with their latest snapshots in the log. -/
structure Journal.Sound (config : ShareCoordinatorConfig) (j : Journal) : Prop where
  live : j.live = .replay config 0 j.log .empty
  fenced : ∀ key st, j.live key = some st → st.Fenced
  snapshot : ∀ key st, j.live key = some st →
    0 ≤ st.lastSnapshotOffset ∧ st.lastSnapshotOffset < j.log.length

/-- The shorter replay, from `r` on, beside the whole one. -/
structure Tracks (r : Int) (full tail : StateMap) : Prop where
  none : ∀ key, full key = none → tail key = none
  behind : ∀ key st st', full key = some st → tail key = some st' →
    st'.fenceLeaderEpoch ≤ st.fenceLeaderEpoch ∧ st'.fenceStateEpoch ≤ st.fenceStateEpoch
  same : ∀ key st, full key = some st → r ≤ st.lastSnapshotOffset →
    ∃ st', tail key = some st' ∧ st'.withoutCount = st.withoutCount

def applied (config : ShareCoordinatorConfig) (offset : Int) (entry : Option SharePartitionState) :
    Option StateRecord → Option SharePartitionState
  | none => none
  | some (.snapshot v) =>
    match entry with
    | some st => some (st.applySnapshot v offset config.snapshotUpdateRecordsPerSnapshot)
    | none => some (.fromSnapshot v offset)
  | some (.update v) =>
    match entry with
    | some st => some (st.applyUpdate v)
    | none => some (.fromUpdate v)

theorem replayRecord_apply (config : ShareCoordinatorConfig) (m : StateMap) (offset : Int)
    (r : LogRecord) (key : StateKey) :
    m.replayRecord config offset r key =
      if key = r.key then applied config offset (m key) r.value else m key := by
  unfold StateMap.replayRecord applied
  by_cases hkey : key = r.key
  · rw [if_pos hkey, ← hkey]
    cases r.value with
    | none => simp [StateMap.remove]
    | some record => cases record <;> cases m key <;> simp [StateMap.insert]
  · rw [if_neg hkey]
    cases r.value with
    | none => simp [StateMap.remove, hkey]
    | some record => cases record <;> cases m r.key <;> simp [StateMap.insert, hkey]

section

variable {config : ShareCoordinatorConfig}

variable {r : LogRecord}

theorem Work.record_carries {work : Work} {now : Int} {live : StateMap}
    (h : work.record config now live = .ok (some r)) {st : SharePartitionState}
    (hst : live work.key = some st) (hfenced : st.Fenced)
    (hkeeps : ∀ image key stateEpoch startOffset,
      work = .initializeState image key stateEpoch startOffset → st.fenceLeaderEpoch ≤ 0)
    {v : ShareSnapshotValue} (hv : r.value = some (.snapshot v)) :
    st.fenceLeaderEpoch ≤ v.leaderEpoch := by
  have hshare : ∀ {leaderEpoch start count : Int} {batches : List StateBatch},
      shareStateRecord config now st ⟨leaderEpoch, start, count, batches⟩ = .snapshot v →
        v.leaderEpoch = leaderEpoch := by
    intro leaderEpoch start count batches heq
    unfold shareStateRecord at heq
    split at heq
    · rw [← StateRecord.snapshot.inj heq]
    · cases heq
  cases work with
  | initializeState image key stateEpoch startOffset =>
    obtain ⟨record, hrecord, rfl⟩ := record_map_ok h
    have hzero := hkeeps image key stateEpoch startOffset rfl
    obtain ⟨-, ⟨-, rfl⟩ | ⟨_, -, -, rfl⟩⟩ := initializeRecord_ok hrecord <;>
      rwa [← StateRecord.snapshot.inj (some.inj hv)]
  | write image key request =>
    obtain ⟨record, hrecord, rfl⟩ := record_map_ok h
    obtain ⟨st', hst', rfl⟩ := writeRecord_written hrecord
    obtain rfl := some.inj (hst'.symm.trans hst)
    rw [hshare (some.inj hv)]
    exact le_of_eq hfenced.leaderFence
  | read image key leaderEpoch =>
    obtain ⟨record, hrecord, rfl⟩ := record_map_ok h
    obtain ⟨st', hst', -, hfence, rfl⟩ := readRecord_written hrecord
    obtain rfl := some.inj (hst'.symm.trans hst)
    rw [hshare (some.inj hv)]
    exact hfence.le
  | delete image key =>
    simp only [Work.record] at h
    split at h
    · cases h
    obtain ⟨_, _, rfl⟩ := tombstone_map (Except.ok.inj (checkTopicPartition_bind h))
    cases hv
  | cleanup key =>
    obtain ⟨_, _, rfl⟩ := tombstone_map (Except.ok.inj h)
    cases hv
  | coldSnapshot key =>
    have hst : live key = some st := hst
    simp only [Work.record, hst] at h
    split at h
    · exact absurd (Except.ok.inj h) (by simp)
    obtain rfl := some.inj (Except.ok.inj h)
    rw [← StateRecord.snapshot.inj (some.inj hv)]
    exact le_of_eq hfenced.leaderFence

variable {offset : Int}

theorem Written.fenced {now : Int} {entry : Option SharePartitionState}
    {value : Option StateRecord} (h : Written config now entry value)
    (hentry : ∀ st, entry = some st → st.Fenced)
    (hkeeps : ∀ st v, entry = some st → value = some (.snapshot v) →
      st.fenceLeaderEpoch ≤ v.leaderEpoch)
    {st' : SharePartitionState} (hst' : applied config offset entry value = some st') :
    st'.Fenced := by
  cases h with
  | first stateEpoch startOffset hepoch =>
    cases hst'
    exact ⟨max_self _, hepoch, max_self _, le_refl 0⟩
  | again st stateEpoch startOffset hepoch hfence =>
    cases hst'
    exact applySnapshot_fenced (hkeeps st _ rfl rfl) hfence hepoch (le_refl 0)
  | progress st leaderEpoch startOffset count batches hepoch =>
    obtain ⟨hsnapshot, hupdate⟩ := Fenced.progress config now offset
      config.snapshotUpdateRecordsPerSnapshot (hentry st rfl) hepoch
    cases hrecord : shareStateRecord config now st ⟨leaderEpoch, startOffset, count, batches⟩ with
    | snapshot v =>
      rw [hrecord] at hst'
      cases hst'
      exact hsnapshot v hrecord
    | update v =>
      rw [hrecord] at hst'
      cases hst'
      exact hupdate v hrecord
  | cold st =>
    cases hst'
    have hst := hentry st rfl
    exact applySnapshot_fenced (le_of_eq hst.leaderFence) (le_of_eq hst.stateFence) hst.stateEpoch
      hst.leaderEpoch
  | tombstone st => exact absurd hst' (by simp [applied])

theorem Tracks.step {r : Int} {full tail : StateMap} (h : Tracks r full tail) (rec : LogRecord)
    (hfits : rec.Fits full) (hold : ∀ key st, full key = some st → st.Fenced)
    (hnew : ∀ st', applied config offset (full rec.key) rec.value = some st' → st'.Fenced) :
    Tracks r (full.replayRecord config offset rec) (tail.replayRecord config offset rec) := by
  -- Both replays are read at one key; only the record's own key changes.
  have hkey : ∀ key, key ≠ rec.key → full.replayRecord config offset rec key = full key ∧
      tail.replayRecord config offset rec key = tail key := fun key hne =>
    ⟨by rw [replayRecord_apply, if_neg hne], by rw [replayRecord_apply, if_neg hne]⟩
  have hown : full.replayRecord config offset rec rec.key =
        applied config offset (full rec.key) rec.value ∧
      tail.replayRecord config offset rec rec.key =
        applied config offset (tail rec.key) rec.value :=
    ⟨by rw [replayRecord_apply, if_pos rfl], by rw [replayRecord_apply, if_pos rfl]⟩
  -- The fences that a record leaves in the whole replay are those it carries.
  have hsnap : ∀ v, rec.value = some (.snapshot v) →
      ∃ st st', applied config offset (full rec.key) rec.value = some st ∧
        applied config offset (tail rec.key) rec.value = some st' ∧
        st'.withoutCount = st.withoutCount := by
    intro v hv
    rw [hv] at hnew ⊢
    cases hfull : full rec.key with
    | none =>
      rw [h.none rec.key hfull]
      exact ⟨_, _, rfl, rfl, rfl⟩
    | some st =>
      rw [hfull] at hnew
      obtain ⟨hstate, -, hleader, -⟩ := hnew _ rfl
      have hl : st.fenceLeaderEpoch ≤ v.leaderEpoch := le_of_le_of_eq (le_max_left _ _) hleader
      have hs : st.fenceStateEpoch ≤ v.stateEpoch := le_of_le_of_eq (le_max_left _ _) hstate
      cases htail : tail rec.key with
      | none => exact ⟨_, _, rfl, rfl, (applySnapshot_eq hl hs).symm⟩
      | some st' =>
        obtain ⟨hl', hs'⟩ := h.behind rec.key st st' hfull htail
        exact ⟨_, _, rfl, rfl,
          (applySnapshot_eq (hl'.trans hl) (hs'.trans hs)).trans (applySnapshot_eq hl hs).symm⟩
  refine ⟨fun key hnone => ?_, fun key st st' hst hst' => ?_, fun key st hst hr => ?_⟩
  · by_cases heq : key = rec.key
    · subst heq
      rw [hown.1] at hnone
      rw [hown.2]
      cases hvalue : rec.value with
      | none => rfl
      | some record =>
        rw [hvalue] at hnone
        cases record <;> cases hfull : full rec.key <;> rw [hfull] at hnone <;>
          exact absurd hnone (by simp [applied])
    · rw [(hkey key heq).1] at hnone
      rw [(hkey key heq).2]
      exact h.none key hnone
  · by_cases heq : key = rec.key
    · subst heq
      rw [hown.1] at hst
      rw [hown.2] at hst'
      cases hvalue : rec.value with
      | none =>
        rw [hvalue] at hst
        exact absurd hst (by simp [applied])
      | some record =>
        cases record with
        | snapshot v =>
          obtain ⟨t, t', ht, ht', hsame⟩ := hsnap v hvalue
          rw [ht] at hst
          rw [ht'] at hst'
          cases hst
          cases hst'
          obtain ⟨hleader, hstate⟩ := fences_of_withoutCount hsame
          exact ⟨le_of_eq hleader, le_of_eq hstate⟩
        | update v =>
          obtain ⟨st₀, hst₀⟩ := isSome_iff_exists.mp (hfits v hvalue)
          rw [hvalue, hst₀] at hst
          rw [hvalue] at hst'
          cases hst
          cases htail : tail rec.key with
          | none =>
            rw [htail] at hst'
            cases hst'
            have hst₀' := hold rec.key st₀ hst₀
            refine ⟨le_max_right _ _, ?_⟩
            show 0 ≤ st₀.fenceStateEpoch
            rw [hst₀'.stateFence]
            exact hst₀'.stateEpoch
          | some st₁ =>
            rw [htail] at hst'
            cases hst'
            obtain ⟨hl, hs⟩ := h.behind rec.key st₀ st₁ hst₀ htail
            exact ⟨max_le_max_right _ hl, hs⟩
    · rw [(hkey key heq).1] at hst
      rw [(hkey key heq).2] at hst'
      exact h.behind key st st' hst hst'
  · by_cases heq : key = rec.key
    · subst heq
      rw [hown.1] at hst
      rw [hown.2]
      cases hvalue : rec.value with
      | none =>
        rw [hvalue] at hst
        exact absurd hst (by simp [applied])
      | some record =>
        cases record with
        | snapshot v =>
          obtain ⟨t, t', ht, ht', hsame⟩ := hsnap v hvalue
          rw [ht] at hst
          cases hst
          exact ⟨t', by rw [← hvalue]; exact ht', hsame⟩
        | update v =>
          obtain ⟨st₀, hst₀⟩ := isSome_iff_exists.mp (hfits v hvalue)
          rw [hvalue, hst₀] at hst
          cases hst
          obtain ⟨st₁, hst₁, hsame⟩ := h.same rec.key st₀ hst₀ hr
          rw [hst₁]
          exact ⟨_, rfl, applyUpdate_congr hsame⟩
    · rw [(hkey key heq).1] at hst
      rw [(hkey key heq).2]
      exact h.same key st hst hr

/-! ## Runs -/

theorem Journal.run_cases (j : Journal) (a : Work × Int) :
    j.run config a = j ∨ ∃ r, a.1.record config a.2 j.live = .ok (some r) ∧
      j.run config a = ⟨j.log ++ [r], j.live.replayRecord config j.log.length r⟩ := by
  unfold Journal.run
  split
  · rename_i r hr
    exact .inr ⟨r, hr, by rw [apply_eq_replay config (Work.record_fits hr)]⟩
  · exact .inl rfl

variable {j : Journal} {a : Work × Int}

theorem Journal.Sound.applied_fenced (hj : j.Sound config)
    (hr : a.1.record config a.2 j.live = .ok (some r))
    (hkeeps : ∀ j', KeepsFence config j a j') {st' : SharePartitionState}
    (hst' : applied config j.log.length (j.live r.key) r.value = some st') : st'.Fenced := by
  obtain ⟨hkey, hwritten⟩ := Work.record_written hr
  rw [hkey] at hst'
  refine hwritten.fenced (hj.fenced _) (fun st v hst hv => ?_) hst'
  refine Work.record_carries hr hst (hj.fenced _ _ hst) (fun image key se so heq => ?_) hv
  have hlive : j.live key = some st := by
    rw [heq] at hst
    exact hst
  exact hkeeps j image key se so st heq hlive ⟨r, hr⟩

theorem applied_lastSnapshotOffset {entry : Option SharePartitionState}
    {value : Option StateRecord} {st' : SharePartitionState}
    (h : applied config offset entry value = some st')
    (hfits : ∀ v, value = some (.update v) → entry.isSome) :
    st'.lastSnapshotOffset = offset ∨
      ∃ st, entry = some st ∧ st'.lastSnapshotOffset = st.lastSnapshotOffset := by
  cases value with
  | none => exact absurd h (by simp [applied])
  | some record =>
    cases record with
    | snapshot v => cases entry <;> (obtain rfl := some.inj h; exact .inl rfl)
    | update v =>
      cases entry with
      | none => exact absurd (hfits v rfl) (by simp)
      | some st =>
        cases h
        exact .inr ⟨st, rfl, rfl⟩

theorem Journal.Sound.append (hj : j.Sound config)
    (hr : a.1.record config a.2 j.live = .ok (some r))
    (hkeeps : ∀ j', KeepsFence config j a j') :
    Journal.Sound config ⟨j.log ++ [r], j.live.replayRecord config j.log.length r⟩ where
  live := by
    rw [replay_concat, ← hj.live, Int.zero_add]
  fenced := by
    intro key st hst
    have hst : j.live.replayRecord config j.log.length r key = some st := hst
    rw [replayRecord_apply] at hst
    split at hst
    · rename_i hkey
      rw [hkey] at hst
      exact hj.applied_fenced hr hkeeps hst
    · exact hj.fenced key st hst
  snapshot := by
    intro key st hst
    have hst : j.live.replayRecord config j.log.length r key = some st := hst
    rw [replayRecord_apply] at hst
    have hlen : ((j.log ++ [r]).length : Int) = j.log.length + 1 := by simp
    rw [hlen]
    split at hst
    · rename_i hkey
      have hfits := Work.record_fits hr
      rw [hkey] at hst
      obtain heq | ⟨st₀, hst₀, heq⟩ := applied_lastSnapshotOffset hst hfits
      · omega
      · have := hj.snapshot _ _ hst₀
        omega
    · have := hj.snapshot key st hst
      omega

theorem Journal.Sound.tracks_append (hj : j.Sound config) {offset : Nat}
    (htracks : Tracks offset j.live (j.replayFrom config offset))
    (hr : a.1.record config a.2 j.live = .ok (some r)) (hkeeps : ∀ j', KeepsFence config j a j') :
    Tracks offset (j.live.replayRecord config j.log.length r)
      (Journal.replayFrom config ⟨j.log ++ [r], j.live.replayRecord config j.log.length r⟩
        offset) := by
  unfold Journal.replayFrom at htracks ⊢
  by_cases hle : offset ≤ j.log.length
  · -- The record belongs to both replays.
    have hlast : (offset : Int) + (j.log.drop offset).length = j.log.length := by
      rw [length_drop]
      omega
    rw [drop_append_of_le_length hle, replay_concat, hlast]
    exact htracks.step r (Work.record_fits hr) hj.fenced fun st' => hj.applied_fenced hr hkeeps
  · -- No snapshot is behind the offset yet, and the shorter replay is empty.
    have hdrop : (j.log ++ [r]).drop offset = [] := by
      apply drop_eq_nil_of_le
      rw [length_append, length_singleton]
      omega
    rw [hdrop]
    refine ⟨fun key _ => rfl, fun key st st' _ hst' => (nomatch hst'), fun key st hst hr' => ?_⟩
    have hbound := ((hj.append hr hkeeps).snapshot key st hst).2
    rw [length_append, length_singleton] at hbound
    omega

theorem tracks_of_reachable (offset : Nat)
    (h : ((journal config).restrict (KeepsFence config)).Reachable j) :
    j.Sound config ∧ Tracks offset j.live (j.replayFrom config offset) := by
  induction h with
  | init hinit =>
    obtain rfl := hinit
    have hnone : ∀ key st, empty key ≠ some st := fun key st => nofun
    refine ⟨⟨rfl, fun key st hst => absurd hst (hnone key st),
      fun key st hst => absurd hst (hnone key st)⟩, fun key _ => ?_,
      fun key st st' hst => absurd hst (hnone key st),
      fun key st hst => absurd hst (hnone key st)⟩
    simp [Journal.replayFrom, replay, empty]
  | @step j a j' _ hstep ih =>
    obtain ⟨rfl, hkeeps⟩ := hstep
    obtain heq | ⟨r, hr, heq⟩ := j.run_cases a
    · rwa [heq]
    · rw [heq]
      exact ⟨ih.1.append hr fun _ => hkeeps, ih.1.tracks_append ih.2 hr fun _ => hkeeps⟩

end

/-! ## Refusals -/

def refusal {α : Type} : Except Refused α → Option Refused
  | .error e => some e
  | .ok _ => none

section

variable {config : ShareCoordinatorConfig} {now : Int}

theorem refusal_check {α : Type} (image : MetadataImage) (key : StateKey)
    (f : Unit → Except Refused α) (hf : refusal (f ()) = none) :
    refusal (checkTopicPartition image key >>= f) = refusal (checkTopicPartition image key) := by
  unfold checkTopicPartition
  split
  · exact hf
  · rfl

theorem refusal_map {key : StateKey} (record : Except Refused (Option StateRecord)) :
    refusal (do let record ← record; return record.map fun r => (⟨key, some r⟩ : LogRecord)) =
      refusal record := by
  cases record <;> rfl

/-- Two entries of a key that differ only in the counts. -/
def SameEntry (entry' entry : Option SharePartitionState) : Prop :=
  entry'.map withoutCount = entry.map withoutCount

variable {entry' entry : Option SharePartitionState}

theorem SameEntry.cases (h : SameEntry entry' entry) :
    (entry' = none ∧ entry = none) ∨
      ∃ st' st, entry' = some st' ∧ entry = some st ∧ st'.withoutCount = st.withoutCount := by
  unfold SameEntry at h
  cases entry' <;> cases entry <;> simp_all

theorem initializeRecord_refusal
    (h : SameEntry entry' entry) (image : MetadataImage) (key : StateKey)
    (stateEpoch startOffset : Int) :
    refusal (initializeRecord config now entry' image key stateEpoch startOffset) =
      refusal (initializeRecord config now entry image key stateEpoch startOffset) := by
  obtain ⟨rfl, rfl⟩ | ⟨st', st, rfl, rfl, hsame⟩ := h.cases
  · rfl
  · simp only [initializeRecord, (fences_of_withoutCount hsame).2]
    split
    · rfl
    split
    · rfl
    split
    · rfl
    rw [refusal_check, refusal_check] <;> (split <;> rfl)

theorem writeRecord_refusal
    (h : SameEntry entry' entry) (image : MetadataImage) (key : StateKey) (request : ShareWrite) :
    refusal (writeRecord config now entry' image key request) =
      refusal (writeRecord config now entry image key request) := by
  obtain ⟨rfl, rfl⟩ | ⟨st', st, rfl, rfl, hsame⟩ := h.cases
  · rfl
  · obtain ⟨hleader, hstate⟩ := fences_of_withoutCount hsame
    simp only [writeRecord, hleader, hstate]
    split
    · rfl
    split
    · rfl
    split
    · rfl
    split
    · rfl
    split
    · rfl
    rw [refusal_check, refusal_check] <;> rfl

theorem readRecord_refusal
    (h : SameEntry entry' entry) (image : MetadataImage) (key : StateKey) (leaderEpoch : Int) :
    refusal (readRecord config now entry' image key leaderEpoch) =
      refusal (readRecord config now entry image key leaderEpoch) := by
  obtain ⟨rfl, rfl⟩ | ⟨st', st, rfl, rfl, hsame⟩ := h.cases
  · rfl
  · simp only [readRecord, (fences_of_withoutCount hsame).1]
    split
    · rfl
    split
    · rfl
    split
    · rfl
    rw [refusal_check, refusal_check] <;> (split <;> rfl)

/-- A step is refused by the fences of its key and by what the key does not
have, so two maps that differ only in the counts refuse the same steps. -/
theorem refusal_congr {live live' : StateMap} (h : ∀ key, SameEntry (live' key) (live key))
    (work : Work) :
    refusal (work.record config now live') = refusal (work.record config now live) := by
  cases work with
  | initializeState image key stateEpoch startOffset =>
    exact (refusal_map _).trans
      ((initializeRecord_refusal (h key) image key _ _).trans (refusal_map _).symm)
  | write image key request =>
    exact (refusal_map _).trans
      ((writeRecord_refusal (h key) image key _).trans (refusal_map _).symm)
  | read image key leaderEpoch =>
    exact (refusal_map _).trans
      ((readRecord_refusal (h key) image key _).trans (refusal_map _).symm)
  | delete image key =>
    simp only [Work.record]
    split
    · rfl
    · rw [refusal_check, refusal_check] <;> rfl
  | cleanup key => rfl
  | coldSnapshot key =>
    obtain ⟨h', h⟩ | ⟨st', st, h', h, -⟩ := (h key).cases
    · simp only [Work.record, h, h']
    · simp only [Work.record, h, h']
      split <;> split <;> rfl

end

/-! ## Pruning -/

/-- **Pruning is invisible** where no initialize takes a fence away: the replay
from the redundant offset on gives every key the state that the whole log gives
it, and refuses the same requests. -/
theorem prune_is_invisible {config : ShareCoordinatorConfig} {j : Journal}
    (h : ((journal config).restrict (KeepsFence config)).Reachable j) {keys : List StateKey}
    (hkeys : ∀ key, key ∈ keys ↔ (j.live key).isSome) {r : Int}
    (hr : redundantOffset (keys.filterMap fun key =>
      (j.live key).map lastSnapshotOffset) = some r) :
    let whole := replay config 0 j.log .empty
    let pruned := j.replayFrom config r.toNat
    whole = j.live ∧
      (∀ key, (pruned key).map withoutCount =
        (whole key).map withoutCount) ∧
      ∀ (work : Work) (now : Int),
        refusal (work.record config now pruned) = refusal (work.record config now whole) := by
  obtain ⟨hsound, htracks⟩ := tracks_of_reachable r.toNat h
  have hsame : ∀ key, SameEntry (j.replayFrom config r.toNat key) (j.live key) := by
    intro key
    cases hlive : j.live key with
    | none =>
      rw [htracks.none key hlive]
      rfl
    | some st =>
      have hle : r ≤ st.lastSnapshotOffset := by
        refine redundantOffset_le hr _ (mem_filterMap.mpr ⟨key, (hkeys key).mpr ?_, ?_⟩)
        · rw [hlive]
          rfl
        · rw [hlive]
          rfl
      have hnonneg := (hsound.snapshot key st hlive).1
      obtain ⟨st', hst', heq⟩ := htracks.same key st hlive (by omega)
      rw [hst']
      exact congrArg some heq
  intro whole pruned
  have hwhole : whole = j.live := hsound.live.symm
  rw [hwhole]
  exact ⟨rfl, hsame, fun work now => refusal_congr hsame work⟩

def trimmedKey : StateKey := ⟨"g", 0, 0⟩

def readBy (leaderEpoch : Int) : Work := .read (fun _ _ => true) trimmedKey leaderEpoch

def writeBy (leaderEpoch : Int) : Work :=
  .write (fun _ _ => true) trimmedKey ⟨1, leaderEpoch, 5, 0, []⟩

def initializeAt (stateEpoch : Int) : Work :=
  .initializeState (fun _ _ => true) trimmedKey stateEpoch 0

def journalOf (works : List Work) : Journal :=
  (works.map fun work => (work, (0 : Int))).foldl (Journal.run ⟨1, 300000, false⟩) ⟨[], .empty⟩

/-- A key, its share leader of epoch 5 and a write of it, which is a snapshot. -/
def folded : Journal := journalOf [initializeAt 1, readBy 5, writeBy 5]

theorem mem_trimmedKey {live : StateMap} (hsome : (live trimmedKey).isSome)
    (hnone : ∀ key, key ≠ trimmedKey → live key = none) (key : StateKey) :
    key ∈ [trimmedKey] ↔ (live key).isSome := by
  rw [mem_singleton]
  by_cases hkey : key = trimmedKey
  · rw [hkey]
    exact ⟨fun _ => hsome, fun _ => rfl⟩
  · simp [hkey, hnone key hkey]

theorem folded_keys (key : StateKey) : key ∈ [trimmedKey] ↔ (folded.live key).isSome := by
  refine mem_trimmedKey rfl (fun key hkey => ?_) key
  show (if key = trimmedKey then _ else if key = trimmedKey then _ else
    if key = trimmedKey then _ else none) = none
  rw [if_neg hkey, if_neg hkey, if_neg hkey]

theorem folded_reachable :
    ((journal ⟨1, 300000, false⟩).restrict (KeepsFence ⟨1, 300000, false⟩)).Reachable folded := by
  have hfirst : ∀ j, KeepsFence ⟨1, 300000, false⟩ ⟨[], .empty⟩ (initializeAt 1, 0) j :=
    fun j image key stateEpoch startOffset st _ hst => nomatch hst
  have hread : ∀ j j', KeepsFence ⟨1, 300000, false⟩ j (readBy 5, 0) j' :=
    fun j j' image key stateEpoch startOffset st hwork => nomatch hwork
  have hwrite : ∀ j j', KeepsFence ⟨1, 300000, false⟩ j (writeBy 5, 0) j' :=
    fun j j' image key stateEpoch startOffset st hwork => nomatch hwork
  exact .step (a := (writeBy 5, 0)) (.step (a := (readBy 5, 0))
    (.step (a := (initializeAt 1, 0)) (.init rfl) ⟨rfl, hfirst _⟩) ⟨rfl, hread _ _⟩)
    ⟨rfl, hwrite _ _⟩

/-- The snapshot of the write makes the two records before it redundant. -/
theorem prune_is_invisible_folded :
    folded.log.length = 3 ∧
      (folded.replayFrom ⟨1, 300000, false⟩ 2 trimmedKey).map fenceLeaderEpoch =
        some 5 ∧
      ∀ key, (folded.replayFrom ⟨1, 300000, false⟩ 2 key).map withoutCount =
        (replay ⟨1, 300000, false⟩ 0 folded.log .empty key).map
          withoutCount :=
  ⟨rfl, rfl, (prune_is_invisible folded_reachable folded_keys (r := 2) rfl).2.1⟩

/-- **The fence that a prune takes away.**  The second initialize writes a
snapshot of leader epoch 0 while the key stays fenced by 5; the records before
the snapshot are redundant, and the replay without them takes a write of the
leader of epoch 3, which the replay of the whole log refuses. -/
theorem initialize_loses_fence :
    ∃ j, (journal ⟨1, 300000, false⟩).Reachable j ∧
      (∀ key, key ∈ [trimmedKey] ↔ (j.live key).isSome) ∧
      redundantOffset ([trimmedKey].filterMap fun key =>
        (j.live key).map lastSnapshotOffset) = some 2 ∧
      refusal ((writeBy 3).record ⟨1, 300000, false⟩ 0
        (.replay ⟨1, 300000, false⟩ 0 j.log .empty)) = some fencedLeaderEpoch ∧
      refusal ((writeBy 3).record ⟨1, 300000, false⟩ 0 (j.replayFrom ⟨1, 300000, false⟩ 2)) =
        none := by
  refine ⟨journalOf [initializeAt 1, readBy 5, initializeAt 1],
    .step (a := (initializeAt 1, 0)) (.step (a := (readBy 5, 0))
      (.step (a := (initializeAt 1, 0)) (.init rfl) rfl) rfl) rfl, ?_, rfl, rfl, rfl⟩
  refine mem_trimmedKey rfl fun key hkey => ?_
  show (if key = trimmedKey then _ else if key = trimmedKey then _ else
    if key = trimmedKey then _ else none) = none
  rw [if_neg hkey, if_neg hkey, if_neg hkey]

end Krabka.ShareCoordinator

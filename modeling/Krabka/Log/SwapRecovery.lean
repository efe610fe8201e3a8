import Krabka.Log.SwapPhases

/-!
# Recovery of an interrupted swap

What `recover_swaps` does is decided by the names it lists (`exists_planned`): it
removes an uncommitted swap, completes a committed one, or promotes the sidecars
of a promoted one.  Each of the three may be interrupted anywhere, provided that
no power loss can undo the commit it acts on (`follows_planned`), and leaves no
swap file behind when it completes (`runAll_planned`).
-/

namespace Krabka.Log

open Durable FileOp List Option

namespace SwapGroup

variable {β : Type} {g : SwapGroup β} {before e e' : Entries FileName (Contents β)}

/-! ## The recoveries -/

/-- What holds where recovery takes an operation: the operation succeeds, it
leaves the segments alone that the survivor does not replace, and the survivor is
promoted only when it is committed and the segments it replaces are gone. -/
structure RecoveryGuard (g : SwapGroup β) (op : FileOp) (e : Entries FileName (Contents β)) :
    Prop where
  runs : ((op.sem).run e).isSome
  spares : ∀ c ∈ g.consumed, ¬ g.Replaces c → ∀ e', (op.sem).run e = some e' →
    e' (finalPath c .log) = e (finalPath c .log)
  promotes : op = .rename (swapPath g.base .log) (finalPath g.base .log) →
    e (swapPath g.base .log) = some (.log g.survivor) ∧ g.Cleared e

theorem recoveryGuard_syncDir (e : Entries FileName (Contents β)) : RecoveryGuard g .syncDir e :=
  ⟨rfl, fun _ _ _ _ h => some.inj h ▸ rfl, nofun⟩

theorem recoveryGuard_unlink {name : FileName} (h : ∀ c, name = finalPath c .log → g.Replaces c)
    (e : Entries FileName (Contents β)) : RecoveryGuard g (.unlink name) e := by
  refine ⟨rfl, fun c _ hnot e' hrun => ?_, nofun⟩
  cases hrun
  refine Effect.apply_of_ne (fun a ha heq => hnot (h c ?_)) e
  rw [mem_singleton.mp ha] at heq
  exact heq

theorem recoveryGuard_promoteSidecar {ext : Ext} (hext : ext ∈ swapSidecars)
    (e : Entries FileName (Contents β)) : RecoveryGuard g (.promoteSidecar g.base ext) e := by
  have hne : ext ≠ .log := by rintro rfl; simp [swapSidecars] at hext
  refine ⟨?_, fun c _ _ e' hrun => ?_, fun h => by cases h⟩
  · simp only [sem, Action.run, isSome_map]
    split
    · rfl
    · split <;> rfl
  · obtain ⟨eff, heff, rfl⟩ := map_eq_some_iff.mp hrun
    refine Effect.apply_of_ne (fun a ha heq => ?_) e
    dsimp only at heff
    split at heff
    · cases heff
      simp only [mem_cons, not_mem_nil, or_false] at ha
      rcases ha with rfl | rfl <;> simp_all [finalPath, swapPath]
    · split at heff <;> cases heff
      · simp_all [finalPath]
      · cases ha

theorem recoveryGuard_rename {e : Entries FileName (Contents β)}
    (h : g.Committed before e ∧ g.Cleared e) :
    RecoveryGuard g (.rename (swapPath g.base .log) (finalPath g.base .log)) e := by
  refine ⟨?_, fun c _ hnot e' hrun => ?_, fun _ => ⟨h.1.survivor, h.2⟩⟩
  · simp [sem, Action.run, h.1.survivor]
  · obtain ⟨eff, heff, rfl⟩ := map_eq_some_iff.mp hrun
    obtain ⟨file, -, rfl⟩ := map_eq_some_iff.mp heff
    have hne : c ≠ g.base := by
      rintro rfl
      exact hnot (by simp [Replaces, localRecoverySwapReplaces])
    simp [finalPath, swapPath, hne]

def Outcome (g : SwapGroup β) (before e : Entries FileName (Contents β)) : Prop :=
  g.Uncommitted before e ∨ g.Promoted before e

theorem guard_sidecars (e : Entries FileName (Contents β)) :
    RecoveryGuard g .syncDir e ∧
      ∀ ext ∈ swapSidecars, RecoveryGuard g (.promoteSidecar g.base ext) e :=
  ⟨recoveryGuard_syncDir e, fun _ hext => recoveryGuard_promoteSidecar hext e⟩

theorem guard_cleaned (e : Entries FileName (Contents β)) :
    RecoveryGuard g .syncDir e ∧ ∀ b ext, RecoveryGuard g (.unlink (cleanedPath b ext)) e :=
  ⟨recoveryGuard_syncDir e, fun b ext => recoveryGuard_unlink (fun _ h => by
    simp [cleanedPath, finalPath] at h) e⟩

theorem follows_uncommitted (g : SwapGroup β) (before : Entries FileName (Contents β))
    (cleaned : List (Int × Ext)) :
    Follows sem (Recoverable g before) (RecoveryGuard g) (Outcome g before)
      (removeCleaned cleaned) ⟨g.Uncommitted before, g.Uncommitted before⟩ :=
  steady_uncommitted.follows_removeCleaned guard_cleaned (recoverable_uncommitted g before _)
    (fun _ => .inl) cleaned

theorem follows_abort (cleaned : List (Int × Ext)) :
    Follows sem (Recoverable g before) (RecoveryGuard g) (Outcome g before)
      (swapExtensions.map (fun ext => .unlink (swapPath g.base ext)) ++ removeCleaned cleaned)
      ⟨g.Uncommitted before, g.Uncommitted before⟩ := by
  refine Follows.append_of_stable (fun op hop => ?_) (fun op hop e _ => ?_)
    (follows_uncommitted g before cleaned) <;> obtain ⟨ext, -, rfl⟩ := mem_map.mp hop
  · intro e _ hlive eff heff
    cases heff
    exact ⟨hlive.unlink_swap ext, fun i hi => ⟨hi, hi.unlink_swap ext⟩⟩
  · exact recoveryGuard_unlink (fun c h => by simp [swapPath, finalPath] at h) e

theorem follows_promoted (g : SwapGroup β) (before : Entries FileName (Contents β))
    (cleaned : List (Int × Ext)) :
    Follows sem (Recoverable g before) (RecoveryGuard g) (Outcome g before)
      (removeCleaned cleaned)
      ⟨fun e => g.Committed before e ∨ g.Promoted before e, g.Promoted before⟩ :=
  steady_promoted.follows_removeCleaned guard_cleaned recoverable_promoted (fun _ => .inr) cleaned

/-- The segments that completing the swap deletes. -/
def replacedSegments (g : SwapGroup β) (logBases : List Int) : List Int :=
  (logBases ++ [g.base]).filter (localRecoverySwapReplaces g.base g.next)

theorem mem_replacedSegments {logBases : List Int} {c : Int} :
    c ∈ replacedSegments g logBases ↔ (c ∈ logBases ∨ c = g.base) ∧ g.Replaces c := by
  simp [replacedSegments, Replaces, or_and_right]

theorem follows_complete {logBases : List Int}
    (hmem : ∀ b ∈ logBases, g.Replaces b → b ∈ g.consumed) (cleaned : List (Int × Ext)) :
    Follows sem (Recoverable g before) (RecoveryGuard g) (Outcome g before)
      ((replacedSegments g logBases).flatMap removeReplacedSegment ++ [.syncDir] ++
        promoteLog g.base ++ promoteSidecars g.base ++ removeCleaned cleaned)
      ⟨g.Committed before, fun e => g.Committed before e ∧
        ∀ n ∈ (g.consumed.filter (· ∉ logBases)).map (finalPath · .log), e n = none⟩ := by
  have hnames : (replacedSegments g logBases).flatMap removeReplacedSegment =
      ((replacedSegments g logBases).flatMap fun c => replacedExtensions.map (finalPath c)).map
        unlink := by
    have hsegment : removeReplacedSegment =
        fun c => (replacedExtensions.map (finalPath c)).map unlink := by
      funext c
      simp [removeReplacedSegment]
    rw [map_flatMap, hsegment]
  have hconsumed : ∀ c ∈ replacedSegments g logBases, c ∈ g.consumed ∧ g.Replaces c := by
    intro c hc
    obtain ⟨hc, hrep⟩ := mem_replacedSegments.mp hc
    rcases hc with hc | rfl
    · exact ⟨hmem c hc hrep, hrep⟩
    · exact ⟨g.base_mem, hrep⟩
  simp only [append_assoc]
  rw [hnames]
  refine follows_unlinks (fun L => recoverable_committed _ _ fun _ h => h) _ (fun n hn => ?_)
    (fun n hn e => ?_) ?_
  · obtain ⟨c, hc, hn⟩ := mem_flatMap.mp hn
    obtain ⟨ext, -, rfl⟩ := mem_map.mp hn
    exact ⟨c, (hconsumed c hc).1, ext, rfl⟩
  · obtain ⟨c, hc, hn⟩ := mem_flatMap.mp hn
    obtain ⟨ext, -, rfl⟩ := mem_map.mp hn
    refine recoveryGuard_unlink (fun b hb => ?_) e
    have hbc : c = b := congrArg FileName.base hb
    exact hbc ▸ (hconsumed c hc).2
  · have hpromote := follows_promote (recoverable_committed _ _ fun _ h => h.1)
      recoverable_promoted (fun e h => recoveryGuard_rename h) guard_sidecars
      (follows_promoted g before cleaned)
    rw [append_assoc] at hpromote
    refine ⟨recoverable_committed _ _ fun _ h => h, fun e _ => recoveryGuard_syncDir e, _, ?_,
      hpromote⟩
    intro e _ hlive
    have hcleared : g.Cleared e := by
      intro c hc hrep
      refine hlive.2 _ (mem_append.mpr ?_)
      by_cases hlisted : c ∈ logBases
      · refine .inr (mem_flatMap.mpr ⟨c, mem_replacedSegments.mpr ⟨.inl hlisted, hrep⟩, ?_⟩)
        simp [replacedExtensions]
      · refine .inl (mem_map.mpr ⟨c, ?_, rfl⟩)
        simpa using ⟨hc, hlisted⟩
    exact ⟨⟨hlive.1, hcleared⟩, hlive.1, hcleared⟩

/-! ## What recovery plans -/

section

variable {l : Listing}

theorem swapBases_cases (hs : l.Scans e) (h : g.Around before e) :
    (l.swapBases = [] ∧ ∀ ext ∈ swapExtensions, e (swapPath g.base ext) = none) ∨
      l.swapBases = [g.base] := by
  have honly : ∀ b ∈ l.swapBases, b = g.base := by
    intro b hb
    obtain ⟨ext, -, hsome⟩ := (hs.swapBases b).mp hb
    by_contra hne
    rw [h.noOtherSwap b ext hne] at hsome
    exact nomatch hsome
  have hasc := hs.ascending
  cases hbases : l.swapBases with
  | nil =>
    refine .inl ⟨rfl, fun ext hext => ?_⟩
    by_contra hsome
    have hb := (hs.swapBases g.base).mpr ⟨ext, hext, isSome_iff_ne_none.mpr hsome⟩
    rw [hbases] at hb
    exact nomatch hb
  | cons b bs =>
    rw [hbases] at hasc honly
    obtain rfl := honly b mem_cons_self
    cases bs with
    | nil => exact .inr rfl
    | cons c cs =>
      have hlt := (pairwise_cons.mp hasc).1 c mem_cons_self
      have hc := honly c (mem_cons_of_mem _ mem_cons_self)
      omega

/-- The operations of a recovery, by what it finds. -/
inductive Planned (g : SwapGroup β) (before : Entries FileName (Contents β)) (l : Listing)
    (e : Entries FileName (Contents β)) : List FileOp → Prop
  | nothing (hnone : ∀ ext ∈ swapExtensions, e (swapPath g.base ext) = none) :
      Planned g before l e []
  | abort (h : g.Uncommitted before e) (hcleaned : (e (cleanedPath g.base .log)).isSome) :
    Planned g before l e (swapExtensions.map fun ext => .unlink (swapPath g.base ext))
  | sidecars (hnone : e (swapPath g.base .log) = none) :
    Planned g before l e (promoteSidecars g.base)
  | complete (h : g.Committed before e) :
    Planned g before l e ((replacedSegments g l.logBases).flatMap removeReplacedSegment ++
      [.syncDir] ++ promoteLog g.base ++ promoteSidecars g.base)

theorem exists_planned (hs : l.Scans e)
    (h : g.Uncommitted before e ∨ g.Committed before e ∨ g.Promoted before e) :
    ∃ ops, recoverSwaps l e = (ops ++ removeCleaned l.cleaned, none) ∧
      Planned g before l e ops := by
  have haround : g.Around before e := by
    rcases h with h | h | h <;> exact h.toAround
  rcases swapBases_cases hs haround with ⟨hbases, hnone⟩ | hbases
  · exact ⟨[], by simp [recoverSwaps, hbases, recoverSwapsFrom], .nothing hnone⟩
  have hrecover : ∀ ops, recoverSwap l e g.base = .ok ops →
      recoverSwaps l e = (ops ++ removeCleaned l.cleaned, none) := by
    intro ops hops
    simp [recoverSwaps, hbases, recoverSwapsFrom, hops]
  rcases h with h | h | h
  · by_cases hcleaned : (g.base, Ext.log) ∈ l.cleaned
    · exact ⟨_, hrecover _ (by simp [recoverSwap, localRecoverySwapAction, hcleaned]),
        .abort h ((hs.cleaned _ _).mp hcleaned).2⟩
    · have hswap : g.base ∉ l.logSwapBases := by
        rw [hs.logSwapBases, h.noLogSwap]
        simp
      have hfinal : g.base ∈ l.logBases := by
        rw [hs.logBases, h.intact g.base g.base_mem]
        rfl
      exact ⟨_, hrecover _
        (by simp [recoverSwap, localRecoverySwapAction, hcleaned, hswap, hfinal]),
        .sidecars h.noLogSwap⟩
  · have hcleaned : (g.base, Ext.log) ∉ l.cleaned := by
      rw [hs.cleaned, h.noLogCleaned]
      simp
    have hswap : g.base ∈ l.logSwapBases := by
      rw [hs.logSwapBases, h.survivor]
      rfl
    refine ⟨_, hrecover _ ?_, .complete h⟩
    simp [recoverSwap, localRecoverySwapAction, hcleaned, hswap, h.survivor, g.next_eq,
      replacedSegments]
  · have hcleaned : (g.base, Ext.log) ∉ l.cleaned := by
      rw [hs.cleaned, h.noLogCleaned]
      simp
    have hswap : g.base ∉ l.logSwapBases := by
      rw [hs.logSwapBases, h.noLogSwap]
      simp
    have hfinal : g.base ∈ l.logBases := by
      rw [hs.logBases, h.survivor]
      rfl
    exact ⟨_, hrecover _ (by simp [recoverSwap, localRecoverySwapAction, hcleaned, hswap, hfinal]),
      .sidecars h.noLogSwap⟩

theorem follows_planned (hbefore : g.Before before) {d : Directory FileName (Contents β)}
    {A : Assertion FileName (Contents β)} (hA : Recoverable g before A) (hmeets : d.Meets A)
    (hdurable : g.CommitDurable d) (hs : l.Scans d.live) {ops : List FileOp}
    (hplan : Planned g before l d.live ops) :
    ∃ B, d.Meets B ∧ Follows sem (Recoverable g before) (RecoveryGuard g)
      (Outcome g before) (ops ++ removeCleaned l.cleaned) B := by
  have himage := hmeets.1 _ d.image_live
  rcases hA with hA | ⟨hA, hlive⟩ | ⟨hA, hlive⟩
  · have hmeetsB : d.Meets ⟨g.Uncommitted before, g.Uncommitted before⟩ :=
      ⟨fun e he => hA e (hmeets.1 e he), hA _ himage⟩
    refine ⟨_, hmeetsB, ?_⟩
    cases hplan with
    | nothing => exact follows_uncommitted g before l.cleaned
    | abort => exact follows_abort l.cleaned
    | sidecars =>
      exact steady_uncommitted.follows_promoteSidecars guard_sidecars
        (follows_uncommitted g before l.cleaned)
    | complete h => exact absurd (h.survivor.symm.trans (hA _ himage).noLogSwap) (by simp)
  · have hcommitted := hlive _ hmeets.2
    have hall : ∀ e, d.Image e → g.Committed before e := by
      intro e he
      have hsome := hdurable (by rw [hcommitted.survivor]; rfl) e he
      refine (hA e (hmeets.1 e he)).resolve_left fun h => ?_
      rw [h.noLogSwap] at hsome
      exact nomatch hsome
    cases hplan with
    | nothing hnone =>
      exact absurd (hcommitted.survivor.symm.trans
        (hnone .log (by simp [swapExtensions]))) (by simp)
    | abort h => exact absurd (hcommitted.survivor.symm.trans h.noLogSwap) (by simp)
    | sidecars hnone => exact absurd (hcommitted.survivor.symm.trans hnone) (by simp)
    | complete =>
      have hmem : ∀ b ∈ l.logBases, g.Replaces b → b ∈ g.consumed := by
        intro b hb hrep
        by_contra hnot
        have hsome := (hs.logBases b).mp hb
        rw [hcommitted.others b hnot] at hsome
        exact hbefore.others b hnot hsome hrep
      have hgone : ∀ n ∈ (g.consumed.filter (· ∉ l.logBases)).map (finalPath · .log),
          d.live n = none := by
        intro n hn
        obtain ⟨c, hc, rfl⟩ := mem_map.mp hn
        have hnot : c ∉ l.logBases := by simpa using (mem_filter.mp hc).2
        rw [hs.logBases] at hnot
        simpa using hnot
      exact ⟨⟨g.Committed before, fun e => g.Committed before e ∧ ∀ n ∈ _, e n = none⟩,
        ⟨hall, hcommitted, hgone⟩, follows_complete hmem l.cleaned⟩
  · have hpromoted := hlive _ hmeets.2
    have hmeetsB : d.Meets
        ⟨fun e => g.Committed before e ∨ g.Promoted before e, g.Promoted before⟩ :=
      ⟨fun e he => hA e (hmeets.1 e he), hpromoted⟩
    refine ⟨_, hmeetsB, ?_⟩
    cases hplan with
    | nothing => exact follows_promoted g before l.cleaned
    | abort h hcleaned =>
      rw [hpromoted.noLogCleaned] at hcleaned
      exact nomatch hcleaned
    | sidecars =>
      exact steady_promoted.follows_promoteSidecars guard_sidecars
        (follows_promoted g before l.cleaned)
    | complete h => exact absurd (h.survivor.symm.trans hpromoted.noLogSwap) (by simp)

end

/-! ## No swap file is left -/

/-- The operation brings back no file that is not under its final name. -/
def Settles (β : Type) (op : FileOp) : Prop :=
  ∀ (n : FileName) (e e' : Entries FileName (Contents β)), n.suffix ≠ .final →
    (op.sem).run e = some e' → e n = none → e' n = none

/-- The operation leaves nothing under the name. -/
def Clears (β : Type) (n : FileName) (op : FileOp) : Prop :=
  ∀ e e' : Entries FileName (Contents β), (op.sem).run e = some e' → e' n = none

theorem clears_unlink (n : FileName) : Clears β n (.unlink n) := by
  intro e e' hrun
  cases hrun
  simp

theorem clears_promoteSidecar (base : Int) (ext : Ext) :
    Clears β (swapPath base ext) (.promoteSidecar base ext) := by
  intro e e' hrun
  obtain ⟨eff, heff, rfl⟩ := map_eq_some_iff.mp hrun
  dsimp only at heff
  split at heff
  · cases heff
    simp [swapPath, finalPath]
  · split at heff <;> cases heff <;> simp_all [swapPath, finalPath]

theorem clears_promoteLog (base : Int) :
    Clears β (swapPath base .log) (.rename (swapPath base .log) (finalPath base .log)) := by
  intro e e' hrun
  obtain ⟨eff, heff, rfl⟩ := map_eq_some_iff.mp hrun
  obtain ⟨file, -, rfl⟩ := map_eq_some_iff.mp heff
  simp [swapPath, finalPath]

theorem settles_syncDir : Settles β .syncDir := fun _ _ _ _ hrun h => some.inj hrun ▸ h

theorem settles_unlink (n : FileName) : Settles β (.unlink n) := by
  intro m e e' _ hrun h
  cases hrun
  simp [Function.update_apply, h]

theorem settles_promoteSidecar (base : Int) (ext : Ext) : Settles β (.promoteSidecar base ext) := by
  intro n e e' hn hrun h
  obtain ⟨eff, heff, rfl⟩ := map_eq_some_iff.mp hrun
  have hne : n ≠ finalPath base ext := by
    rintro rfl
    exact hn rfl
  dsimp only at heff
  split at heff
  · cases heff
    simp [Function.update_apply, hne, h]
  · split at heff <;> cases heff <;> simp [hne, h]

theorem settles_promoteLog (base : Int) :
    Settles β (.rename (swapPath base .log) (finalPath base .log)) := by
  intro n e e' hn hrun h
  obtain ⟨eff, heff, rfl⟩ := map_eq_some_iff.mp hrun
  obtain ⟨file, -, rfl⟩ := map_eq_some_iff.mp heff
  have hne : n ≠ finalPath base .log := by
    rintro rfl
    exact hn rfl
  simp [Function.update_apply, hne, h]

theorem settles_promoteSidecars (base : Int) : ∀ op ∈ promoteSidecars base, Settles β op := by
  intro op hop
  rcases mem_append.mp hop with hop | hop
  · obtain ⟨ext, -, rfl⟩ := mem_map.mp hop
    exact settles_promoteSidecar base ext
  · exact mem_singleton.mp hop ▸ settles_syncDir

theorem settles_removeCleaned (cleaned : List (Int × Ext)) :
    ∀ op ∈ removeCleaned cleaned, Settles β op := by
  intro op hop
  unfold removeCleaned at hop
  split at hop
  · exact nomatch hop
  · rcases mem_cons.mp hop with rfl | hop
    · exact settles_syncDir
    · obtain ⟨file, -, rfl⟩ := mem_map.mp hop
      exact settles_unlink _

section

variable {l : Listing} {ops : List FileOp}

theorem Planned.settles (h : Planned g before l e ops) : ∀ op ∈ ops, Settles β op := by
  intro op hop
  cases h with
  | nothing => exact nomatch hop
  | abort =>
    obtain ⟨ext, -, rfl⟩ := mem_map.mp hop
    exact settles_unlink _
  | sidecars => exact settles_promoteSidecars g.base op hop
  | complete =>
    simp only [append_assoc, mem_append, promoteLog, mem_cons, not_mem_nil,
      or_false] at hop
    rcases hop with hop | rfl | (rfl | rfl) | hop
    · obtain ⟨c, -, hop⟩ := mem_flatMap.mp hop
      obtain ⟨ext, -, rfl⟩ := mem_map.mp hop
      exact settles_unlink _
    · exact settles_syncDir
    · exact settles_promoteLog g.base
    · exact settles_syncDir
    · exact settles_promoteSidecars g.base op hop

variable {ext : Ext}

theorem Planned.clears (h : Planned g before l e ops) (hext : ext ∈ swapExtensions) :
    e (swapPath g.base ext) = none ∨ ∃ op ∈ ops, Clears β (swapPath g.base ext) op := by
  have hsidecar : ext ≠ .log → promoteSidecar g.base ext ∈ promoteSidecars g.base := by
    intro hne
    refine mem_append_left _ (mem_map.mpr ⟨ext, ?_, rfl⟩)
    exact (mem_cons.mp hext).resolve_left hne
  cases h with
  | nothing hnone => exact .inl (hnone ext hext)
  | abort =>
    exact .inr ⟨_, mem_map.mpr ⟨ext, hext, rfl⟩, clears_unlink _⟩
  | sidecars hnone =>
    by_cases hlog : ext = .log
    · exact .inl (hlog ▸ hnone)
    · exact .inr ⟨_, hsidecar hlog, clears_promoteSidecar _ _⟩
  | complete =>
    right
    by_cases hlog : ext = .log
    · subst hlog
      exact ⟨_, by simp [promoteLog], clears_promoteLog g.base⟩
    · exact ⟨_, mem_append_right _ (hsidecar hlog), clears_promoteSidecar _ _⟩

theorem removeCleaned_clears (hs : l.Scans e) (b : Int) (hext : ext ∈ swapExtensions) :
    e (cleanedPath b ext) = none ∨
      ∃ op ∈ removeCleaned l.cleaned, Clears β (cleanedPath b ext) op := by
  cases hfile : e (cleanedPath b ext) with
  | none => exact .inl rfl
  | some file =>
    have hmem : (b, ext) ∈ l.cleaned := (hs.cleaned b ext).mpr ⟨hext, by rw [hfile]; rfl⟩
    refine .inr ⟨.unlink (cleanedPath b ext), ?_, clears_unlink _⟩
    have hne : l.cleaned.isEmpty = false := by
      simpa using ne_nil_of_mem hmem
    simp only [removeCleaned, hne, Bool.false_eq_true, if_false]
    exact mem_cons_of_mem _ (mem_map.mpr ⟨(b, ext), hmem, rfl⟩)

theorem runAll_planned (hs : l.Scans e) (haround : g.Around before e)
    (hplan : Planned g before l e ops)
    (hrun : runAll sem (ops ++ removeCleaned l.cleaned) e = some e') (b : Int)
    (hext : ext ∈ swapExtensions) : e' (swapPath b ext) = none ∧ e' (cleanedPath b ext) = none := by
  have hsettles : ∀ n : FileName, n.suffix ≠ .final → ∀ op ∈ ops ++ removeCleaned l.cleaned,
      ∀ e e' : Entries FileName (Contents β),
        (op.sem).run e = some e' → e n = none → e' n = none := by
    intro n hn op hop e e'
    rcases mem_append.mp hop with hop | hop
    · exact hplan.settles op hop n e e' hn
    · exact settles_removeCleaned l.cleaned op hop n e e' hn
  constructor
  · refine runAll_of_keeps (hsettles _ (by simp [swapPath])) hrun ?_
    by_cases hb : b = g.base
    · subst hb
      refine (hplan.clears hext).imp_right ?_
      rintro ⟨op, hop, hclears⟩
      exact ⟨op, mem_append_left _ hop, hclears⟩
    · exact .inl (haround.noOtherSwap b ext hb)
  · refine runAll_of_keeps (hsettles _ (by simp [cleanedPath])) hrun ?_
    refine (removeCleaned_clears hs b hext).imp_right ?_
    rintro ⟨op, hop, hclears⟩
    exact ⟨op, mem_append_right _ hop, hclears⟩

end

end SwapGroup

end Krabka.Log

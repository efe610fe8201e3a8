import Krabka.Log.Swap

/-!
# What a compaction swap may leave behind

What a crash can leave is one of three things.  In an `Uncommitted` directory
every consumed segment is whole.  In a `Committed` one the survivor is the
`.log.swap`, and consumed segments may be gone.  In a `Promoted` one it carries
its final name, and every consumed segment it replaces is gone.

`Recoverable` says which mixtures of them the images of a directory may be, and
`follows_atomicSwap` that the swap stays within it.
-/

namespace Krabka.Log

open Durable Function FileOp List

namespace SwapGroup

variable {β : Type} (g : SwapGroup β)

/-- The other segments are as they were, and no other swap appeared. -/
structure Around (before e : Entries FileName (Contents β)) : Prop where
  others : ∀ b, b ∉ g.consumed → e (finalPath b .log) = before (finalPath b .log)
  noOtherSwap : ∀ b ext, b ≠ g.base → e (swapPath b ext) = none

structure Uncommitted (before e : Entries FileName (Contents β)) : Prop
    extends g.Around before e where
  intact : ∀ c ∈ g.consumed, e (finalPath c .log) = some (.log (g.logs c))
  noLogSwap : e (swapPath g.base .log) = none

structure Committed (before e : Entries FileName (Contents β)) : Prop
    extends g.Around before e where
  survivor : e (swapPath g.base .log) = some (.log g.survivor)
  noLogCleaned : e (cleanedPath g.base .log) = none
  kept : ∀ c ∈ g.consumed,
    e (finalPath c .log) = none ∨ e (finalPath c .log) = some (.log (g.logs c))

structure Promoted (before e : Entries FileName (Contents β)) : Prop extends g.Around before e where
  survivor : e (finalPath g.base .log) = some (.log g.survivor)
  noLogSwap : e (swapPath g.base .log) = none
  noLogCleaned : e (cleanedPath g.base .log) = none
  replaced : ∀ c ∈ g.consumed, c ≠ g.base → g.Replaces c → e (finalPath c .log) = none
  kept : ∀ c ∈ g.consumed, c ≠ g.base →
    e (finalPath c .log) = none ∨ e (finalPath c .log) = some (.log (g.logs c))

def Cleared (e : Entries FileName (Contents β)) : Prop :=
  ∀ c ∈ g.consumed, g.Replaces c → e (finalPath c .log) = none

variable {g} {before e e' : Entries FileName (Contents β)}

/-- The same segments and swap logs; a `.log.cleaned` may have gone. -/
structure SameLogs (g : SwapGroup β) (e e' : Entries FileName (Contents β)) : Prop where
  logs : ∀ b, e' (finalPath b .log) = e (finalPath b .log)
  logSwap : e' (swapPath g.base .log) = e (swapPath g.base .log)
  logCleaned : e (cleanedPath g.base .log) = none → e' (cleanedPath g.base .log) = none
  otherSwaps : ∀ b ext, b ≠ g.base → e' (swapPath b ext) = e (swapPath b ext)

theorem Around.congr (h : g.Around before e) (hs : SameLogs g e e') : g.Around before e' :=
  ⟨fun b hb => (hs.logs b).trans (h.others b hb),
    fun b ext hb => (hs.otherSwaps b ext hb).trans (h.noOtherSwap b ext hb)⟩

theorem Uncommitted.congr (h : g.Uncommitted before e) (hs : SameLogs g e e') :
    g.Uncommitted before e' :=
  ⟨h.toAround.congr hs, fun c hc => (hs.logs c).trans (h.intact c hc), hs.logSwap.trans h.noLogSwap⟩

theorem Committed.congr (h : g.Committed before e) (hs : SameLogs g e e') : g.Committed before e' :=
  ⟨h.toAround.congr hs, hs.logSwap.trans h.survivor, hs.logCleaned h.noLogCleaned,
    fun c hc => hs.logs c ▸ h.kept c hc⟩

theorem Promoted.congr (h : g.Promoted before e) (hs : SameLogs g e e') : g.Promoted before e' :=
  ⟨h.toAround.congr hs, (hs.logs g.base).trans h.survivor, hs.logSwap.trans h.noLogSwap,
    hs.logCleaned h.noLogCleaned,
    fun c hc hne hrep => (hs.logs c).trans (h.replaced c hc hne hrep),
    fun c hc hne => hs.logs c ▸ h.kept c hc hne⟩

/-! ## What single operations do -/

/-- An effect on sidecars of the group, or an unlinked `.cleaned` file. -/
def Quiet (g : SwapGroup β) (f : Effect FileName (Contents β)) : Prop :=
  ∀ a ∈ f, (a.1.ext ≠ .log ∧ (a.1.suffix = .swap → a.1.base = g.base)) ∨
    (a.1.suffix = .cleaned ∧ a.2 = none)

theorem Quiet.sameLogs {f : Effect FileName (Contents β)} (h : Quiet g f)
    (e : Entries FileName (Contents β)) : SameLogs g e (f.apply e) := by
  induction f generalizing e with
  | nil => exact ⟨fun _ => rfl, rfl, id, fun _ _ _ => rfl⟩
  | cons a f ih =>
    obtain ⟨⟨base, ext, suffix⟩, file⟩ := a
    have hrest := ih (fun b hb => h b (mem_cons_of_mem _ hb))
      (Function.update e ⟨base, ext, suffix⟩ file)
    have ha := h _ mem_cons_self
    have hfirst : SameLogs g e (Function.update e ⟨base, ext, suffix⟩ file) := by
      refine ⟨fun b => ?_, ?_, fun hnone => ?_, fun b x hb => ?_⟩ <;>
        rw [update_apply] <;> split <;>
        simp_all [finalPath, swapPath, cleanedPath]
    exact ⟨fun b => (hrest.logs b).trans (hfirst.logs b), hrest.logSwap.trans hfirst.logSwap,
      fun hnone => hrest.logCleaned (hfirst.logCleaned hnone),
      fun b x hb => (hrest.otherSwaps b x hb).trans (hfirst.otherSwaps b x hb)⟩

theorem Uncommitted.commit (h : g.Uncommitted before e) :
    g.Committed before (Effect.apply [(cleanedPath g.base .log, none),
      (swapPath g.base .log, some (.log g.survivor))] e) := by
  refine ⟨⟨fun b hb => ?_, fun b ext hb => ?_⟩, ?_, ?_, fun c hc => ?_⟩
  · simpa [update_apply, finalPath, cleanedPath, swapPath] using h.others b hb
  · have hold := h.noOtherSwap b ext hb
    simp_all [cleanedPath, swapPath]
  · simp
  · simp [cleanedPath, swapPath]
  · right
    simpa [update_apply, finalPath, cleanedPath, swapPath] using h.intact c hc

theorem Committed.promote (h : g.Committed before e) (hc : g.Cleared e) :
    g.Promoted before (Effect.apply [(swapPath g.base .log, none),
      (finalPath g.base .log, some (.log g.survivor))] e) := by
  refine ⟨⟨fun b hb => ?_, fun b ext hb => ?_⟩, ?_, ?_, ?_, fun c hmem hne hrep => ?_,
    fun c hmem hne => ?_⟩
  · have hne : b ≠ g.base := fun heq => hb (heq ▸ g.base_mem)
    simpa [update_apply, finalPath, swapPath, hne] using h.others b hb
  · have hold := h.noOtherSwap b ext hb
    simp_all [finalPath, swapPath]
  · simp
  · simp [finalPath, swapPath]
  · simpa [update_apply, finalPath, swapPath, cleanedPath] using h.noLogCleaned
  · simpa [update_apply, finalPath, swapPath, hne] using hc c hmem hrep
  · simpa [update_apply, finalPath, swapPath, hne] using h.kept c hmem

theorem Committed.unlink (h : g.Committed before e) {c : Int} (hc : c ∈ g.consumed) (ext : Ext) :
    g.Committed before (Effect.apply [(finalPath c ext, none)] e) := by
  refine ⟨⟨fun b hb => ?_, fun b x hb => ?_⟩, ?_, ?_, fun b hb => ?_⟩
  · have hne : b ≠ c := fun heq => hb (heq ▸ hc)
    simpa [update_apply, finalPath, hne] using h.others b hb
  · simpa [update_apply, finalPath, swapPath] using h.noOtherSwap b x hb
  · simpa [update_apply, finalPath, swapPath] using h.survivor
  · simpa [update_apply, finalPath, cleanedPath] using h.noLogCleaned
  · rcases h.kept b hb with hnone | hsome <;> by_cases heq : b = c ∧ Ext.log = ext <;>
      simp_all [finalPath]

theorem Uncommitted.unlink_swap (h : g.Uncommitted before e) (ext : Ext) :
    g.Uncommitted before (Effect.apply [(swapPath g.base ext, none)] e) := by
  refine ⟨⟨fun c hc => ?_, fun c x hc => ?_⟩, fun c hc => ?_, ?_⟩
  · simpa [update_apply, finalPath, swapPath] using h.others c hc
  · simpa [update_apply, swapPath, hc] using h.noOtherSwap c x hc
  · simpa [update_apply, finalPath, swapPath] using h.intact c hc
  · simpa [update_apply, swapPath] using fun _ => h.noLogSwap

/-! ## Assertions -/

/-- The mixtures of images that a recovery can start from. -/
def Recoverable (g : SwapGroup β) (before : Entries FileName (Contents β))
    (A : Assertion FileName (Contents β)) : Prop :=
  (∀ e, A.image e → g.Uncommitted before e) ∨
  ((∀ e, A.image e → g.Uncommitted before e ∨ g.Committed before e) ∧
    ∀ e, A.live e → g.Committed before e) ∨
  ((∀ e, A.image e → g.Committed before e ∨ g.Promoted before e) ∧
    ∀ e, A.live e → g.Promoted before e)

/-- Assertions that operations on sidecars and syncs do not disturb. -/
structure Steady (g : SwapGroup β) (A : Assertion FileName (Contents β)) : Prop where
  image : ∀ e e', SameLogs g e e' → A.image e → A.image e'
  live : ∀ e e', SameLogs g e e' → A.live e → A.live e'
  synced : ∀ e, A.live e → A.image e

namespace Steady

variable {A : Assertion FileName (Contents β)}

theorem takes_issue (h : Steady g A)
    {f : Entries FileName (Contents β) → Option (Effect FileName (Contents β))}
    (hquiet : ∀ e eff, f e = some eff → Quiet g eff) : (Action.issue f).Takes A A := by
  intro e _ hlive eff heff
  have hsame := (hquiet e eff heff).sameLogs
  exact ⟨h.live _ _ (hsame e) hlive, fun i hi => ⟨hi, h.image _ _ (hsame i) hi⟩⟩

theorem takes_sync (h : Steady g A) : (syncDir.sem).Takes A A :=
  fun e _ hlive => ⟨h.synced e hlive, hlive⟩

theorem takes_promoteSidecar (h : Steady g A) {ext : Ext} (hext : ext ∈ swapSidecars) :
    ((promoteSidecar g.base ext).sem).Takes A A := by
  have hne : ext ≠ .log := by rintro rfl; simp [swapSidecars] at hext
  refine h.takes_issue (fun e eff heff => ?_)
  split at heff
  · cases heff
    simp [Quiet, hne, swapPath, finalPath]
  · split at heff
    · cases heff
      simp [Quiet, hne, finalPath]
    · cases heff
      simp [Quiet]

variable {K : Assertion FileName (Contents β) → Prop}
  {guard : FileOp → Entries FileName (Contents β) → Prop}
  {goal : Entries FileName (Contents β) → Prop}

theorem follows_promoteSidecars (h : Steady g A)
    (hguard : ∀ e, guard .syncDir e ∧ ∀ ext ∈ swapSidecars, guard (.promoteSidecar g.base ext) e)
    {rest : List FileOp} (hrest : Follows sem K guard goal rest A) :
    Follows sem K guard goal (promoteSidecars g.base ++ rest) A := by
  refine Follows.append_of_stable (fun op hop => ?_) (fun op hop e _ => ?_) hrest <;>
    rcases mem_append.mp hop with hside | hsync
  · obtain ⟨ext, hext, rfl⟩ := mem_map.mp hside
    exact h.takes_promoteSidecar hext
  · exact mem_singleton.mp hsync ▸ h.takes_sync
  · obtain ⟨ext, hext, rfl⟩ := mem_map.mp hside
    exact (hguard e).2 ext hext
  · exact mem_singleton.mp hsync ▸ (hguard e).1

theorem follows_removeCleaned (h : Steady g A)
    (hguard : ∀ e, guard .syncDir e ∧ ∀ b ext, guard (.unlink (cleanedPath b ext)) e)
    (hK : K A) (hgoal : ∀ e, A.live e → goal e) (cleaned : List (Int × Ext)) :
    Follows sem K guard goal (removeCleaned cleaned) A := by
  have hend : Follows sem K guard goal [] A := ⟨hK, fun e _ hlive => hgoal e hlive⟩
  unfold removeCleaned
  split
  · exact hend
  · refine ⟨hK, fun e _ => (hguard e).1, A, h.takes_sync, ?_⟩
    rw [← append_nil (map _ cleaned)]
    refine Follows.append_of_stable (fun op hop => ?_) (fun op hop e _ => ?_) hend <;>
      obtain ⟨file, -, rfl⟩ := mem_map.mp hop
    · refine h.takes_issue fun e eff heff => ?_
      cases heff
      simp [Quiet, cleanedPath]
    · exact (hguard e).2 file.1 file.2

end Steady

theorem steady_uncommitted : Steady g ⟨g.Uncommitted before, g.Uncommitted before⟩ :=
  ⟨fun _ _ hs h => h.congr hs, fun _ _ hs h => h.congr hs, fun _ h => h⟩

theorem steady_promoted :
    Steady g ⟨fun e => g.Committed before e ∨ g.Promoted before e, g.Promoted before⟩ :=
  ⟨fun _ _ hs h => h.imp (·.congr hs) (·.congr hs), fun _ _ hs h => h.congr hs, fun _ h => .inr h⟩

/-! ## Deleting and promoting -/

section

variable {K : Assertion FileName (Contents β) → Prop}
  {guard : FileOp → Entries FileName (Contents β) → Prop}
  {goal : Entries FileName (Contents β) → Prop}

theorem follows_unlinks (hK : ∀ L : Entries FileName (Contents β) → Prop,
      K ⟨g.Committed before, fun e => g.Committed before e ∧ L e⟩)
    (gone : List FileName) {names : List FileName} {ops : List FileOp}
    (hnames : ∀ n ∈ names, ∃ c ∈ g.consumed, ∃ ext, n = finalPath c ext)
    (hguard : ∀ n ∈ names, ∀ e, guard (.unlink n) e)
    (hrest : Follows sem K guard goal ops
      ⟨g.Committed before, fun e => g.Committed before e ∧ ∀ n ∈ gone ++ names, e n = none⟩) :
    Follows sem K guard goal (names.map .unlink ++ ops)
      ⟨g.Committed before, fun e => g.Committed before e ∧ ∀ n ∈ gone, e n = none⟩ := by
  induction names generalizing gone with
  | nil => simpa using hrest
  | cons n names ih =>
    obtain ⟨c, hc, ext, rfl⟩ := hnames n mem_cons_self
    have htail := ih (gone ++ [finalPath c ext])
      (fun m hm => hnames m (mem_cons_of_mem _ hm))
      (fun m hm => hguard m (mem_cons_of_mem _ hm)) (by simpa using hrest)
    refine ⟨hK _, fun e _ => hguard _ mem_cons_self e, _, ?_, htail⟩
    intro e _ hlive eff heff
    cases heff
    refine ⟨⟨hlive.1.unlink hc ext, fun m hm => ?_⟩, fun i hi => ⟨hi, hi.unlink hc ext⟩⟩
    rw [Effect.apply_cons, Effect.apply_nil, update_apply]
    split
    · rfl
    · rename_i hne
      refine hlive.2 m ((mem_append.mp hm).resolve_right ?_)
      exact fun hlast => hne (mem_singleton.mp hlast)

theorem follows_promote (hcleared : K ⟨fun e => g.Committed before e ∧ g.Cleared e,
      fun e => g.Committed before e ∧ g.Cleared e⟩)
    (hpromoted : K ⟨fun e => g.Committed before e ∨ g.Promoted before e, g.Promoted before⟩)
    (hrename : ∀ e, g.Committed before e ∧ g.Cleared e →
      guard (.rename (swapPath g.base .log) (finalPath g.base .log)) e)
    (hguard : ∀ e, guard .syncDir e ∧ ∀ ext ∈ swapSidecars, guard (.promoteSidecar g.base ext) e)
    {rest : List FileOp} (hrest : Follows sem K guard goal rest
      ⟨fun e => g.Committed before e ∨ g.Promoted before e, g.Promoted before⟩) :
    Follows sem K guard goal (promoteLog g.base ++ promoteSidecars g.base ++ rest)
      ⟨fun e => g.Committed before e ∧ g.Cleared e,
        fun e => g.Committed before e ∧ g.Cleared e⟩ := by
  refine ⟨hcleared, hrename, _, ?_, hpromoted, fun e _ => (hguard e).1, _,
    steady_promoted.takes_sync, ?_⟩
  · intro e _ hlive eff heff
    simp only [hlive.1.survivor, Option.map_some, Option.some.injEq] at heff
    subst heff
    exact ⟨hlive.1.promote hlive.2, fun i hi => ⟨.inl hi.1, .inr (hi.1.promote hi.2)⟩⟩
  · exact steady_promoted.follows_promoteSidecars hguard hrest

end

theorem recoverable_uncommitted (g : SwapGroup β) (before : Entries FileName (Contents β))
    (L : Entries FileName (Contents β) → Prop) :
    Recoverable g before ⟨g.Uncommitted before, L⟩ := .inl fun _ h => h

theorem recoverable_committed (P L : Entries FileName (Contents β) → Prop)
    (hP : ∀ e, P e → g.Committed before e) :
    Recoverable g before ⟨P, fun e => g.Committed before e ∧ L e⟩ :=
  .inr (.inl ⟨fun e h => .inr (hP e h), fun _ h => h.1⟩)

theorem recoverable_promoted :
    Recoverable g before ⟨fun e => g.Committed before e ∨ g.Promoted before e, g.Promoted before⟩ :=
  .inr (.inr ⟨fun _ h => h, fun _ h => h⟩)

/-! ## The swap -/

def retiredNames (base c : Int) : List FileName :=
  replacedExtensions.map (finalPath c) ++
    if replacesProducerSnapshot c base then [finalPath c .snapshot] else []

theorem retire_eq (base c : Int) : retire base c = (retiredNames base c).map .unlink := by
  unfold retire retiredNames removeReplacedSegment
  split <;> simp [replacedExtensions]

/-- The survivor files are written and nothing is committed. -/
def Written (g : SwapGroup β) (before e : Entries FileName (Contents β)) : Prop :=
  g.Uncommitted before e ∧ e (cleanedPath g.base .log) = some (.log g.survivor)

theorem takes_sidecar {f : Entries FileName (Contents β) → Option (Effect FileName (Contents β))}
    (hside : ∀ e eff, f e = some eff →
      ∀ a ∈ eff, a.1.ext ≠ .log ∧ (a.1.suffix = .swap → a.1.base = g.base)) :
    (Action.issue f).Takes ⟨g.Uncommitted before, Written g before⟩
      ⟨g.Uncommitted before, Written g before⟩ := by
  intro e _ hlive eff heff
  have hsame := Quiet.sameLogs (g := g) (fun a ha => .inl (hside e eff heff a ha))
  refine ⟨⟨hlive.1.congr (hsame e), ?_⟩, fun i hi => ⟨hi, hi.congr (hsame i)⟩⟩
  rw [Effect.apply_of_ne (fun a ha heq => (hside e eff heff a ha).1 (by rw [heq]; rfl))]
  exact hlive.2

theorem takes_syncFile (name : FileName) :
    ((syncFile name).sem).Takes ⟨g.Uncommitted before, Written g before⟩
      ⟨g.Uncommitted before, Written g before⟩ := by
  refine takes_sidecar (fun e eff heff => ?_)
  split at heff <;> cases heff
  simp

theorem takes_stageSidecar {ext : Ext} (hext : ext ≠ .log) (written : Bool) :
    ∀ op ∈ stageSidecar g.base written ext,
      (op.sem).Takes ⟨g.Uncommitted before, Written g before⟩
        ⟨g.Uncommitted before, Written g before⟩ := by
  intro op hop
  unfold stageSidecar at hop
  split at hop
  · obtain rfl := mem_singleton.mp hop
    refine takes_sidecar (fun e eff heff => ?_)
    obtain ⟨file, -, rfl⟩ := Option.map_eq_some_iff.mp heff
    simp [cleanedPath, swapPath, hext]
  · simp only [mem_cons, not_mem_nil, or_false] at hop
    rcases hop with rfl | rfl <;> refine takes_sidecar (fun e eff heff => ?_) <;> cases heff <;>
      simp [cleanedPath, swapPath, hext]

theorem follows_atomicSwap (g : SwapGroup β) (before : Entries FileName (Contents β))
    (written : Bool) :
    Follows sem (Recoverable g before) (fun _ _ => True) (fun _ => True)
      (atomicSwap g.consumed g.base written) ⟨g.Uncommitted before, Written g before⟩ := by
  have hpromote : Follows sem (Recoverable g before) (fun _ _ => True) (fun _ => True)
      (promoteLog g.base ++ promoteSidecars g.base)
      ⟨fun e => g.Committed before e ∧ g.Cleared e,
        fun e => g.Committed before e ∧ g.Cleared e⟩ := by
    rw [← append_nil (promoteLog g.base ++ promoteSidecars g.base)]
    exact follows_promote (recoverable_committed _ _ fun _ h => h.1) recoverable_promoted
      (fun _ _ => trivial) (fun _ => ⟨trivial, fun _ _ => trivial⟩)
      ⟨recoverable_promoted, fun _ _ _ => trivial⟩
  -- behind the commit: the consumed segments go, and that is synced
  have hretire : Follows sem (Recoverable g before) (fun _ _ => True) (fun _ => True)
      (g.consumed.flatMap (retire g.base) ++ ([.syncDir] ++ promoteLog g.base ++
        promoteSidecars g.base))
      ⟨g.Committed before,
        fun e => g.Committed before e ∧ ∀ n ∈ ([] : List FileName), e n = none⟩ := by
    have hnames : g.consumed.flatMap (retire g.base) =
        (g.consumed.flatMap (retiredNames g.base)).map unlink := by
      rw [map_flatMap, funext (retire_eq g.base)]
    rw [hnames]
    refine follows_unlinks (fun L => recoverable_committed _ _ fun _ h => h) [] (fun n hn => ?_)
      (fun _ _ _ => trivial) ?_
    · obtain ⟨c, hc, hn⟩ := mem_flatMap.mp hn
      refine ⟨c, hc, ?_⟩
      rcases mem_append.mp hn with hn | hn
      · obtain ⟨ext, -, rfl⟩ := mem_map.mp hn
        exact ⟨ext, rfl⟩
      · split at hn
        · exact ⟨.snapshot, mem_singleton.mp hn⟩
        · exact nomatch hn
    · refine ⟨recoverable_committed _ _ fun _ h => h, fun _ _ => trivial, _, ?_, hpromote⟩
      intro e _ hlive
      have hcleared : g.Cleared e := fun c hc _ => hlive.2 _ (mem_append_right _
        (mem_flatMap.mpr ⟨c, hc, mem_append_left _ (by simp [replacedExtensions])⟩))
      exact ⟨⟨hlive.1, hcleared⟩, hlive.1, hcleared⟩
  have hcommit : Follows sem (Recoverable g before) (fun _ _ => True) (fun _ => True)
      ([.syncDir, .rename (cleanedPath g.base .log) (swapPath g.base .log), .syncDir] ++
        (g.consumed.flatMap (retire g.base) ++ ([.syncDir] ++ promoteLog g.base ++
          promoteSidecars g.base)))
      ⟨g.Uncommitted before, Written g before⟩ := by
    refine ⟨recoverable_uncommitted g before _, fun _ _ => trivial,
      ⟨g.Uncommitted before, Written g before⟩,
      fun e _ h => ⟨h.1, h⟩, recoverable_uncommitted g before _, fun _ _ => trivial,
      ⟨fun e => g.Uncommitted before e ∨ g.Committed before e, g.Committed before⟩, ?_,
      .inr (.inl ⟨fun _ h => h, fun _ h => h⟩), fun _ _ => trivial, _, ?_, hretire⟩
    · intro e _ hlive eff heff
      simp only [hlive.2, Option.map_some, Option.some.injEq] at heff
      subst heff
      exact ⟨hlive.1.commit, fun i hi => ⟨.inl hi, .inr hi.commit⟩⟩
    · exact fun e _ h => ⟨h, h, fun n hn => nomatch hn⟩
  unfold atomicSwap
  simp only [append_assoc] at hcommit ⊢
  refine Follows.append_of_stable (fun op hop => ?_) (fun _ _ _ _ => trivial)
    (Follows.append_of_stable (fun op hop => ?_) (fun _ _ _ _ => trivial) hcommit)
  · rcases mem_cons.mp hop with rfl | hop
    · exact takes_syncFile _
    · obtain ⟨s, -, rfl⟩ := mem_map.mp hop
      exact takes_syncFile _
  · obtain ⟨s, hs, hop⟩ := mem_flatMap.mp hop
    refine takes_stageSidecar ?_ s.2 op hop
    simp only [mem_cons, not_mem_nil, or_false] at hs
    rcases hs with rfl | rfl | rfl <;> simp

end SwapGroup

end Krabka.Log

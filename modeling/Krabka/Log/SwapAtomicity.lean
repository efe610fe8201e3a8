import Krabka.Log.SwapRecovery

/-!
# The swap is atomic when recovery finds the commit durable

`swap_crash_atomic` collects what holds at every point of every run in which the
recoveries find the commit durable.

A recovery acts on the names it sees and does not sync the directory first.  If
the process died between the commit rename and its sync, the recovery deletes
the consumed segments behind a rename that a power loss can still undo:
`killed_commit_loses_records`.
-/

namespace Krabka.Log

open Durable Directory List

namespace SwapGroup

variable {β : Type} {g : SwapGroup β} {before e e' : Entries FileName (Contents β)}

/-! ## Every run -/

structure CrashAtomic (g : SwapGroup β) (before : Entries FileName (Contents β))
    (m : Machine FileOp FileName (Contents β)) : Prop where
  /-- A completed recovery leaves no swap file. -/
  settled : m.stage = .recovered → ∀ b, ∀ ext ∈ swapExtensions,
    m.dir.live (swapPath b ext) = none ∧ m.dir.live (cleanedPath b ext) = none
  /-- It leaves the segments that were there before the swap, or the survivor
  with no consumed segment below its next offset. -/
  segments : m.stage = .recovered →
    (∀ b, m.dir.live (finalPath b .log) = before (finalPath b .log)) ∨
    (m.dir.live (finalPath g.base .log) = some (.log g.survivor) ∧
      (∀ c ∈ g.consumed, c ≠ g.base → c < g.next → m.dir.live (finalPath c .log) = none) ∧
      (∀ c ∈ g.consumed, c ≠ g.base → m.dir.live (finalPath c .log) = none ∨
        m.dir.live (finalPath c .log) = some (.log (g.logs c))) ∧
      ∀ b, b ∉ g.consumed → m.dir.live (finalPath b .log) = before (finalPath b .log))
  /-- Whatever a power loss leaves holds every consumed segment or the survivor. -/
  copies : ∀ e, m.dir.Image e →
    (∀ c ∈ g.consumed, e (finalPath c .log) = some (.log (g.logs c))) ∨
    e (swapPath g.base .log) = some (.log g.survivor) ∨
    e (finalPath g.base .log) = some (.log g.survivor)
  /-- Recovery does not touch a consumed segment at or above the next offset. -/
  spares : m.stage = .recovering → ∀ op rest d, m.todo = op :: rest →
    m.dir.perform op.sem = some d → ∀ c ∈ g.consumed, c ≠ g.base → g.next ≤ c →
      d.live (finalPath c .log) = m.dir.live (finalPath c .log)
  /-- Recovery promotes a durable commit with nothing left below the next offset. -/
  promotes : m.stage = .recovering → ∀ rest,
    m.todo = .rename (swapPath g.base .log) (finalPath g.base .log) :: rest →
    ∀ e, m.dir.Image e → e (swapPath g.base .log) = some (.log g.survivor) ∧
      ∀ c ∈ g.consumed, c = g.base ∨ c < g.next → e (finalPath c .log) = none
  /-- A recovery that is not interrupted completes. -/
  completes : m.stage = .down → g.CommitDurable m.dir → ∀ l : Listing, l.Scans m.dir.live →
    ∃ ops d, recoverSwaps l m.dir.live = (ops, none) ∧
      ops.foldlM (fun d op => d.perform op.sem) m.dir = some d

theorem replaces_iff {c : Int} (hc : c ∈ g.consumed) : g.Replaces c ↔ c = g.base ∨ c < g.next := by
  have hle := g.base_le c hc
  simp only [Replaces, localRecoverySwapReplaces, decide_eq_true_eq]
  omega

theorem Recoverable.phase {A : Assertion FileName (Contents β)} (hA : Recoverable g before A)
    {e : Entries FileName (Contents β)} (he : A.image e) :
    g.Uncommitted before e ∨ g.Committed before e ∨ g.Promoted before e := by
  rcases hA with hA | ⟨hA, -⟩ | ⟨hA, -⟩
  · exact .inl (hA e he)
  · exact (hA e he).imp_right .inl
  · exact .inr (hA e he)

theorem Recoverable.powerLoss {A : Assertion FileName (Contents β)} (hA : Recoverable g before A)
    {e : Entries FileName (Contents β)} (he : A.image e) :
    ∃ B, Recoverable g before B ∧ (settled e).Meets B := by
  rcases hA.phase he with h | h | h
  · exact ⟨⟨g.Uncommitted before, g.Uncommitted before⟩, recoverable_uncommitted g before _,
      meets_settled h h⟩
  · exact ⟨⟨g.Committed before, fun e => g.Committed before e ∧ True⟩,
      recoverable_committed _ _ fun _ h => h, meets_settled h ⟨h, trivial⟩⟩
  · exact ⟨⟨fun e => g.Committed before e ∨ g.Promoted before e, g.Promoted before⟩,
      recoverable_promoted, meets_settled (.inr h) h⟩

theorem suffix_of_mem_written {f : Effect FileName (Contents β)} (hf : f ∈ g.written)
    {a : FileName × Option (Contents β)} (ha : a ∈ f) : a.1.suffix = .cleaned := by
  unfold written at hf
  split at hf <;> simp only [cons_append, nil_append, mem_cons, not_mem_nil,
    or_false] at hf
  · rcases hf with rfl | rfl | rfl <;> exact mem_singleton.mp ha ▸ rfl
  · rcases hf with rfl | rfl | rfl | rfl <;> exact mem_singleton.mp ha ▸ rfl

theorem start_meets (hbefore : g.Before before) :
    (g.start before).dir.Meets ⟨g.Uncommitted before, Written g before⟩ := by
  have himage : ∀ e, (g.start before).dir.Image e → g.Uncommitted before e := by
    rintro e ⟨kept, hkept, rfl⟩
    have hsame : ∀ n : FileName, n.suffix ≠ .cleaned →
        replay kept before n = before n := by
      refine fun n hn => replay_of_ne (fun f hf a ha heq => hn ?_) before
      rw [← heq]
      exact suffix_of_mem_written (hkept.mem hf) ha
    have hfinal : ∀ b, replay kept before (finalPath b .log) = before (finalPath b .log) :=
      fun b => hsame _ (by simp [finalPath])
    have hswap : ∀ b ext, replay kept before (swapPath b ext) = before (swapPath b ext) :=
      fun b ext => hsame _ (by simp [swapPath])
    exact ⟨⟨fun b _ => hfinal b,
      fun b ext hb => (hswap b ext).trans (hbefore.noOtherSwap b ext hb)⟩,
      fun c hc => (hfinal c).trans (hbefore.consumed c hc), (hswap _ _).trans hbefore.noLogSwap⟩
  refine ⟨himage, himage _ (image_live _), ?_⟩
  unfold live start written
  split <;> simp [replay, cleanedPath]

theorem guarded_of_reachable (hbefore : g.Before before) {m : Machine FileOp FileName (Contents β)}
    (h : (g.durableSystem before).Reachable m) :
    Guarded FileOp.sem RecoveryPlan (Recoverable g before) (RecoveryGuard g)
      (Outcome g before) m := by
  refine Guarded.of_reachable (fun m hm => ?_) (fun d A e hA hmeets he => ?_)
    (fun d A ops hA hmeets hdurable hplan => ?_) h
  · subst hm
    exact ⟨rfl, _, start_meets hbefore, follows_atomicSwap g before _⟩
  · exact hA.powerLoss (hmeets.1 e he)
  · obtain ⟨l, hs, hrecover⟩ := hplan
    obtain ⟨planned, heq, hplanned⟩ := exists_planned hs (hA.phase (hmeets.1 _ d.image_live))
    obtain rfl : ops = planned ++ removeCleaned l.cleaned := by
      rw [heq] at hrecover
      exact (congrArg Prod.fst hrecover).symm
    exact follows_planned hbefore hA hmeets hdurable hs hplanned

/-- **The swap is crash-atomic** in every run in which no recovery starts from a
commit that a power loss can still undo. -/
theorem swap_crash_atomic (g : SwapGroup β) (before : Entries FileName (Contents β))
    (hbefore : g.Before before) (m : Machine FileOp FileName (Contents β))
    (h : (g.durableSystem before).Reachable m) : CrashAtomic g before m := by
  have hguarded := guarded_of_reachable hbefore h
  obtain ⟨A, hA, hmeets, -, hrec⟩ := hguarded.meets
  have hguard : m.stage = .recovering → ∀ op rest, m.todo = op :: rest →
      ∀ e, m.dir.Image e → RecoveryGuard g op e := by
    intro hstage op rest htodo e he
    have hfollows := hrec hstage
    rw [htodo] at hfollows
    exact hfollows.2.1 e (hmeets.1 e he)
  constructor
  case settled =>
    intro hstage b ext hext
    obtain ⟨-, e, ops, ⟨B, hB, himage⟩, ⟨l, hs, hrecover⟩, hrun⟩ := hguarded.recovered hstage
    have hphase := hB.phase himage
    have haround : g.Around before e := by
      rcases hphase with h | h | h <;> exact h.toAround
    obtain ⟨planned, heq, hplanned⟩ := exists_planned hs hphase
    obtain rfl : ops = planned ++ removeCleaned l.cleaned := by
      rw [heq] at hrecover
      exact (congrArg Prod.fst hrecover).symm
    exact runAll_planned hs haround hplanned hrun b hext
  case segments =>
    intro hstage
    rcases (hguarded.recovered hstage).1 with hout | hout
    · refine .inl fun b => ?_
      by_cases hb : b ∈ g.consumed
      · rw [hout.intact b hb, hbefore.consumed b hb]
      · exact hout.others b hb
    · exact .inr ⟨hout.survivor,
        fun c hc hne hlt => hout.replaced c hc hne ((replaces_iff hc).mpr (.inr hlt)),
        hout.kept, hout.others⟩
  case copies =>
    intro e he
    rcases hA.phase (hmeets.1 e he) with hp | hp | hp
    · exact .inl hp.intact
    · exact .inr (.inl hp.survivor)
    · exact .inr (.inr hp.survivor)
  case spares =>
    intro hstage op rest d htodo hd c hc hne hle
    refine (hguard hstage op rest htodo _ m.dir.image_live).spares c hc ?_ _ (run_live hd)
    rw [replaces_iff hc]
    omega
  case promotes =>
    intro hstage rest htodo e he
    obtain ⟨hsurvivor, hcleared⟩ := (hguard hstage _ rest htodo e he).promotes rfl
    exact ⟨hsurvivor, fun c hc hrep => hcleared c hc ((replaces_iff hc).mpr hrep)⟩
  case completes =>
    intro _ hdurable l hs
    obtain ⟨planned, heq, hplanned⟩ := exists_planned hs (hA.phase (hmeets.1 _ m.dir.image_live))
    obtain ⟨B, hB, hfollows⟩ := follows_planned hbefore hA hmeets hdurable hs hplanned
    obtain ⟨d, hd, -⟩ := hfollows.completes (fun op e h => h.runs) hB
    exact ⟨_, d, heq, hd⟩

/-! ## A recovery behind a commit that is not durable -/

def Listed (l : Listing) : FileName → Prop
  | ⟨b, ext, .swap⟩ => ext ∈ swapExtensions → b ∈ l.swapBases ∧ (ext = .log → b ∈ l.logSwapBases)
  | ⟨b, ext, .final⟩ => ext = .log → b ∈ l.logBases
  | ⟨b, ext, .cleaned⟩ => ext ∈ swapExtensions → (b, ext) ∈ l.cleaned

instance (l : Listing) (n : FileName) : Decidable (Listed l n) :=
  match n with
  | ⟨_, _, .swap⟩ => inferInstanceAs (Decidable (_ → _))
  | ⟨_, _, .final⟩ => inferInstanceAs (Decidable (_ → _))
  | ⟨_, _, .cleaned⟩ => inferInstanceAs (Decidable (_ → _))

theorem scans_of_names {l : Listing} (names : List FileName) (hnone : ∀ n, n ∉ names → e n = none)
    (hascending : l.swapBases.Pairwise (· < ·)) (hlists : ∀ n ∈ names, (e n).isSome → Listed l n)
    (hswap : ∀ b ∈ l.swapBases, ∃ ext ∈ swapExtensions, (e (swapPath b ext)).isSome)
    (hlogSwap : ∀ b ∈ l.logSwapBases, (e (swapPath b .log)).isSome)
    (hlog : ∀ b ∈ l.logBases, (e (finalPath b .log)).isSome)
    (hcleaned : ∀ f ∈ l.cleaned, f.2 ∈ swapExtensions ∧ (e (cleanedPath f.1 f.2)).isSome) :
    l.Scans e := by
  have hlisted : ∀ n, (e n).isSome → Listed l n := by
    intro n hsome
    refine hlists n ?_ hsome
    by_contra hn
    rw [hnone n hn] at hsome
    exact nomatch hsome
  refine ⟨hascending, fun b => ⟨hswap b, ?_⟩, fun b => ⟨hlogSwap b, fun h => ?_⟩,
    fun b => ⟨hlog b, fun h => ?_⟩, fun b ext => ⟨hcleaned (b, ext), fun h => ?_⟩⟩
  · rintro ⟨ext, hext, h⟩
    exact (hlisted (swapPath b ext) h hext).1
  · exact (hlisted (swapPath b .log) h (by decide)).2 rfl
  · exact hlisted (finalPath b .log) h rfl
  · exact hlisted (cleanedPath b ext) h.2 h.1

/-- Two segments of one record each; the rewrite keeps the second record. -/
def pair : SwapGroup Nat where
  consumed := [0, 1]
  base := 0
  logs c := [⟨⟨c, 0, 60⟩, c.toNat⟩]
  survivor := [⟨⟨1, 0, 60⟩, 1⟩]
  next := 2
  index := 0
  timeindex := 0
  txnindex := none
  base_mem := by decide
  base_le := by decide
  next_eq := rfl

def pairBefore : Entries FileName (Contents Nat) := fun n =>
  if n = finalPath 0 .log then some (.log (pair.logs 0))
  else if n = finalPath 1 .log then some (.log (pair.logs 1))
  else none

theorem pair_before : pair.Before pairBefore := by
  refine ⟨?_, ?_, rfl, ?_⟩
  · intro c hc
    simp only [pair, mem_cons, not_mem_nil, or_false] at hc
    rcases hc with rfl | rfl <;> rfl
  · intro b hb
    simp only [pair, mem_cons, not_mem_nil, or_false] at hb
    simp only [pairBefore, finalPath, FileName.mk.injEq, and_true]
    split
    · exact absurd (.inl ‹b = 0›) hb
    · split
      · exact absurd (.inr ‹b = 1›) hb
      · simp
  · intro b ext _
    simp [pairBefore, swapPath, finalPath]

def pairNames : List FileName :=
  [finalPath 0 .log, finalPath 1 .log] ++
    swapExtensions.map (swapPath 0) ++ swapExtensions.map (cleanedPath 0)

/-- The effects up to the first `sync_dir`: the survivor files and their staging. -/
def pairStaged : List (Effect FileName (Contents Nat)) :=
  pair.written ++ [[], [], [],
    [(cleanedPath 0 .index, none), (swapPath 0 .index, some (.sidecar 0))],
    [(cleanedPath 0 .timeindex, none), (swapPath 0 .timeindex, some (.sidecar 0))],
    [(swapPath 0 .txnindex, none)], [(cleanedPath 0 .txnindex, none)]]

/-- The directory of a process that died between the commit and its sync. -/
def killedDir : Directory FileName (Contents Nat) :=
  ⟨replay pairStaged pairBefore,
    [[(cleanedPath 0 .log, none), (swapPath 0 .log, some (.log pair.survivor))]]⟩

/-- What the recovery unlinks before its first sync. -/
def killedUnlinks : List FileOp := [0, 1, 0].flatMap removeReplacedSegment

/-- The power fails: the unlinks reached the disk and the commit rename did not. -/
def lostUnlinks : List (Effect FileName (Contents Nat)) :=
  [0, 1, 0].flatMap fun b => replacedExtensions.map fun ext => [(finalPath b ext, none)]

def lostEntries : Entries FileName (Contents Nat) :=
  replay lostUnlinks killedDir.durable

variable {n : FileName}

theorem pairBefore_eq_none (hn : n ∉ pairNames) : pairBefore n = none := by
  have h0 : n ≠ finalPath 0 .log := by
    rintro rfl
    exact hn (by decide)
  have h1 : n ≠ finalPath 1 .log := by
    rintro rfl
    exact hn (by decide)
  simp [pairBefore, h0, h1]

theorem replay_eq_none_of_names {fs : List (Effect FileName (Contents Nat))}
    (hfs : ∀ f ∈ fs, ∀ a ∈ f, a.1 ∈ pairNames ∨ a.2 = none) {e : Entries FileName (Contents Nat)}
    (hn : n ∉ pairNames) (he : e n = none) : replay fs e n = none := by
  refine replay_eq_none (fun f hf a ha heq => ?_) he
  exact (hfs f hf a ha).resolve_left (heq ▸ hn)

theorem staged_eq_none (hn : n ∉ pairNames) : killedDir.durable n = none :=
  replay_eq_none_of_names (by decide) hn (pairBefore_eq_none hn)

theorem killed_scans : (⟨[0], [0], [0, 1], []⟩ : Listing).Scans killedDir.live :=
  scans_of_names pairNames
    (fun _ hn => replay_eq_none_of_names (by decide) hn (staged_eq_none hn))
    (by decide) (by decide) (by decide) (by decide) (by decide) (by decide)

/-- The swap of `pair`, cut by a power loss behind the durable commit and
recovered, ends with the survivor alone. -/
def recoveredDir : Directory FileName (Contents Nat) :=
  (foldlM (fun (d : Directory FileName (Contents Nat)) op => d.perform op.sem)
    (.settled killedDir.live)
    (killedUnlinks ++ ([.syncDir] ++ promoteLog 0 ++ promoteSidecars 0))).getD (.settled pairBefore)

theorem swap_crash_atomic_pair : ∃ m,
    (pair.durableSystem pairBefore).Reachable m ∧
    m.stage = .recovered ∧ m.dir.live (finalPath 0 .log) = some (.log pair.survivor) ∧
    CrashAtomic pair pairBefore m := by
  have hperform : ∀ m m', (pair.system pairBefore).step m .perform m' →
      (pair.durableSystem pairBefore).step m .perform m' :=
    fun _ _ h => ⟨h, nofun⟩
  have hcommit : (pair.durableSystem pairBefore).Reachable
      ⟨.settled killedDir.live, (pair.start pairBefore).todo.drop 10, .working⟩ := by
    have hstart : (pair.durableSystem pairBefore).Reachable
        ⟨(pair.start pairBefore).dir, (pair.start pairBefore).todo.take 10 ++
          (pair.start pairBefore).todo.drop 10, .working⟩ := .init rfl
    exact reachable_performAll FileOp.sem _ _ hperform hstart rfl
  have hloss : (pair.durableSystem pairBefore).Reachable
      ⟨.settled killedDir.live, [], .down⟩ :=
    .step (a := Event.powerLoss) hcommit ⟨⟨_, image_live _, rfl⟩, nofun⟩
  have hrecover : (pair.durableSystem pairBefore).Reachable
      ⟨.settled killedDir.live,
        killedUnlinks ++ ([.syncDir] ++ promoteLog 0 ++ promoteSidecars 0) ++ [], .recovering⟩ :=
    .step (a := Event.recover) hloss ⟨⟨_, rfl, ⟨_, killed_scans, rfl⟩, rfl⟩,
      fun _ h e he => image_settled he ▸ h⟩
  have hdone :=
    reachable_performAll FileOp.sem _ _ hperform hrecover (show _ = some recoveredDir from rfl)
  have hfinish : (pair.durableSystem pairBefore).Reachable
      ⟨recoveredDir, [], .recovered⟩ :=
    .step (a := Event.finish) hdone ⟨⟨rfl, rfl, rfl⟩, nofun⟩
  exact ⟨_, hfinish, rfl, rfl, swap_crash_atomic pair pairBefore pair_before _ hfinish⟩

theorem lost_scans : (⟨[0], [], [], [(0, .log)]⟩ : Listing).Scans lostEntries :=
  scans_of_names pairNames
    (fun _ hn => replay_eq_none_of_names (by decide) hn (staged_eq_none hn))
    (by decide) (by decide) (by decide) (by decide) (by decide) (by decide)

/-- The directory of the second recovery when it is done. -/
def lostDir : Directory FileName (Contents Nat) :=
  ⟨replay (swapExtensions.map fun ext => [(swapPath 0 ext, none)]) lostEntries,
    [[(cleanedPath 0 .log, none)]]⟩

/-- A process dies between the commit rename and its sync.  The recovery takes
the commit for granted and unlinks the consumed segments; then the power fails,
the unlinks are on the disk and the rename is not.  The next recovery finds the
`.log.cleaned`, aborts, and deletes it.  Nothing is left of either segment. -/
theorem killed_commit_loses_records :
    ∃ m, (pair.system pairBefore).Reachable m ∧ m.stage = .recovered ∧
      m.dir.live (finalPath 0 .log) = none ∧ m.dir.live (finalPath 1 .log) = none ∧
      m.dir.live (swapPath 0 .log) = none ∧ m.dir.live (cleanedPath 0 .log) = none ∧
      ¬ CrashAtomic pair pairBefore m := by
  have hcommit : (pair.system pairBefore).Reachable
      ⟨killedDir, (pair.start pairBefore).todo.drop 9, .working⟩ := by
    have hstart : (pair.system pairBefore).Reachable
        ⟨(pair.start pairBefore).dir, (pair.start pairBefore).todo.take 9 ++
          (pair.start pairBefore).todo.drop 9, .working⟩ := .init rfl
    exact reachable_performAll FileOp.sem _ _ (fun _ _ h => h) hstart rfl
  have hkill : (pair.system pairBefore).Reachable ⟨killedDir, [], .down⟩ :=
    .step (a := Event.kill) hcommit rfl
  have hrecover : (pair.system pairBefore).Reachable
      ⟨killedDir, killedUnlinks ++
        ([.syncDir] ++ promoteLog 0 ++ promoteSidecars 0), .recovering⟩ :=
    .step (a := Event.recover) hkill ⟨_, rfl, ⟨_, killed_scans, rfl⟩, rfl⟩
  have hunlinks : (pair.system pairBefore).Reachable
      ⟨⟨killedDir.durable, killedDir.unsynced ++ lostUnlinks⟩,
        [.syncDir] ++ promoteLog 0 ++ promoteSidecars 0, .recovering⟩ :=
    reachable_performAll FileOp.sem _ _ (fun _ _ h => h) hrecover rfl
  have hloss : (pair.system pairBefore).Reachable ⟨.settled lostEntries, [], .down⟩ :=
    .step (a := Event.powerLoss) hunlinks
      ⟨lostEntries, ⟨lostUnlinks, sublist_append_right _ _, rfl⟩, rfl⟩
  have habort : (pair.system pairBefore).Reachable
      ⟨.settled lostEntries, (swapExtensions.map fun ext => .unlink (swapPath 0 ext)) ++
        [.syncDir, .unlink (cleanedPath 0 .log)] ++ [], .recovering⟩ :=
    .step (a := Event.recover) hloss ⟨_, rfl, ⟨_, lost_scans, rfl⟩, rfl⟩
  have hdone : (pair.system pairBefore).Reachable ⟨lostDir, [], .recovering⟩ :=
    reachable_performAll FileOp.sem _ _ (fun _ _ h => h) habort rfl
  refine ⟨⟨lostDir, [], .recovered⟩, .step (a := Event.finish) hdone ⟨rfl, rfl, rfl⟩, rfl,
    rfl, rfl, rfl, rfl, fun hatomic => ?_⟩
  rcases hatomic.segments rfl with hsame | ⟨hsurvivor, -⟩
  · exact nomatch hsame 0
  · exact nomatch hsurvivor

end SwapGroup

end Krabka.Log

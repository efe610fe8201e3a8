import Krabka.Lib.Transition
import Krabka.ShareCoordinator.StateMachine

/-!
# One state partition under concurrent calls

A `Shard` is a `__share_group_state` partition in one leadership term: the local
log, the mailbox of the partition writer, the in-memory state map, the call that
holds the operation lock, and the loads that replay the log.

The caller of an append waits for the writer's reply at an `await`, where it
can be dropped, and the reply can be lost.  The append then stays in the mailbox
or in the log without having been applied, and the shard is fenced as uncertain
until a load has drained the mailbox and replayed the log.  `Shard.Coherent` says
what ties the map to the log at each point in between.
-/

namespace Krabka.ShareCoordinator

open List

/-! ## The shard -/

inductive LoadStatus
  | pending
  | loading
  | active
  | failed
  deriving DecidableEq

/-- What the caller of an append gets to see. -/
inductive Reply
  | appended (offset : Int)
  | rejected
  | lost

/-- Where the call that holds the operation lock stands. -/
inductive Phase
  | ready
  /-- The append is enqueued and the caller waits. -/
  | queued (r : LogRecord)
  /-- The writer has replied and the caller was not resumed yet. -/
  | replied (r : LogRecord) (reply : Reply)

structure Running where
  todo : List Work
  phase : Phase

inductive Command
  | append (r : LogRecord) (awaited : Bool)
  | barrier (generation : Nat)

inductive LoadPhase
  | start
  /-- The barrier is in the mailbox. -/
  | waiting
  /-- The first `n` records are replayed. -/
  | reading (n : Nat) (replayed : StateMap)
  /-- The replay has ended, or failed. -/
  | ended (result : Option StateMap)

structure Shard where
  logStart : Int
  log : List LogRecord
  mailbox : List Command
  live : StateMap
  uncertain : Bool
  status : LoadStatus
  generation : Nat
  running : Option Running
  loads : Nat → Option LoadPhase

/-- The calls: a request, or a job over the keys that it has collected. -/
inductive Call
  | request (work : Work)
  | cleanupDeletedTopics (keys : List StateKey)
  | snapshotColdPartitions (keys : List StateKey)

/-- Every key with state has a cold snapshot already. -/
def allCold (live : StateMap) (keys : List StateKey) : Bool :=
  keys.all fun key => (live key).all fun st => st.createTimestamp ≠ st.writeTimestamp

def Call.work (live : StateMap) : Call → List Work
  | .request work => [work]
  | .cleanupDeletedTopics keys => keys.map .cleanup
  | .snapshotColdPartitions keys => if allCold live keys then [] else keys.map .coldSnapshot

namespace Shard

/-- `active`: the status check that a call makes under the operation lock. -/
def active (s : Shard) : Except Int Unit :=
  if s.uncertain then .error Code.coordinatorLoadInProgress
  else
    match s.status with
    | .active => .ok ()
    | .pending | .loading => .error Code.coordinatorLoadInProgress
    | .failed => .error Code.notCoordinator

/-- The caller of the append is gone. -/
def abandon (mailbox : List Command) : List Command :=
  mailbox.map fun
    | .append r _ => .append r false
    | .barrier generation => .barrier generation

def setLoad (s : Shard) (generation : Nat) (phase : Option LoadPhase) : Shard :=
  { s with loads := fun g => if g = generation then phase else s.loads g }

end Shard

inductive ShardAction
  /-- `active` lets a call in. -/
  | start (call : Call)
  /-- The call takes its next step and enqueues the record of it. -/
  | decide (now : Int)
  /-- The append of the next step fails before it is enqueued. -/
  | fail
  /-- The writer takes a command.  The append may succeed, and its reply may be
  lost. -/
  | writer (succeeds replyLost : Bool)
  | resume
  | timeout
  | cancel
  | finish
  /-- `apply_desired_leadership` in the same term. -/
  | refresh
  | loadBarrier (generation : Nat)
  | loadRead (generation : Nat)
  | loadFail (generation : Nat)
  /-- `install_term`. -/
  | install (generation : Nat)

section

variable (config : ShareCoordinatorConfig)

namespace Shard

variable (s : Shard)

def start (call : Call) : Option Shard :=
  match s.running, s.active with
  | none, .ok () => some { s with running := some ⟨call.work s.live, .ready⟩ }
  | _, _ => none

/-- `persist_record` refuses while the shard is uncertain. -/
def decide (now : Int) : Option Shard :=
  match s.running with
  | some ⟨work :: todo, .ready⟩ =>
    match work.record config now s.live with
    | .ok (some r) =>
      if s.uncertain then some { s with running := some ⟨todo, .ready⟩ }
      else
        some { s with
          mailbox := s.mailbox ++ [.append r true]
          running := some ⟨todo, .queued r⟩ }
    | _ => some { s with running := some ⟨todo, .ready⟩ }
  | _ => none

def fail : Option Shard :=
  match s.running with
  | some ⟨_ :: todo, .ready⟩ => some { s with running := some ⟨todo, .ready⟩ }
  | _ => none

def writer (succeeds replyLost : Bool) : Option Shard :=
  match s.mailbox with
  | .append r awaited :: mailbox =>
    let reply : Reply :=
      if replyLost then .lost
      else if succeeds then .appended (s.logStart + s.log.length)
      else .rejected
    some { s with
      mailbox := mailbox
      log := if succeeds then s.log ++ [r] else s.log
      running :=
        if awaited then s.running.map fun ρ => { ρ with phase := .replied r reply }
        else s.running }
  | .barrier generation :: mailbox =>
    match s.loads generation with
    | some .waiting =>
      some ({ s with mailbox := mailbox }.setLoad generation (some (.reading 0 .empty)))
    | _ => some { s with mailbox := mailbox }
  | [] => none

/-- The record is applied in the same poll as the reply is seen. -/
def resume : Option Shard :=
  match s.running with
  | some ⟨todo, .replied r (.appended offset)⟩ =>
    some { s with live := s.live.apply config offset r, running := some ⟨todo, .ready⟩ }
  | some ⟨todo, .replied _ .rejected⟩ => some { s with running := some ⟨todo, .ready⟩ }
  | some ⟨todo, .replied _ .lost⟩ =>
    some { s with uncertain := true, running := some ⟨todo, .ready⟩ }
  | _ => none

def timeout : Option Shard :=
  match s.running with
  | some ⟨todo, .queued _⟩ | some ⟨todo, .replied _ _⟩ =>
    some { s with
      uncertain := true
      mailbox := abandon s.mailbox
      running := some ⟨todo, .ready⟩ }
  | _ => none

/-- The future is dropped, and with it the guard of an append that is enqueued. -/
def cancel : Option Shard :=
  match s.running with
  | some ⟨_, .ready⟩ => some { s with running := none }
  | some _ =>
    some { s with uncertain := true, mailbox := abandon s.mailbox, running := none }
  | none => none

def finish : Option Shard :=
  match s.running with
  | some ⟨[], .ready⟩ => some { s with running := none }
  | _ => none

def refresh : Option Shard :=
  match s.running with
  | none =>
    if s.status = .pending ∨ s.status = .failed ∨ s.status = .active ∧ s.uncertain then
      some ({ s with
        generation := s.generation + 1
        status := .loading
        live := .empty }.setLoad (s.generation + 1) (some .start))
    else none
  | some _ => none

def loadBarrier (generation : Nat) : Option Shard :=
  match s.loads generation with
  | some .start =>
    some ({ s with mailbox := s.mailbox ++ [Command.barrier generation] }.setLoad generation
      (some .waiting))
  | _ => none

/-- The load reads the log on while there is more of it. -/
def loadRead (generation : Nat) : Option Shard :=
  match s.loads generation with
  | some (.reading n replayed) =>
    match s.log[n]? with
    | some r => some (s.setLoad generation
        (some (.reading (n + 1) (replayed.replayRecord config (s.logStart + n) r))))
    | none => some (s.setLoad generation (some (.ended (some replayed))))
  | _ => none

def loadFail (generation : Nat) : Option Shard :=
  match s.loads generation with
  | some (.ended _) | none => none
  | some _ => some (s.setLoad generation (some (.ended none)))

def install (generation : Nat) : Option Shard :=
  match s.running, s.loads generation with
  | none, some (.ended result) =>
    let s' := s.setLoad generation none
    if generation = s.generation ∧ s.status = .loading then
      match result with
      | some replayed =>
        some { s' with
          live := fun key => (replayed key).or (s.live key)
          uncertain := false
          status := .active }
      | none => some { s' with status := if s.uncertain then .pending else .failed }
    else some s'
  | _, _ => none

def run : ShardAction → Option Shard
  | .start call => s.start call
  | .decide now => s.decide config now
  | .fail => s.fail
  | .writer succeeds replyLost => s.writer succeeds replyLost
  | .resume => s.resume config
  | .timeout => s.timeout
  | .cancel => s.cancel
  | .finish => s.finish
  | .refresh => s.refresh
  | .loadBarrier generation => s.loadBarrier generation
  | .loadRead generation => s.loadRead config generation
  | .loadFail generation => s.loadFail generation
  | .install generation => s.install generation

end Shard

/-- The start of a term: the keys are dropped, and the log is loaded or about to
be.  Appends of an earlier term may still be in the mailbox, and loads of an
earlier term may still run. -/
def Shard.Starts (s : Shard) : Prop :=
  s.running = none ∧ s.live = .empty ∧
    (s.status = .loading ∧ s.loads s.generation = some .start ∨
      s.status = .pending ∧ s.loads s.generation = none) ∧
    (∀ g, s.generation < g → s.loads g = none) ∧
    ∀ g, s.generation ≤ g → ∀ c ∈ s.mailbox, c ≠ .barrier g

def shard : TransitionSystem Shard ShardAction where
  init s := s.Starts
  step s a s' := s.run config a = some s'

end

/-! ## Coherence -/

def appends (mailbox : List Command) : List (LogRecord × Bool) :=
  mailbox.filterMap fun
    | .append r awaited => some (r, awaited)
    | .barrier _ => none

theorem appends_append (mailbox mailbox' : List Command) :
    appends (mailbox ++ mailbox') = appends mailbox ++ appends mailbox' :=
  filterMap_append

section

variable (config : ShareCoordinatorConfig)

namespace Shard

def replayed (s : Shard) : StateMap := .replay config s.logStart s.log .empty

/-- A shard that serves: the map is the log, up to the one append whose caller is
not resumed yet. -/
def Serves (s : Shard) : Prop :=
  match s.running with
  | none | some ⟨_, .ready⟩ => appends s.mailbox = [] ∧ s.live = s.replayed config
  | some ⟨_, .queued r⟩ =>
    appends s.mailbox = [(r, true)] ∧ s.live = s.replayed config ∧ r.Fits s.live
  | some ⟨_, .replied r (.appended offset)⟩ =>
    appends s.mailbox = [] ∧ r.Fits s.live ∧
      ∃ log, s.log = log ++ [r] ∧ offset = s.logStart + log.length ∧
        s.live = .replay config s.logStart log .empty
  | some ⟨_, .replied _ .rejected⟩ => appends s.mailbox = [] ∧ s.live = s.replayed config
  | some ⟨_, .replied _ .lost⟩ => appends s.mailbox = []

/-- The load of the current generation: once its barrier is through, no append
is left that could change the log under it. -/
def Loads (s : Shard) : LoadPhase → Prop
  | .start => ∀ c ∈ s.mailbox, c ≠ .barrier s.generation
  | .waiting => ∀ pre post, s.mailbox = pre ++ .barrier s.generation :: post → appends post = []
  | .reading n replayed =>
    appends s.mailbox = [] ∧ n ≤ s.log.length ∧
      replayed = .replay config s.logStart (s.log.take n) .empty
  | .ended (some replayed) => appends s.mailbox = [] ∧ replayed = s.replayed config
  | .ended none => True

structure Coherent (s : Shard) : Prop where
  running : s.running ≠ none → s.status = .active
  dropped : s.status ≠ .active → s.live = .empty
  serves : s.status = .active → s.uncertain = false → s.Serves config
  loads : s.status = .loading → ∀ phase, s.loads s.generation = some phase → s.Loads config phase
  later : ∀ g, s.generation < g → s.loads g = none ∧ ∀ c ∈ s.mailbox, c ≠ .barrier g

end Shard

end

/-! ## The steps of a call -/

section

variable {config : ShareCoordinatorConfig} {s s' : Shard}

namespace Shard

theorem Coherent.call (h : s.Coherent config) (hactive : s.status = .active)
    (hstatus : s'.status = s.status) (hgeneration : s'.generation = s.generation)
    (hloads : s'.loads = s.loads)
    (hbarriers : ∀ g, (∃ c ∈ s'.mailbox, c = .barrier g) → ∃ c ∈ s.mailbox, c = .barrier g)
    (hserves : s'.uncertain = false → s'.Serves config) : s'.Coherent config := by
  have hactive' : s'.status = .active := hstatus.trans hactive
  refine ⟨fun _ => hactive', fun hne => absurd hactive' hne, fun _ => hserves, fun hloading => ?_,
    fun g hg => ?_⟩
  · rw [hactive'] at hloading
    cases hloading
  · rw [hgeneration] at hg
    obtain ⟨hnone, hbarrier⟩ := h.later g hg
    refine ⟨by rw [hloads]; exact hnone, fun c hc heq => ?_⟩
    obtain ⟨c', hc', heq'⟩ := hbarriers g ⟨c, hc, heq⟩
    exact hbarrier c' hc' heq'

theorem active_eq_ok (h : s.active = .ok ()) : s.uncertain = false ∧ s.status = .active := by
  unfold Shard.active at h
  split at h
  · cases h
  · rename_i hcertain
    split at h
    · rename_i hactive
      exact ⟨by simpa using hcertain, hactive⟩
    all_goals cases h

theorem Coherent.start {call : Call} (h : s.Coherent config) (hstep : s.start call = some s') :
    s'.Coherent config := by
  unfold Shard.start at hstep
  split at hstep
  · rename_i hrunning hok
    cases hstep
    have hactive := (active_eq_ok hok).2
    refine h.call hactive rfl rfl rfl (fun g hg => hg) fun hcertain => ?_
    have hserves := h.serves hactive hcertain
    rw [Serves, hrunning] at hserves
    exact hserves
  · cases hstep

theorem Coherent.active_of_running {ρ : Running} (h : s.Coherent config)
    (hrunning : s.running = some ρ) : s.status = .active :=
  h.running (by simp [hrunning])

theorem Coherent.serves_of_running {ρ : Running} (h : s.Coherent config)
    (hrunning : s.running = some ρ) (hcertain : s.uncertain = false) : s.Serves config :=
  h.serves (h.active_of_running hrunning) hcertain

theorem Coherent.idle {todo : List Work} (h : s.Coherent config)
    (hrunning : s.running = some ⟨todo, .ready⟩) {next : Option Running}
    (hnext : ∀ ρ ∈ next, ρ.phase = .ready) : Coherent config { s with running := next } := by
  refine h.call (h.active_of_running hrunning) rfl rfl rfl (fun g hg => hg) fun hcertain => ?_
  have hserves := h.serves_of_running hrunning hcertain
  rw [Serves, hrunning] at hserves
  cases next with
  | none => exact hserves
  | some ρ =>
    obtain ⟨todo', phase⟩ := ρ
    obtain rfl : phase = .ready := hnext _ rfl
    exact hserves

theorem Coherent.decide {now : Int} (h : s.Coherent config)
    (hstep : s.decide config now = some s') : s'.Coherent config := by
  unfold Shard.decide at hstep
  split at hstep
  · rename_i work todo hrunning
    split at hstep
    · rename_i r hr
      split at hstep
      · cases hstep
        exact h.idle hrunning (by simp)
      · cases hstep
        refine h.call (h.active_of_running hrunning) rfl rfl rfl (fun g hg => ?_) fun hcertain => ?_
        · obtain ⟨c, hc, rfl⟩ := hg
          rcases mem_append.mp hc with hc | hc
          · exact ⟨_, hc, rfl⟩
          · exact absurd (mem_singleton.mp hc) (by simp)
        · have hserves := h.serves_of_running hrunning hcertain
          rw [Serves, hrunning] at hserves
          obtain ⟨happends, hlive⟩ := hserves
          refine ⟨?_, hlive, Work.record_fits hr⟩
          rw [appends_append, happends]
          rfl
    · cases hstep
      exact h.idle hrunning (by simp)
  · cases hstep

theorem Coherent.fail (h : s.Coherent config) (hstep : s.fail = some s') : s'.Coherent config := by
  unfold Shard.fail at hstep
  split at hstep
  · rename_i hrunning
    cases hstep
    exact h.idle hrunning (by simp)
  · cases hstep

theorem Coherent.resume (h : s.Coherent config) (hstep : s.resume config = some s') :
    s'.Coherent config := by
  unfold Shard.resume at hstep
  split at hstep
  · rename_i todo r offset hrunning
    cases hstep
    refine h.call (h.active_of_running hrunning) rfl rfl rfl (fun g hg => hg) fun hcertain => ?_
    have hserves := h.serves_of_running hrunning hcertain
    rw [Serves, hrunning] at hserves
    obtain ⟨happends, hfits, log, hlog, rfl, hlive⟩ := hserves
    refine ⟨happends, ?_⟩
    show s.live.apply config (s.logStart + log.length) r = .replay config s.logStart s.log .empty
    rw [apply_eq_replay config hfits, hlog, StateMap.replay_concat, hlive]
  · rename_i hrunning
    cases hstep
    refine h.call (h.active_of_running hrunning) rfl rfl rfl (fun g hg => hg) fun hcertain => ?_
    have hserves := h.serves_of_running hrunning hcertain
    rw [Serves, hrunning] at hserves
    exact hserves
  · rename_i hrunning
    cases hstep
    exact h.call (h.active_of_running hrunning) rfl rfl rfl (fun g hg => hg) (by simp)
  · cases hstep

variable {mailbox : List Command} {g : Nat}

theorem barrier_of_abandon
    (h : ∃ c ∈ abandon mailbox, c = .barrier g) : ∃ c ∈ mailbox, c = .barrier g := by
  obtain ⟨c, hc, rfl⟩ := h
  obtain ⟨c', hc', heq⟩ := mem_map.mp hc
  cases c' with
  | append r awaited => cases heq
  | barrier g' => exact ⟨_, hc', heq⟩

theorem Coherent.timeout (h : s.Coherent config) (hstep : s.timeout = some s') :
    s'.Coherent config := by
  unfold Shard.timeout at hstep
  split at hstep
  · rename_i hrunning
    cases hstep
    exact h.call (h.active_of_running hrunning) rfl rfl rfl (fun g => barrier_of_abandon) (by simp)
  · rename_i hrunning
    cases hstep
    exact h.call (h.active_of_running hrunning) rfl rfl rfl (fun g => barrier_of_abandon) (by simp)
  · cases hstep

theorem Coherent.cancel (h : s.Coherent config) (hstep : s.cancel = some s') :
    s'.Coherent config := by
  unfold Shard.cancel at hstep
  split at hstep
  · rename_i hrunning
    cases hstep
    exact h.idle hrunning (by simp)
  · rename_i hrunning
    cases hstep
    exact h.call (h.active_of_running hrunning) rfl rfl rfl (fun g => barrier_of_abandon) (by simp)
  · cases hstep

theorem Coherent.finish (h : s.Coherent config) (hstep : s.finish = some s') :
    s'.Coherent config := by
  unfold Shard.finish at hstep
  split at hstep
  · rename_i hrunning
    cases hstep
    exact h.idle hrunning (by simp)
  · cases hstep

/-! ## The writer and the loads -/

variable {succeeds replyLost : Bool}

theorem Coherent.writer_append {r : LogRecord} {awaited : Bool} (h : s.Coherent config)
    (hmailbox : s.mailbox = .append r awaited :: mailbox)
    (hstep : s.writer succeeds replyLost = some s') : s'.Coherent config := by
  have happends : appends s.mailbox = (r, awaited) :: appends mailbox := by
    rw [hmailbox]
    rfl
  unfold Shard.writer at hstep
  rw [hmailbox] at hstep
  cases hstep
  refine ⟨fun hrunning => ?_, h.dropped, fun hactive hcertain => ?_,
    fun hloading phase hphase => ?_, fun g hg => ?_⟩
  · refine h.running fun hnone => hrunning ?_
    simp [hnone]
  · -- An active shard has the append of its own call in the mailbox only.
    have hserves := h.serves hactive hcertain
    unfold Serves at hserves
    split at hserves
    · rw [happends] at hserves
      exact absurd hserves.1 (by simp)
    · rw [happends] at hserves
      exact absurd hserves.1 (by simp)
    · rename_i todo r' hrunning
      obtain ⟨hone, hlive, hfits⟩ := hserves
      rw [happends] at hone
      simp only [cons.injEq, Prod.mk.injEq] at hone
      obtain ⟨⟨rfl, rfl⟩, hrest⟩ := hone
      simp only [hrunning, if_true, Option.map_some]
      cases replyLost with
      | true => exact hrest
      | false =>
        cases succeeds with
        | true => exact ⟨hrest, hfits, s.log, rfl, rfl, hlive⟩
        | false => exact ⟨hrest, hlive⟩
    · rw [happends] at hserves
      exact absurd hserves.1 (by simp)
    · rw [happends] at hserves
      exact absurd hserves.1 (by simp)
    · rw [happends] at hserves
      cases hserves
  · -- A load that reads has seen the last append.
    have hload := h.loads hloading phase hphase
    cases phase with
    | start => exact fun c hc => hload c (by rw [hmailbox]; exact mem_cons_of_mem _ hc)
    | waiting =>
      intro pre post hsplit
      refine hload (.append r awaited :: pre) post ?_
      dsimp only at hsplit
      rw [hmailbox, hsplit]
      rfl
    | reading n replayed =>
      rw [Loads, happends] at hload
      exact absurd hload.1 (by simp)
    | ended result =>
      cases result with
      | none => trivial
      | some replayed =>
        rw [Loads, happends] at hload
        exact absurd hload.1 (by simp)
  · obtain ⟨hnone, hbarrier⟩ := h.later g hg
    exact ⟨hnone, fun c hc => hbarrier c (by rw [hmailbox]; exact mem_cons_of_mem _ hc)⟩

theorem Serves.congr (h : s.Serves config) (hlogStart : s'.logStart = s.logStart)
    (hlog : s'.log = s.log) (hlive : s'.live = s.live) (hrunning : s'.running = s.running)
    (happends : appends s'.mailbox = appends s.mailbox) : s'.Serves config := by
  unfold Serves Shard.replayed at h ⊢
  rw [hrunning, happends, hlive, hlog, hlogStart]
  exact h

theorem Coherent.load {phase : LoadPhase} (h : s.Coherent config)
    (hg : (s.loads g).isSome) (happends : appends mailbox = appends s.mailbox)
    (hbarriers : ∀ g', s.generation < g' → ∀ c ∈ mailbox, c ≠ .barrier g')
    (hcurrent : s.status = .loading → g = s.generation →
      Loads config { s with mailbox := mailbox } phase)
    (hothers : g ≠ s.generation → ∀ phase', s.status = .loading →
      s.loads s.generation = some phase' → Loads config { s with mailbox := mailbox } phase') :
    Coherent config ({ s with mailbox := mailbox }.setLoad g (some phase)) := by
  have hle : g ≤ s.generation := by
    by_contra hgt
    rw [(h.later g (by omega)).1] at hg
    cases hg
  refine ⟨h.running, h.dropped, fun hactive hcertain => ?_, fun hloading phase' hphase' => ?_,
    fun g' hg' => ⟨?_, hbarriers g' hg'⟩⟩
  · exact (h.serves hactive hcertain).congr rfl rfl rfl rfl happends
  · by_cases heq : s.generation = g
    · simp only [setLoad, heq, if_true, Option.some.injEq] at hphase'
      subst hphase'
      exact hcurrent hloading heq.symm
    · simp only [setLoad, heq, if_false] at hphase'
      exact hothers (Ne.symm heq) phase' hloading hphase'
  · simp only [setLoad] at hg' ⊢
    rw [if_neg (by omega)]
    exact (h.later g' hg').1

theorem Coherent.writer_barrier
    (h : s.Coherent config) (hmailbox : s.mailbox = .barrier g :: mailbox)
    (hstep : s.writer succeeds replyLost = some s') : s'.Coherent config := by
  have happends : appends mailbox = appends s.mailbox := by
    rw [hmailbox]
    rfl
  have hlater : ∀ g', s.generation < g' → ∀ c ∈ mailbox, c ≠ .barrier g' := fun g' hg' c hc =>
    (h.later g' hg').2 c (by rw [hmailbox]; exact mem_cons_of_mem _ hc)
  unfold Shard.writer at hstep
  rw [hmailbox] at hstep
  dsimp only at hstep
  -- What the other phases say does not depend on the barrier.
  have hkept : ∀ phase, s.loads s.generation = some phase → s.status = .loading →
      phase ≠ .waiting ∨ g ≠ s.generation →
      Loads config { s with mailbox := mailbox } phase := by
    intro phase hphase hloading hor
    have hload := h.loads hloading phase hphase
    cases phase with
    | start => exact fun c hc => hload c (by rw [hmailbox]; exact mem_cons_of_mem _ hc)
    | waiting =>
      intro pre post hsplit
      dsimp only at hsplit
      exact hload (.barrier g :: pre) post (by rw [hmailbox, hsplit]; rfl)
    | reading n replayed => exact ⟨happends.trans hload.1, hload.2⟩
    | ended result =>
      cases result with
      | none => trivial
      | some replayed => exact ⟨happends.trans hload.1, hload.2⟩
  split at hstep
  · rename_i hwaiting
    cases hstep
    refine h.load (by simp [hwaiting]) happends hlater (fun hloading heq => ?_)
      fun hne phase hloading hphase => hkept phase hphase hloading (.inr hne)
    subst heq
    -- Its own barrier: every append stood in front of it.
    exact ⟨h.loads hloading .waiting hwaiting [] mailbox hmailbox, Nat.zero_le _, rfl⟩
  · rename_i hnot
    cases hstep
    refine ⟨h.running, h.dropped, fun hactive hcertain => ?_, fun hloading phase hphase => ?_,
      fun g' hg' => ⟨(h.later g' hg').1, hlater g' hg'⟩⟩
    · exact (h.serves hactive hcertain).congr rfl rfl rfl rfl happends
    · refine hkept phase hphase hloading ?_
      by_cases heq : g = s.generation
      · left
        rintro rfl
        exact hnot (by rw [heq]; exact hphase)
      · exact .inr heq

theorem Coherent.writer (h : s.Coherent config)
    (hstep : s.writer succeeds replyLost = some s') : s'.Coherent config := by
  cases hmailbox : s.mailbox with
  | nil =>
    unfold Shard.writer at hstep
    rw [hmailbox] at hstep
    cases hstep
  | cons c mailbox =>
    cases c with
    | append r awaited => exact h.writer_append hmailbox hstep
    | barrier g => exact h.writer_barrier hmailbox hstep

theorem Coherent.refresh (h : s.Coherent config) (hstep : s.refresh = some s') :
    s'.Coherent config := by
  unfold Shard.refresh at hstep
  split at hstep
  · rename_i hnone
    split at hstep
    · cases hstep
      obtain ⟨-, hbarrier⟩ := h.later (s.generation + 1) (by omega)
      refine ⟨fun hne => absurd hnone hne, fun _ => rfl,
        fun hactive => absurd hactive (by simp [setLoad]), fun _ phase hphase => ?_, fun g hg => ?_⟩
      · simp only [setLoad, if_true, Option.some.injEq] at hphase
        subst hphase
        exact hbarrier
      · simp only [setLoad] at hg ⊢
        rw [if_neg (by omega)]
        exact h.later g (by omega)
    · cases hstep
  · cases hstep

theorem nil_of_concat_barrier {pre post : List Command} {c : Command} (hc : c ∉ mailbox)
    (h : mailbox ++ [c] = pre ++ c :: post) : post = [] := by
  rcases eq_nil_or_concat post with rfl | ⟨init, last, rfl⟩
  · rfl
  · exfalso
    rw [concat_eq_append, ← cons_append, ← append_assoc] at h
    have hinit := (append_inj' h rfl).1
    exact hc (by rw [hinit]; simp)

theorem Coherent.loadBarrier (h : s.Coherent config)
    (hstep : s.loadBarrier g = some s') : s'.Coherent config := by
  unfold Shard.loadBarrier at hstep
  split at hstep
  · rename_i hphase
    cases hstep
    have hle : g ≤ s.generation := by
      by_contra hgt
      rw [(h.later g (by omega)).1] at hphase
      cases hphase
    have happends : appends (s.mailbox ++ [.barrier g]) = appends s.mailbox := by
      rw [appends_append]
      exact append_nil _
    refine h.load (by simp [hphase]) happends (fun g' hg' c hc => ?_) (fun hloading heq => ?_)
      fun hne phase' hloading hphase' => ?_
    · rcases mem_append.mp hc with hc | hc
      · exact (h.later g' hg').2 c hc
      · obtain rfl := mem_singleton.mp hc
        simp only [ne_eq, Command.barrier.injEq]
        omega
    · subst heq
      have hnone := h.loads hloading .start hphase
      intro pre post hsplit
      rw [nil_of_concat_barrier (fun hc => hnone _ hc rfl) hsplit]
      rfl
    · have hload := h.loads hloading phase' hphase'
      cases phase' with
      | start =>
        intro c hc
        rcases mem_append.mp hc with hc | hc
        · exact hload c hc
        · obtain rfl := mem_singleton.mp hc
          simpa using hne
      | waiting =>
        intro pre post hsplit
        rcases eq_nil_or_concat post with rfl | ⟨init, last, rfl⟩
        · rfl
        · rw [concat_eq_append, ← cons_append, ← append_assoc] at hsplit
          obtain ⟨hinit, hlast⟩ := append_inj' hsplit rfl
          rw [concat_eq_append, appends_append, hload pre init hinit]
          rw [← hlast]
          rfl
      | reading n replayed => exact ⟨happends.trans hload.1, hload.2⟩
      | ended result =>
        cases result with
        | none => trivial
        | some replayed => exact ⟨happends.trans hload.1, hload.2⟩
  · cases hstep

theorem Coherent.loadRead (h : s.Coherent config)
    (hstep : s.loadRead config g = some s') : s'.Coherent config := by
  unfold Shard.loadRead at hstep
  split at hstep
  · rename_i n replayed hphase
    have hsame : ∀ phase : LoadPhase, (s.status = .loading → g = s.generation →
        Loads config s phase) → Coherent config (s.setLoad g (some phase)) := fun phase hcurrent =>
      h.load (by simp [hphase]) rfl (fun g' hg' => (h.later g' hg').2) hcurrent
        fun _ phase' hloading hphase' => h.loads hloading phase' hphase'
    split at hstep
    · rename_i r hr
      cases hstep
      refine hsame _ fun hloading heq => ?_
      subst heq
      obtain ⟨happends, hn, rfl⟩ := h.loads hloading _ hphase
      have hlt : n < s.log.length := (List.getElem?_eq_some_iff.mp hr).1
      refine ⟨happends, hlt, ?_⟩
      rw [List.take_add_one, hr, Option.toList_some, StateMap.replay_concat,
        List.length_take_of_le hn]
    · rename_i hr
      cases hstep
      refine hsame _ fun hloading heq => ?_
      subst heq
      obtain ⟨happends, hn, rfl⟩ := h.loads hloading _ hphase
      refine ⟨happends, ?_⟩
      rw [List.take_of_length_le (List.getElem?_eq_none_iff.mp hr)]
      rfl
  · cases hstep

theorem Coherent.loadFail (h : s.Coherent config) (hstep : s.loadFail g = some s') :
    s'.Coherent config := by
  unfold Shard.loadFail at hstep
  split at hstep
  · cases hstep
  · cases hstep
  · rename_i hphase
    cases hstep
    exact h.load (by simp [hphase]) rfl (fun g' hg' => (h.later g' hg').2) (fun _ _ => trivial)
      fun _ phase' hloading hphase' => h.loads hloading phase' hphase'

theorem Coherent.install (h : s.Coherent config) (hstep : s.install g = some s') :
    s'.Coherent config := by
  unfold Shard.install at hstep
  split at hstep
  · rename_i result hrunning hphase
    have hlater : ∀ g', s.generation < g' →
        (if g' = g then none else s.loads g') = none ∧ ∀ c ∈ s.mailbox, c ≠ .barrier g' := by
      intro g' hg'
      obtain ⟨hnone, hbarrier⟩ := h.later g' hg'
      exact ⟨by split <;> first | rfl | exact hnone, hbarrier⟩
    split at hstep
    · rename_i hcurrent
      obtain ⟨rfl, hloading⟩ := hcurrent
      have hempty := h.dropped (by simp [hloading])
      have hload := h.loads hloading _ hphase
      cases result with
      | some replayed =>
        cases hstep
        obtain ⟨happends, rfl⟩ := hload
        refine ⟨fun _ => rfl, fun hne => absurd rfl hne, fun _ _ => ?_,
          fun hne => absurd hne (by simp), hlater⟩
        simp only [setLoad, hrunning]
        refine ⟨happends, funext fun key => ?_⟩
        rw [hempty]
        exact Option.or_none
      | none =>
        cases hstep
        refine ⟨fun hne => absurd hrunning hne, fun _ => hempty, fun hactive => ?_,
          fun hloads => ?_, hlater⟩
        · exact absurd hactive (by simp only; split <;> simp)
        · exact absurd hloads (by simp only; split <;> simp)
    · cases hstep
      refine ⟨h.running, h.dropped, fun hactive hcertain => ?_, fun hloading phase' hphase' => ?_,
        hlater⟩
      · exact (h.serves hactive hcertain).congr rfl rfl rfl rfl rfl
      · simp only [setLoad] at hphase'
        split at hphase'
        · cases hphase'
        · exact h.loads hloading phase' hphase'
  · cases hstep

end Shard

end

/-! ## Runs -/

section

variable {config : ShareCoordinatorConfig} {s s' : Shard}

theorem Shard.Starts.coherent (h : s.Starts) : s.Coherent config := by
  obtain ⟨hrunning, hlive, hstatus, hloads, hbarriers⟩ := h
  refine ⟨fun hne => absurd hrunning hne, fun _ => hlive, fun hactive => ?_,
    fun hloading phase hphase => ?_, fun g hg => ⟨hloads g hg, hbarriers g hg.le⟩⟩
  · rcases hstatus with ⟨h, -⟩ | ⟨h, -⟩ <;> rw [h] at hactive <;> cases hactive
  · rcases hstatus with ⟨-, h⟩ | ⟨h, -⟩
    · rw [h] at hphase
      cases hphase
      exact hbarriers s.generation le_rfl
    · rw [h] at hloading
      cases hloading

theorem Shard.Coherent.run {a : ShardAction} (h : s.Coherent config)
    (hstep : s.run config a = some s') : s'.Coherent config := by
  cases a with
  | start call => exact h.start hstep
  | decide now => exact h.decide hstep
  | fail => exact h.fail hstep
  | writer succeeds replyLost => exact h.writer hstep
  | resume => exact h.resume hstep
  | timeout => exact h.timeout hstep
  | cancel => exact h.cancel hstep
  | finish => exact h.finish hstep
  | refresh => exact h.refresh hstep
  | loadBarrier g => exact h.loadBarrier hstep
  | loadRead g => exact h.loadRead hstep
  | loadFail g => exact h.loadFail hstep
  | install g => exact h.install hstep

theorem coherent_of_reachable (h : (shard config).Reachable s) : s.Coherent config := by
  refine h.invariant (P := Shard.Coherent config) ?_ ?_
  · intro s hs
    exact Shard.Starts.coherent hs
  · intro s a s' hs hstep
    exact hs.run hstep

/-- **The live share state is the log**: whenever `active` lets a call in, the
state map is what a replay of the whole log gives. -/
theorem live_state_equals_log {call : Call} (h : (shard config).Reachable s)
    (hstep : (shard config).step s (.start call) s') :
    s.live = .replay config s.logStart s.log .empty := by
  have hcoherent := coherent_of_reachable h
  have hstart : s.start call = some s' := hstep
  unfold Shard.start at hstart
  split at hstart
  · rename_i hrunning hok
    obtain ⟨hcertain, hactive⟩ := Shard.active_eq_ok hok
    have hserves := hcoherent.serves hactive hcertain
    rw [Shard.Serves, hrunning] at hserves
    exact hserves.2
  · cases hstart

end

def emptyShard : Shard where
  logStart := 0
  log := []
  mailbox := []
  live := .empty
  uncertain := false
  status := .loading
  generation := 0
  running := none
  loads := fun g => if g = 0 then some .start else none

def firstKey : StateKey := ⟨"g", 0, 0⟩

def registers : Work := .initializeState (fun _ _ => true) firstKey 1 0

/-- The log is loaded, a caller is dropped while its record is written, and the
shard is loaded again. -/
def abandonedAppend : List ShardAction :=
  [.loadBarrier 0, .writer true false, .loadRead 0, .install 0, .start (.request registers),
    .decide 7, .cancel, .refresh, .loadBarrier 1, .writer true false, .writer true false,
    .loadRead 1, .loadRead 1, .install 1]

def reloaded : Shard :=
  (abandonedAppend.foldlM (Shard.run ⟨500, 300000, false⟩) emptyShard).getD emptyShard

theorem reloaded_reachable : (shard ⟨500, 300000, false⟩).Reachable reloaded := by
  have hinit : (shard ⟨500, 300000, false⟩).init emptyShard :=
    ⟨rfl, rfl, .inl ⟨rfl, rfl⟩, fun g hg => if_neg (by have : 0 < g := hg; omega),
      fun g _ c hc => absurd hc (by simp [emptyShard])⟩
  have hfold : abandonedAppend.foldlM (Shard.run ⟨500, 300000, false⟩) emptyShard = some reloaded :=
    rfl
  exact .foldlM (.init hinit) (fun _ _ _ h => h) hfold

/-- The next call finds the state that the abandoned append has written. -/
theorem live_state_equals_log_abandoned :
    ∃ s', (shard ⟨500, 300000, false⟩).step reloaded (.start (.request registers)) s' ∧
      (reloaded.live firstKey).isSome ∧
      reloaded.live = .replay ⟨500, 300000, false⟩ reloaded.logStart reloaded.log .empty := by
  obtain ⟨s', hstep⟩ : ∃ s', (shard ⟨500, 300000, false⟩).step reloaded
      (.start (.request registers)) s' := ⟨_, rfl⟩
  exact ⟨s', hstep, rfl, live_state_equals_log reloaded_reachable hstep⟩

end Krabka.ShareCoordinator

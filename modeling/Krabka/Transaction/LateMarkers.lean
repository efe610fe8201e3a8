import Krabka.Produce.Writer
import Krabka.Lib.Transition
import Krabka.Transaction.Marker

/-!
# Late markers and the transactions after theirs

One producer id of a coordinator at transaction version 2, and one partition.  A
transaction is named by the epoch that it runs at: its preparation raises the
epoch, its markers carry the raised one, and at the last epoch the coordinator
moves on to another producer id.  A marker of any prepared transaction may arrive
at any time, any number of times and from any coordinator term, and so may a data
batch of any transaction that registered the partition.

Between its admission and its append a marker can be overtaken by the first data
batch of the next transaction, which it then closes.  Where the producer's state
at the append is the one that the admission read, every marker that closes a
transaction closes its own, and no transaction is closed twice.
-/

namespace Krabka.Transaction

open Krabka.Log Krabka.Produce List

variable {ρ : Type}

/-- The coordinator's entry of the producer id. -/
inductive Phase where
  | idle
  | ongoing
  | prepared
  /-- The transactional id moved on to another producer id. -/
  | rotated
  deriving DecidableEq

/-- A marker that closed an open transaction: the transactions of the data since
the marker before it, and the transaction that it was sent for. -/
structure Closing where
  closed : List Int
  sentFor : Int
  deriving DecidableEq

structure Admitted where
  sentFor : Int
  marker : MarkerAppend
  /-- What the admission read. -/
  current : MarkerPartitionState
  deriving DecidableEq

structure World where
  partition : MarkerPartition
  /-- The marker that holds the partition's guard. -/
  admitted : Option Admitted
  epoch : Int
  phase : Phase
  /-- The transactions that registered the partition. -/
  registered : List Int
  prepared : List Int
  /-- The transactions of which a marker was acknowledged. -/
  acknowledged : List Int
  /-- The transactions of the data since the last end marker. -/
  opened : List Int
  closings : List Closing
  deriving DecidableEq

inductive Op (ρ : Type) where
  /-- `AddPartitionsToTxn`, of this partition or of another one. -/
  | register (here : Bool)
  | append (b : RecordBatch ρ) (verifications : SortedMap Int VerificationState) (guard : Nat)
  | prepare
  | receive (sentFor : Int) (m : MarkerAppend) (resolved : Bool)
  | land (outcome : WriterOutcome) (leaderEpoch now : Int)
  | complete
  /-- `InitProducerId` with no transaction open. -/
  | bump
  /-- A batch of another producer. -/
  | other (b : RecordBatch ρ)

variable (site : MarkerSite) (producerId : Int)

variable (s : World)

/-- What a marker of the producer finds on the partition. -/
def World.current : MarkerPartitionState :=
  transactionMarkerState s.partition.log producerId

/-- The log as the writer's check of a data batch sees it. -/
def World.leaderLog (verifications : SortedMap Int VerificationState) : LeaderLog ρ :=
  { LeaderLog.empty with
    producers := s.partition.log.producerState
    verifications := verifications }

def World.appended (b : RecordBatch ρ) : Option MarkerPartition :=
  let b := { b with baseOffset := s.partition.logEnd }
  match s.partition.log.appendOwned b with
  | .error _ => none
  | .ok (log, _) => some { s.partition with log := log, logEnd := b.lastOffset + 1 }

/-- The data batches of the producer that a writer takes. -/
def World.TakesData (b : RecordBatch ρ) (verifications : SortedMap Int VerificationState)
    (guard : Nat) : Prop :=
  b.producerId = producerId ∧ b.isControlBatch = false ∧ b.isTransactional = true ∧ Sequenced b ∧
    b.producerEpoch ∈ s.registered ∧
    (s.leaderLog verifications : LeaderLog ρ).checkTransactionalAppend b guard = .ok ()

instance (s : World) (b : RecordBatch ρ) (verifications : SortedMap Int VerificationState)
    (guard : Nat) : Decidable (s.TakesData producerId b verifications guard) :=
  inferInstanceAs (Decidable (_ ∧ _))

/-- The markers of the prepared transactions: a preparation at epoch `e` sends
markers at `e + 1`. -/
def World.Sends (sentFor : Int) (m : MarkerAppend) : Prop :=
  sentFor ∈ s.prepared ∧ m.producerId = producerId ∧ m.producerEpoch = sentFor + 1 ∧
    2 ≤ m.transactionVersion

instance (s : World) (sentFor : Int) (m : MarkerAppend) :
    Decidable (s.Sends producerId sentFor m) := inferInstanceAs (Decidable (_ ∧ _))

/-- What a marker that is in the log has closed. -/
def World.closing (a : Admitted) : List Closing :=
  if (s.current producerId).hasPendingTransaction then [⟨s.opened, a.sentFor⟩] else []

/-- The append of the admitted marker, which lets the guard go. -/
def World.land (a : Admitted) (outcome : WriterOutcome) (leaderEpoch now : Int) : World :=
  let (partition, answer) := landMarker site outcome leaderEpoch now s.partition a.marker
  let s' := { s with partition := partition, admitted := none }
  if partition.logEnd = s.partition.logEnd then s'
  else
    { s' with
      opened := []
      closings := s.closings ++ s.closing producerId a
      acknowledged := if answer.isOk then s.acknowledged ++ [a.sentFor] else s.acknowledged }

def World.step : Op ρ → Option World
  | .register here =>
    if s.phase = .idle ∨ s.phase = .ongoing then
      some { s with
        phase := .ongoing
        registered := if here then s.registered ++ [s.epoch] else s.registered }
    else none
  | .append b verifications guard =>
    if s.TakesData producerId b verifications guard then
      (s.appended b).map fun partition =>
        { s with partition := partition, opened := s.opened ++ [b.producerEpoch] }
    else none
  | .prepare =>
    if s.phase = .ongoing then
      some { s with phase := .prepared, epoch := s.epoch + 1, prepared := s.prepared ++ [s.epoch] }
    else none
  | .receive sentFor m resolved =>
    if s.admitted = none ∧ s.Sends producerId sentFor m then
      let (partition, answer) := admitMarker site resolved s.partition m
      some (match answer with
        | .error _ => { s with partition := partition }
        | .ok .retry =>
          { s with partition := partition, acknowledged := s.acknowledged ++ [sentFor] }
        | .ok (.append current) =>
          { s with partition := partition, admitted := some ⟨sentFor, m, current⟩ })
    else none
  | .land outcome leaderEpoch now =>
    s.admitted.map fun a => s.land site producerId a outcome leaderEpoch now
  | .complete =>
    -- every registered partition has acknowledged its marker
    if s.phase = .prepared ∧ (s.epoch - 1 ∈ s.registered → s.epoch - 1 ∈ s.acknowledged) then
      some { s with phase := if s.epoch < i16Max then .idle else .rotated }
    else none
  | .bump =>
    if s.phase = .idle then
      some (if s.epoch + 1 < i16Max then { s with epoch := s.epoch + 1 }
        else { s with phase := .rotated })
    else none
  | .other b =>
    if b.producerId ≠ producerId then
      (s.appended b).map fun partition => { s with partition := partition }
    else none

def World.Fresh : Prop :=
  0 ≤ producerId ∧ (s.current producerId).producerEpoch = -1 ∧
    (s.current producerId).hasPendingTransaction = false ∧ 0 ≤ s.epoch ∧ s.epoch < i16Max ∧
    s = ⟨s.partition, none, s.epoch, .idle, [], [], [], [], []⟩

/-- The runs of the producer id from its allocation on. -/
def markers : TransitionSystem World (Op ρ) where
  init s := s.Fresh producerId
  step s op s' := s.step site producerId op = some s'

/-- The producer's state at the append of a marker is the one it was admitted on. -/
def Undisturbed (op : Op ρ) (_ : World) : Prop :=
  match op, s.admitted with
  | .land .., some a => s.current producerId = a.current
  | _, _ => True

instance (s : World) (op : Op ρ) (s' : World) : Decidable (Undisturbed producerId s op s') := by
  unfold Undisturbed
  split <;> infer_instance

/-! ## The invariant -/

variable {site} {producerId} {s s' : World}

structure Inv (producerId : Int) (s : World) : Prop where
  producerId_nonneg : 0 ≤ producerId
  epoch_nonneg : 0 ≤ s.epoch
  epoch_lt : s.phase = .idle ∨ s.phase = .ongoing → s.epoch < i16Max
  current_le : (s.current producerId).producerEpoch ≤ s.epoch
  pending_iff : (s.current producerId).hasPendingTransaction = true ↔ s.opened ≠ []
  opened_eq : ∀ k ∈ s.opened, k = (s.current producerId).producerEpoch ∧ k ∈ s.registered
  registered_bounds : ∀ k ∈ s.registered, 0 ≤ k ∧ k < i16Max
  /-- A registered transaction is behind the partition's epoch, or it is the one
  that the coordinator is at. -/
  registered_cases : ∀ k ∈ s.registered, k < (s.current producerId).producerEpoch ∨
    s.phase = .ongoing ∧ k = s.epoch ∨ s.phase = .prepared ∧ k + 1 = s.epoch
  prepared_lt : ∀ k ∈ s.prepared, k < s.epoch
  acknowledged_lt : ∀ k ∈ s.acknowledged, k < (s.current producerId).producerEpoch
  admitted_sent : ∀ a, s.admitted = some a → s.Sends producerId a.sentFor a.marker ∧
    a.current.producerEpoch ≤ a.marker.producerEpoch ∧
    transactionMarkerEqualEpochFenced a.marker.transactionVersion a.marker.producerEpoch
      a.current.producerEpoch a.current.hasPendingTransaction = false
  closings_own : ∀ c ∈ s.closings,
    (∀ k ∈ c.closed, k = c.sentFor) ∧ c.sentFor < (s.current producerId).producerEpoch
  closings_once : s.closings.Pairwise fun c c' => c.sentFor ≠ c'.sentFor

variable {b : RecordBatch ρ}

theorem current_le_of_takesData
    {verifications : SortedMap Int VerificationState} {guard : Nat} (h : Inv producerId s)
    (hb : s.TakesData producerId b verifications guard) :
    (s.current producerId).producerEpoch ≤ b.producerEpoch := by
  obtain ⟨rfl, -, htxn, -, hreg, hcheck⟩ := hb
  have hnonneg := (h.registered_bounds _ hreg).1
  unfold World.current transactionMarkerState
  cases hentry : s.partition.log.producerState.get? b.producerId with
  | none =>
    dsimp only [Option.elim_none]
    omega
  | some e =>
    by_contra hlt
    have hstale : b.producerEpoch < e.producerEpoch := by simpa using hlt
    have hpid : ¬ b.producerId < 0 := not_lt.mpr h.producerId_nonneg
    have hongoing : ¬ e.producerEpoch = b.producerEpoch := by omega
    simp [LeaderLog.checkTransactionalAppend, World.leaderLog, LeaderLog.hasOngoingTransaction,
      hentry, htxn, hpid, hstale, hongoing] at hcheck

theorem Inv.at_coordinator (h : Inv producerId s) {k : Int} (hk : k ∈ s.registered)
    (hle : (s.current producerId).producerEpoch ≤ k) :
    s.phase = .ongoing ∧ k = s.epoch ∨ s.phase = .prepared ∧ k + 1 = s.epoch := by
  rcases h.registered_cases k hk with hlt | hat
  · omega
  · exact hat

variable {partition : MarkerPartition}

theorem current_appended (h : s.appended b = some partition) : ∃ row, s.partition.log.appendOwned
      { b with baseOffset := s.partition.logEnd } = .ok (partition.log, row) := by
  unfold World.appended at h
  dsimp only at h
  split at h
  · cases h
  · rename_i row happ
    cases h
    exact ⟨row, happ⟩

theorem Inv.append {verifications : SortedMap Int VerificationState}
    {guard : Nat} (h : Inv producerId s)
    (hb : s.TakesData producerId b verifications guard) (happ : s.appended b = some partition) :
    Inv producerId
      { s with partition := partition, opened := s.opened ++ [b.producerEpoch] } := by
  have hle := current_le_of_takesData h hb
  obtain ⟨rfl, hdata, htxn, hseq, hreg, -⟩ := hb
  obtain ⟨row, hrow⟩ := current_appended happ
  have hat := h.at_coordinator hreg hle
  obtain ⟨hepoch, hpending⟩ := markerState_data hrow hdata htxn h.producerId_nonneg hseq
  -- the open data is of the one transaction that the coordinator is at
  have hopened : ∀ k ∈ s.opened, k = b.producerEpoch := by
    intro k hk
    obtain ⟨hcurrent, hkreg⟩ := h.opened_eq k hk
    have hkat := h.at_coordinator hkreg hcurrent.ge
    grind
  exact {
    producerId_nonneg := h.producerId_nonneg
    epoch_nonneg := h.epoch_nonneg
    epoch_lt := h.epoch_lt
    current_le := by
      rw [World.current, hepoch]
      grind
    pending_iff := by simp [World.current, hpending]
    opened_eq := by
      intro k hk
      rw [World.current, hepoch]
      grind
    registered_bounds := h.registered_bounds
    registered_cases := by
      intro k hk
      rw [World.current, hepoch]
      grind [h.registered_cases k hk]
    prepared_lt := h.prepared_lt
    acknowledged_lt := by
      intro k hk
      rw [World.current, hepoch]
      exact (h.acknowledged_lt k hk).trans_le hle
    admitted_sent := h.admitted_sent
    closings_own := by
      intro c hc
      rw [World.current, hepoch]
      exact ⟨(h.closings_own c hc).1, (h.closings_own c hc).2.trans_le hle⟩
    closings_once := h.closings_once }

theorem Inv.of_current (h : Inv producerId s) (partition : MarkerPartition)
    (hepoch : (transactionMarkerState partition.log producerId).producerEpoch =
      (s.current producerId).producerEpoch)
    (hpending : (transactionMarkerState partition.log producerId).hasPendingTransaction =
      (s.current producerId).hasPendingTransaction) :
    Inv producerId { s with partition := partition } := by
  have hepoch' : (World.current producerId { s with partition := partition }).producerEpoch =
      (s.current producerId).producerEpoch := hepoch
  have hpending' :
      (World.current producerId { s with partition := partition }).hasPendingTransaction =
      (s.current producerId).hasPendingTransaction := hpending
  constructor <;> (try rw [hepoch']) <;> (try rw [hpending']) <;> cases h <;> assumption

theorem Inv.other (h : Inv producerId s)
    (hne : b.producerId ≠ producerId) (happ : s.appended b = some partition) :
    Inv producerId { s with partition := partition } := by
  obtain ⟨row, hrow⟩ := current_appended happ
  have hcurrent : transactionMarkerState partition.log producerId = s.current producerId :=
    markerState_other hrow hne
  exact h.of_current partition (by rw [hcurrent]) (by rw [hcurrent])

theorem Inv.register (h : Inv producerId s) (hphase : s.phase = .idle ∨ s.phase = .ongoing)
    (here : Bool) : Inv producerId { s with
      phase := .ongoing
      registered := if here then s.registered ++ [s.epoch] else s.registered } := by
  have hmem : ∀ k ∈ (if here then s.registered ++ [s.epoch] else s.registered),
      k ∈ s.registered ∨ k = s.epoch := by
    intro k hk
    split at hk <;> simp_all
  refine { h with
    epoch_lt := fun _ => h.epoch_lt hphase
    opened_eq := ?_
    registered_bounds := ?_
    registered_cases := ?_ }
  · intro k hk
    obtain ⟨hcurrent, hreg⟩ := h.opened_eq k hk
    refine ⟨hcurrent, ?_⟩
    dsimp only
    split
    · exact mem_append_left _ hreg
    · exact hreg
  · intro k hk
    rcases hmem k hk with hk | rfl
    · exact h.registered_bounds k hk
    · exact ⟨h.epoch_nonneg, h.epoch_lt hphase⟩
  · intro k hk
    rcases hmem k hk with hk | rfl
    · rcases h.registered_cases k hk with hlt | hongoing | ⟨hprepared, -⟩
      · exact .inl hlt
      · exact .inr (.inl ⟨rfl, hongoing.2⟩)
      · rw [hprepared] at hphase
        exact absurd hphase (by simp)
    · exact .inr (.inl ⟨rfl, rfl⟩)

theorem Inv.prepare (h : Inv producerId s) (hphase : s.phase = .ongoing) :
    Inv producerId { s with
      phase := .prepared, epoch := s.epoch + 1, prepared := s.prepared ++ [s.epoch] } := by
  have hnonneg := h.epoch_nonneg
  have hprepared := h.prepared_lt
  refine { h with
    epoch_nonneg := by dsimp only; omega
    epoch_lt := by simp
    current_le := h.current_le.trans (by dsimp only; omega)
    registered_cases := ?_
    prepared_lt := by grind
    admitted_sent := ?_ }
  · intro k hk
    rcases h.registered_cases k hk with hlt | ⟨-, rfl⟩ | ⟨hother, -⟩
    · exact .inl hlt
    · exact .inr (.inr ⟨rfl, rfl⟩)
    · rw [hphase] at hother
      cases hother
  · intro a ha
    obtain ⟨⟨hmem, hsent⟩, hrest⟩ := h.admitted_sent a ha
    exact ⟨⟨mem_append_left _ hmem, hsent⟩, hrest⟩

theorem Inv.complete (h : Inv producerId s) (hphase : s.phase = .prepared)
    (hacked : s.epoch - 1 ∈ s.registered → s.epoch - 1 ∈ s.acknowledged) :
    Inv producerId { s with phase := if s.epoch < i16Max then .idle else .rotated } := by
  refine { h with
    epoch_lt := by
      dsimp only
      split <;> simp_all
    registered_cases := ?_ }
  intro k hk
  rcases h.registered_cases k hk with hlt | ⟨hother, -⟩ | ⟨-, hk'⟩
  · exact .inl hlt
  · rw [hphase] at hother
    cases hother
  · -- the transaction itself: its marker was acknowledged
    obtain rfl : k = s.epoch - 1 := by omega
    exact .inl (h.acknowledged_lt _ (hacked hk))

theorem Inv.bump (h : Inv producerId s) (hphase : s.phase = .idle) :
    Inv producerId (if s.epoch + 1 < i16Max then { s with epoch := s.epoch + 1 }
      else { s with phase := .rotated }) := by
  have hbehind : ∀ k ∈ s.registered, k < (s.current producerId).producerEpoch := by
    intro k hk
    rcases h.registered_cases k hk with hlt | ⟨hother, -⟩ | ⟨hother, -⟩
    · exact hlt
    all_goals
      rw [hphase] at hother
      cases hother
  have hnonneg := h.epoch_nonneg
  split
  · rename_i hlt
    exact { h with
      epoch_nonneg := by dsimp only; omega
      epoch_lt := fun _ => hlt
      current_le := h.current_le.trans (by dsimp only; omega)
      registered_cases := fun k hk => .inl (hbehind k hk)
      prepared_lt := fun k hk => (h.prepared_lt k hk).trans (by dsimp only; omega) }
  · exact { h with
      epoch_lt := by simp
      registered_cases := fun k hk => .inl (hbehind k hk) }

theorem Inv.receive {sentFor : Int} {m : MarkerAppend} {resolved : Bool} (h : Inv producerId s)
    (hsent : s.Sends producerId sentFor m)
    (hstep : s.step site producerId (.receive sentFor m resolved : Op ρ) = some s') :
    Inv producerId s' := by
  have hlog := admitMarker_log site resolved s.partition m
  have hkept : Inv producerId { s with partition := (admitMarker site resolved s.partition m).1 } :=
    h.of_current _ (by rw [hlog]; rfl) (by rw [hlog]; rfl)
  unfold World.step at hstep
  dsimp only at hstep
  split at hstep
  · split at hstep
    · cases hstep
      exact hkept
    · -- an exact retry finds the epoch that the marker leaves
      rename_i hanswer
      cases hstep
      have hepoch := admission_retry (admitMarker_ok hanswer)
      rw [hsent.2.1, hsent.2.2.1] at hepoch
      refine { hkept with acknowledged_lt := ?_ }
      intro k hk
      rcases mem_append.mp hk with hk | hk
      · exact hkept.acknowledged_lt k hk
      · obtain rfl := mem_singleton.mp hk
        rw [World.current, hlog]
        omega
    · rename_i current hanswer
      cases hstep
      obtain ⟨-, hle, hfence⟩ := admission_append (admitMarker_ok hanswer)
      refine { hkept with admitted_sent := ?_ }
      rintro a ⟨⟩
      exact ⟨hsent, hle, hfence⟩
  · cases hstep

theorem Inv.sentFor_of_opened {a : Admitted} (h : Inv producerId s) (ha : s.admitted = some a)
    (hcurrent : s.current producerId = a.current) {k : Int}
    (hk : k ∈ s.opened) : k = a.sentFor := by
  obtain ⟨⟨hprepared, hpid, hepoch, hversion⟩, hle, hfence⟩ := h.admitted_sent a ha
  obtain ⟨hopen, hreg⟩ := h.opened_eq k hk
  have hpending : a.current.hasPendingTransaction = true :=
    hcurrent ▸ h.pending_iff.mpr (ne_nil_of_mem hk)
  have hlt := h.prepared_lt _ hprepared
  have hmax := (h.registered_bounds k hreg).2
  rw [hcurrent] at hopen
  -- no transaction runs at the last epoch, so the fence refused an equal epoch
  have hne : a.marker.producerEpoch ≠ a.current.producerEpoch := by
    intro heq
    have hlast : ¬ a.marker.producerEpoch = i16Max := by omega
    simp [transactionMarkerEqualEpochFenced, heq, hpending, hversion] at hfence
    omega
  have hat := h.at_coordinator hreg (by rw [hcurrent]; omega)
  omega

theorem Inv.land {a : Admitted} {outcome : WriterOutcome} {leaderEpoch now : Int}
    (h : Inv producerId s) (ha : s.admitted = some a)
    (hcurrent : s.current producerId = a.current) :
    Inv producerId (s.land site producerId a outcome leaderEpoch now) := by
  obtain ⟨⟨hprepared, hpid, hepoch, hversion⟩, hle, -⟩ := h.admitted_sent a ha
  unfold World.land
  dsimp only
  rcases landMarker_cases site outcome leaderEpoch now s.partition a.marker rfl with
    ⟨hend, row, hrow⟩ | ⟨hend, hlog⟩
  · have hmoved : ¬ (landMarker site outcome leaderEpoch now s.partition a.marker).1.logEnd =
        s.partition.logEnd := by omega
    rw [if_neg hmoved]
    obtain ⟨hnew, hclosed⟩ := markerState_marker (hpid ▸ h.producerId_nonneg) hrow
    rw [hpid, hepoch] at hnew
    rw [hpid] at hclosed
    have hgrow : (s.current producerId).producerEpoch ≤ a.sentFor + 1 := by rw [hcurrent]; omega
    have hlt := h.prepared_lt _ hprepared
    exact { h with
      current_le := by
        rw [World.current, hnew]
        dsimp only
        omega
      pending_iff := by simp [World.current, hclosed]
      opened_eq := by simp
      registered_cases := by
        intro k hk
        rw [World.current, hnew]
        exact (h.registered_cases k hk).imp (fun hk => hk.trans_le hgrow) id
      acknowledged_lt := by
        intro k hk
        rw [World.current, hnew]
        have hmem : k ∈ s.acknowledged ∨ k = a.sentFor := by
          split at hk <;> simp_all
        rcases hmem with hk | rfl
        · exact (h.acknowledged_lt k hk).trans_le hgrow
        · omega
      admitted_sent := by simp
      closings_own := by
        intro c hc
        rw [World.current, hnew]
        rcases mem_append.mp hc with hc | hc
        · exact ⟨(h.closings_own c hc).1, (h.closings_own c hc).2.trans_le hgrow⟩
        · unfold World.closing at hc
          split at hc
          · obtain rfl := mem_singleton.mp hc
            exact ⟨fun k hk => h.sentFor_of_opened ha hcurrent hk, by dsimp only; omega⟩
          · cases hc
      closings_once := by
        refine pairwise_append.mpr ⟨h.closings_once, ?_, ?_⟩
        · unfold World.closing
          split <;> simp
        · intro c hc c' hc'
          unfold World.closing at hc'
          split at hc'
          · -- an earlier closing is behind the epoch that the open data runs at
            rename_i hpending
            obtain rfl := mem_singleton.mp hc'
            obtain ⟨k, hk⟩ := exists_mem_of_ne_nil _ (h.pending_iff.mp hpending)
            have hown := h.sentFor_of_opened ha hcurrent hk
            have hopen := (h.opened_eq k hk).1
            have hbehind := (h.closings_own c hc).2
            dsimp only
            omega
          · exact absurd hc' (by simp) }
  · rw [if_pos hend]
    have hkept := h.of_current (landMarker site outcome leaderEpoch now s.partition a.marker).1
    rcases hlog with hlog | hlog <;> rw [hlog] at hkept
    · exact { hkept rfl rfl with admitted_sent := by simp }
    · -- a failed append notes the coordinator epoch and changes nothing else
      exact { hkept (by simp [World.current, transactionMarkerState])
        (by simp [World.current, transactionMarkerState]) with admitted_sent := by simp }

theorem Inv.step {op : Op ρ} (h : Inv producerId s) (hstep : s.step site producerId op = some s')
    (hok : Undisturbed producerId s op s') : Inv producerId s' := by
  cases op with
  | register here =>
    simp only [World.step, Option.ite_none_right_eq_some, Option.some.injEq] at hstep
    obtain ⟨hphase, rfl⟩ := hstep
    exact h.register hphase here
  | append b verifications guard =>
    simp only [World.step, Option.ite_none_right_eq_some, Option.map_eq_some_iff] at hstep
    obtain ⟨hb, partition, happ, rfl⟩ := hstep
    exact h.append hb happ
  | prepare =>
    simp only [World.step, Option.ite_none_right_eq_some, Option.some.injEq] at hstep
    obtain ⟨hphase, rfl⟩ := hstep
    exact h.prepare hphase
  | receive sentFor m resolved =>
    have hsent : s.Sends producerId sentFor m := by
      simp only [World.step, Option.ite_none_right_eq_some] at hstep
      exact hstep.1.2
    exact h.receive hsent hstep
  | land outcome leaderEpoch now =>
    simp only [World.step, Option.map_eq_some_iff] at hstep
    obtain ⟨a, ha, rfl⟩ := hstep
    simp only [Undisturbed, ha] at hok
    exact h.land ha hok
  | complete =>
    simp only [World.step, Option.ite_none_right_eq_some, Option.some.injEq] at hstep
    obtain ⟨⟨hphase, hacked⟩, rfl⟩ := hstep
    exact h.complete hphase hacked
  | bump =>
    simp only [World.step, Option.ite_none_right_eq_some, Option.some.injEq] at hstep
    obtain ⟨hphase, rfl⟩ := hstep
    exact h.bump hphase
  | other b =>
    simp only [World.step, Option.ite_none_right_eq_some, Option.map_eq_some_iff] at hstep
    obtain ⟨hne, partition, happ, rfl⟩ := hstep
    exact h.other hne happ

theorem inv_fresh (h : s.Fresh producerId) : Inv producerId s := by
  obtain ⟨hpid, hepoch, hpending, hnonneg, hlt, heq⟩ := h
  obtain ⟨partition, admitted, epoch, phase, registered, prepared, acknowledged, opened,
    closings⟩ := s
  simp only [World.mk.injEq, true_and] at heq
  obtain ⟨rfl, rfl, rfl, rfl, rfl, rfl, rfl⟩ := heq
  constructor <;> simp_all
  omega

/-- Where no marker is overtaken between its admission and its append, every marker
that closes a transaction was sent for it, and no transaction is closed twice. -/
theorem late_markers_close_own
    (h : ((markers site producerId : TransitionSystem World (Op ρ)).restrict
      (Undisturbed producerId)).Reachable s) :
    ((s.current producerId).hasPendingTransaction = true ↔ s.opened ≠ []) ∧
      (∀ c ∈ s.closings, ∀ k ∈ c.closed, k = c.sentFor) ∧
      ∀ k, (s.closings.filter fun c => k ∈ c.closed).length ≤ 1 := by
  have hinv : Inv producerId s := by
    induction h with
    | init hfresh => exact inv_fresh hfresh
    | step _ hstep ih => exact ih.step hstep.1 hstep.2
  refine ⟨hinv.pending_iff, fun c hc => (hinv.closings_own c hc).1, fun k => ?_⟩
  by_contra hmany
  obtain ⟨c, c', hsub⟩ : ∃ c c', [c, c'].Sublist (s.closings.filter fun c => k ∈ c.closed) := by
    generalize s.closings.filter (fun c => k ∈ c.closed) = cs at hmany
    match cs with
    | [] | [_] => exact absurd hmany (by simp)
    | c :: c' :: rest => exact ⟨c, c', by simp⟩
  have hclosed : ∀ d ∈ [c, c'], k = d.sentFor := by
    intro d hd
    obtain ⟨hmem, hk⟩ := mem_filter.mp (hsub.subset hd)
    exact (hinv.closings_own d hmem).1 k (by simpa using hk)
  have honce := hinv.closings_once.sublist (hsub.trans filter_sublist)
  have hne : c.sentFor ≠ c'.sentFor := by simpa using honce
  exact hne (((hclosed c (by simp)).symm.trans (hclosed c' (by simp))))

/-- The transaction of an acknowledged marker is closed, and no writer takes data of it
any more. -/
theorem acknowledged_stays_closed
    (h : ((markers site producerId : TransitionSystem World (Op ρ)).restrict
      (Undisturbed producerId)).Reachable s) {k : Int} (hk : k ∈ s.acknowledged) :
    k ∉ s.opened ∧ ∀ (b : RecordBatch ρ) verifications guard, b.producerEpoch = k →
      ¬s.TakesData producerId b verifications guard := by
  have hinv : Inv producerId s := by
    refine h.invariant (fun _ => inv_fresh) ?_
    exact fun _ _ _ hs hstep => hs.step hstep.1 hstep.2
  have hlt := hinv.acknowledged_lt k hk
  constructor
  · intro hopen
    have := (hinv.opened_eq k hopen).1
    omega
  · intro b verifications guard hb htakes
    have := current_le_of_takesData hinv htakes
    omega

/-! ## Runs -/

def transactionalBatch (epoch : Int) : RecordBatch Unit where
  baseOffset := 0
  lastOffsetDelta := 0
  partitionLeaderEpoch := 0
  maxTimestamp := 0
  producerId := 7
  producerEpoch := epoch
  baseSequence := 0
  isTransactional := true
  deleteHorizonMs := none
  payload := .data [()]
  bodyLen := 10

/-- A verification that any first batch passes. -/
def verified (epoch : Int) : SortedMap Int VerificationState :=
  SortedMap.empty.insert 7 ⟨1, 0, epoch, 0, true⟩

def commitMarker (txn coordinatorEpoch : Int) : MarkerAppend :=
  ⟨7, txn + 1, .commit, coordinatorEpoch, none, 2⟩

def dataSite : MarkerSite := ⟨false, true⟩

def newWorld : World :=
  ⟨⟨.empty, 0, .empty⟩, none, 0, .idle, [], [], [], [], []⟩

def oneTransaction : List (Op Unit) :=
  [.register true, .append (transactionalBatch 0) (verified 0) 1, .prepare,
    .receive 0 (commitMarker 0 1) true, .land (.acknowledged true) 0 0, .complete]

/-- A copy from the next term passes its admission before the next transaction
writes, and lands after. -/
def overtaken : List (Op Unit) :=
  oneTransaction ++ [.receive 0 (commitMarker 0 2) true, .register true,
    .append (transactionalBatch 1) (verified 1) 1, .land (.acknowledged true) 0 0]

theorem newWorld_fresh : newWorld.Fresh 7 := by
  exact ⟨by decide, by decide, by decide, by decide, by decide, rfl⟩

/-- The partition after a run in which no marker is overtaken. -/
def undisturbedRun (ops : List (Op Unit)) : World :=
  TransitionSystem.runAll (World.step dataSite 7) (fun s op => Undisturbed 7 s op s) newWorld ops

theorem undisturbedRun_reachable (ops : List (Op Unit)) :
    ((markers dataSite 7 : TransitionSystem World (Op Unit)).restrict
      (Undisturbed 7)).Reachable (undisturbedRun ops) :=
  .runAll (.init newWorld_fresh) fun _ _ _ hstep hok => ⟨hstep, hok⟩

/-- A copy of the first marker comes from the next term while the second transaction
is open, and is refused. -/
def lateCopy : List (Op Unit) :=
  oneTransaction ++ [.register true, .append (transactionalBatch 1) (verified 1) 1,
    .receive 0 (commitMarker 0 2) true]

/-- The second transaction ends behind the late copy, and another copy comes after. -/
theorem late_markers_close_own_two :
    let s := undisturbedRun (lateCopy ++ [.prepare, .receive 1 (commitMarker 1 2) true,
      .land (.acknowledged true) 0 0, .receive 0 (commitMarker 0 3) true, .complete])
    s.closings = [⟨[0], 0⟩, ⟨[1], 1⟩] ∧ (∀ c ∈ s.closings, ∀ k ∈ c.closed, k = c.sentFor) ∧
      ∀ k, (s.closings.filter fun c => k ∈ c.closed).length ≤ 1 :=
  ⟨by decide +kernel, (late_markers_close_own (undisturbedRun_reachable _)).2⟩

theorem acknowledged_stays_closed_late :
    let s := undisturbedRun lateCopy
    s.opened = [1] ∧ 0 ∉ s.opened ∧ ∀ (b : RecordBatch Unit) verifications guard,
      b.producerEpoch = 0 → ¬s.TakesData 7 b verifications guard :=
  ⟨by decide +kernel, acknowledged_stays_closed (undisturbedRun_reachable lateCopy)
    (by decide +kernel)⟩

/-- A late marker of transaction 0 closes transaction 1. -/
theorem overtaken_marker_closes_next : ∃ s : World,
    (markers dataSite 7 : TransitionSystem World (Op Unit)).Reachable s ∧
      (⟨[1], 0⟩ : Closing) ∈ s.closings :=
  ⟨TransitionSystem.runAll (World.step dataSite 7) (fun _ _ => True) newWorld overtaken,
    .runAll (.init newWorld_fresh) fun _ _ _ hstep _ => hstep, by decide +kernel⟩

end Krabka.Transaction

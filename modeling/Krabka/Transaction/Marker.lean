import Krabka.Log.StateReplay

/-!
# Appending one transaction marker

`append_marker_and_materialize` admits a marker and then appends it.  The
admission reads the producer's state under the log lock and lets the lock go;
the append runs later in the partition's writer, which checks nothing about a
control batch.  The guard that spans the two keeps other markers of the
partition out, but no data batch.  The model has the two parts as the two
functions `admitMarker` and `landMarker`.
-/

namespace Krabka.Transaction

open Krabka.Log TransactionState

inductive MarkerType where
  | commit
  | abort
  deriving DecidableEq

structure MarkerAppend where
  producerId : Int
  producerEpoch : Int
  markerType : MarkerType
  coordinatorEpoch : Int
  commitStamp : Option Nat
  transactionVersion : Int
  deriving DecidableEq

/-- `TransactionMarkerPartitionState`. -/
structure MarkerPartitionState where
  producerEpoch : Int
  coordinatorEpoch : Int
  hasPendingTransaction : Bool
  deriving DecidableEq

def transactionMarkerState (s : TransactionState) (producerId : Int) : MarkerPartitionState where
  producerEpoch := (s.producerState.get? producerId).elim (-1) ProducerSnapshotEntry.producerEpoch
  coordinatorEpoch := s.coordinatorEpoch producerId
  hasPendingTransaction := s.pending.contains producerId

def i16Max : Int := 32767

def transactionMarkerEqualEpochFenced (transactionVersion producerEpoch currentProducerEpoch : Int)
    (hasPendingTransaction : Bool) : Bool :=
  transactionVersion ≥ 2 && producerEpoch = currentProducerEpoch && hasPendingTransaction &&
    producerEpoch ≠ i16Max

/-- `TransactionMarkerMaterializationDecision`. -/
inductive MaterializationDecision where
  | rejectMalformed
  | rejectProducerEpoch
  | rejectCoordinatorEpoch
  | retry
  | appendAndPublishOffsets
  | appendWithoutOffsetPublication
  deriving DecidableEq

def transactionMarkerMaterializationDecision (m : MarkerAppend) (isOffsetsPartition : Bool)
    (current : MarkerPartitionState) : MaterializationDecision :=
  if m.producerId < 0 ∨ m.producerEpoch < 0 ∨ m.coordinatorEpoch < -1 ∨
      current.producerEpoch < -1 ∨ current.coordinatorEpoch < -1 ∨
      (current.hasPendingTransaction ∧ current.producerEpoch = -1) then .rejectMalformed
  else if m.producerEpoch < current.producerEpoch then .rejectProducerEpoch
  else if m.coordinatorEpoch < current.coordinatorEpoch then .rejectCoordinatorEpoch
  else if !current.hasPendingTransaction ∧ m.producerEpoch = current.producerEpoch ∧
      m.coordinatorEpoch = current.coordinatorEpoch then .retry
  else if current.hasPendingTransaction ∧ m.markerType = .commit ∧ isOffsetsPartition then
    .appendAndPublishOffsets
  else .appendWithoutOffsetPublication

inductive BrokerError where
  | txn (text : String)
  | producerEpochFenced (producerId current requested : Int)
  | coordinatorEpochFenced (current requested : Int)
  /-- The group actors did not take the offsets. -/
  | unresolved
  /-- The writer failed or its acknowledgement was lost. -/
  | writer
  deriving DecidableEq

/-- Where a marker goes: whether to `__consumer_offsets`, and whether the caller
has the group coordinator. -/
structure MarkerSite where
  isOffsetsTopic : Bool
  hasGroupCoordinator : Bool
  deriving DecidableEq

/-- Whether a marker on the site resolves offset commits. -/
def MarkerSite.resolves (site : MarkerSite) : Bool :=
  site.isOffsetsTopic && site.hasGroupCoordinator

structure MarkerPartition where
  log : TransactionState
  logEnd : Int
  /-- `marker_materialization`: the resolutions that landed markers still owe. -/
  owed : SortedMap Int (MarkerType × Int)
  deriving DecidableEq

inductive Admission where
  /-- The log already holds this very marker. -/
  | retry
  | append (current : MarkerPartitionState)
  deriving DecidableEq

variable (site : MarkerSite)

/-- The resolution that the producer's last marker owes is made up for first. -/
def drainOwed (resolved : Bool) (p : MarkerPartition) (producerId : Int) :
    Except BrokerError MarkerPartition :=
  if p.owed.contains producerId then
    if !site.hasGroupCoordinator then
      .error (.txn "cannot retry committed offsets without a group coordinator")
    else if !resolved then .error .unresolved
    else .ok { p with owed := p.owed.erase producerId }
  else .ok p

/-- The checks on the state that the log lock shows. -/
def admission (log : TransactionState) (m : MarkerAppend) : Except BrokerError Admission :=
  let current := transactionMarkerState log m.producerId
  if transactionMarkerEqualEpochFenced m.transactionVersion m.producerEpoch current.producerEpoch
      current.hasPendingTransaction then
    .error (.producerEpochFenced m.producerId current.producerEpoch m.producerEpoch)
  else match transactionMarkerMaterializationDecision m site.isOffsetsTopic current with
    | .rejectMalformed => .error (.txn
        "transaction marker contains a malformed producer or coordinator generation")
    | .rejectProducerEpoch =>
      .error (.producerEpochFenced m.producerId current.producerEpoch m.producerEpoch)
    | .rejectCoordinatorEpoch =>
      .error (.coordinatorEpochFenced current.coordinatorEpoch m.coordinatorEpoch)
    | .retry => .ok .retry
    | .appendAndPublishOffsets | .appendWithoutOffsetPublication =>
      if site.isOffsetsTopic ∧ m.markerType = .commit ∧ !site.hasGroupCoordinator then
        .error (.txn "cannot commit transactional offsets without a group coordinator")
      else .ok (.append current)

/-- `append_marker_and_materialize` up to its append. -/
def admitMarker (resolved : Bool) (p : MarkerPartition) (m : MarkerAppend) :
    MarkerPartition × Except BrokerError Admission :=
  if m.commitStamp.isSome ∧ m.markerType ≠ .commit then
    (p, .error (.txn "a transaction commit stamp cannot be attached to an abort marker"))
  else match drainOwed site resolved p m.producerId with
    | .error e => (p, .error e)
    | .ok p => (p, admission site p.log m)

def buildMarkerBatch (m : MarkerAppend) (baseOffset leaderEpoch now : Int) : RecordBatch Unit where
  baseOffset := baseOffset
  lastOffsetDelta := 0
  partitionLeaderEpoch := leaderEpoch
  maxTimestamp := now
  producerId := m.producerId
  producerEpoch := m.producerEpoch
  baseSequence := -1
  isTransactional := true
  deleteHorizonMs := none
  payload := match m.markerType with
    | .commit => .control [(.commit m.coordinatorEpoch, ())]
    | .abort => .control [(.abort m.coordinatorEpoch, ())]
  bodyLen := 17

/-- What becomes of an append in the writer. -/
inductive WriterOutcome where
  /-- It is acknowledged, and the group actors take the offsets or do not. -/
  | acknowledged (resolved : Bool)
  /-- The marker is in the log, the acknowledgement is lost. -/
  | lost
  /-- Nothing is written; the coordinator epoch may have been noted before. -/
  | failed (noted : Bool)
  deriving DecidableEq

/-- `append_marker_and_materialize` from its append on. -/
def landMarker (outcome : WriterOutcome) (leaderEpoch now : Int) (p : MarkerPartition)
    (m : MarkerAppend) : MarkerPartition × Except BrokerError Int :=
  let b := buildMarkerBatch m p.logEnd leaderEpoch now
  match outcome, p.log.appendOwned b with
  | .failed noted, _ =>
    (if noted then { p with log := p.log.noteCoordinatorEpoch b } else p, .error .writer)
  | _, .error _ => (p, .error .writer)
  | outcome, .ok (log, _) =>
    let landed : MarkerPartition := { p with log := log, logEnd := p.logEnd + 1 }
    let owing : MarkerPartition :=
      { landed with owed := p.owed.insert m.producerId (m.markerType, p.logEnd) }
    match outcome with
    | .acknowledged resolved =>
      if !site.resolves then (landed, .ok (p.logEnd + 1))
      else if resolved then
        ({ landed with owed := p.owed.erase m.producerId }, .ok (p.logEnd + 1))
      else (owing, .error .unresolved)
    | _ => (if site.resolves then owing else landed, .error .writer)

/-! ## What the parts do to a producer -/

variable {site} {s s' : TransactionState} {m : MarkerAppend} {producerId : Int}
  {row : Option AbortedTxn}

variable {current : MarkerPartitionState}

theorem epoch_le_of_decision (isOffsetsPartition : Bool)
    (hformed : transactionMarkerMaterializationDecision m isOffsetsPartition current ≠
      .rejectMalformed)
    (hepoch : transactionMarkerMaterializationDecision m isOffsetsPartition current ≠
      .rejectProducerEpoch) : current.producerEpoch ≤ m.producerEpoch := by
  unfold transactionMarkerMaterializationDecision at hformed hepoch
  split_ifs at hformed hepoch <;> first | omega | contradiction

theorem epoch_eq_of_retry {isOffsetsPartition : Bool}
    (h : transactionMarkerMaterializationDecision m isOffsetsPartition current = .retry) :
    m.producerEpoch = current.producerEpoch := by
  unfold transactionMarkerMaterializationDecision at h
  split_ifs at h with _ _ _ hretry
  exact hretry.2.1

theorem admission_append (h : admission site s m = .ok (.append current)) :
    current = transactionMarkerState s m.producerId ∧ current.producerEpoch ≤ m.producerEpoch ∧
      transactionMarkerEqualEpochFenced m.transactionVersion m.producerEpoch current.producerEpoch
        current.hasPendingTransaction = false := by
  unfold admission at h
  dsimp only at h
  split at h
  · cases h
  · rename_i hfence
    have hread : current = transactionMarkerState s m.producerId := by
      split at h <;> grind
    refine ⟨hread, ?_, by simpa [hread] using hfence⟩
    subst hread
    refine epoch_le_of_decision site.isOffsetsTopic ?_ ?_ <;>
      (intro hd; rw [hd] at h; exact absurd h nofun)

theorem admission_retry (h : admission site s m = .ok .retry) :
    m.producerEpoch = (transactionMarkerState s m.producerId).producerEpoch := by
  unfold admission at h
  dsimp only at h
  split at h
  · cases h
  · split at h
    case h_4 hd => exact epoch_eq_of_retry hd
    all_goals grind

theorem admitMarker_log (site : MarkerSite) (resolved : Bool) (p : MarkerPartition)
    (m : MarkerAppend) :
    (admitMarker site resolved p m).1.log = p.log := by
  unfold admitMarker drainOwed
  grind

theorem admitMarker_ok {resolved : Bool} {p : MarkerPartition} {a : Admission}
    (h : (admitMarker site resolved p m).2 = .ok a) : admission site p.log m = .ok a := by
  unfold admitMarker drainOwed at h
  grind

section Appended

variable {ρ : Type} {b : RecordBatch ρ}

theorem updateControlEntry_producerEpoch (e : ProducerSnapshotEntry) (b : RecordBatch ρ) :
    (updateControlEntry e b).producerEpoch = b.producerEpoch := by
  unfold updateControlEntry
  dsimp only
  split <;> rfl

theorem markerState_other (h : s.appendOwned b = .ok (s', row)) (hne : b.producerId ≠ producerId) :
    transactionMarkerState s' producerId = transactionMarkerState s producerId := by
  have hentry : ∀ ps : ProducerState,
      (updateOwnedProducerEntry ps b).get? producerId = ps.get? producerId := by
    intro ps
    unfold updateOwnedProducerEntry updateDataProducerEntry
    split_ifs <;> simp [Ne.symm hne]
  unfold appendOwned applyTransactionMarker at h
  unfold transactionMarkerState coordinatorEpoch SortedMap.contains
  split at h
  · cases h
    rfl
  · split at h
    · cases h
    · rename_i happlied
      cases h
      dsimp only at happlied ⊢
      split at happlied
      · cases happlied
      · cases happlied
        simp [hentry, Ne.symm hne]
  · cases h
    split <;> simp [hentry, Ne.symm hne, recordPendingTransaction]

theorem markerState_data (h : s.appendOwned b = .ok (s', row)) (hdata : b.isControlBatch = false)
    (htxn : b.isTransactional = true) (hpid : 0 ≤ b.producerId) (hseq : Sequenced b) :
    (transactionMarkerState s' b.producerId).producerEpoch = b.producerEpoch ∧
      (transactionMarkerState s' b.producerId).hasPendingTransaction = true := by
  unfold appendOwned at h
  rw [controlBatchKind_eq_none.mpr hdata] at h
  cases h
  simp [transactionMarkerState, SortedMap.contains, htxn, hpid, hdata,
    updateOwnedProducerEntry_get? hpid hseq, updateDataEntry]

theorem markerState_marker {baseOffset leaderEpoch now : Int} (hpid : 0 ≤ m.producerId)
    (h : s.appendOwned (buildMarkerBatch m baseOffset leaderEpoch now) = .ok (s', row)) :
    (transactionMarkerState s' m.producerId).producerEpoch = m.producerEpoch ∧
      (transactionMarkerState s' m.producerId).hasPendingTransaction = false := by
  obtain ⟨b, hb⟩ : ∃ b, buildMarkerBatch m baseOffset leaderEpoch now = b := ⟨_, rfl⟩
  have hid : b.producerId = m.producerId := hb ▸ rfl
  have hcontrol : b.isControlBatch = true := by
    subst hb
    cases hm : m.markerType <;> simp [RecordBatch.isControlBatch, buildMarkerBatch, hm]
  have hkind : controlBatchKind b = some .transaction := by
    subst hb
    cases hm : m.markerType <;> simp [controlBatchKind, RecordBatch.isControlBatch,
      RecordBatch.controlMarker, buildMarkerBatch, hm]
  have hepoch : (markerCoordinatorEpoch b).isSome := by
    subst hb
    cases hm : m.markerType <;>
      simp [markerCoordinatorEpoch, RecordBatch.controlMarker, buildMarkerBatch, hm]
  rw [hb] at h
  unfold appendOwned applyTransactionMarker at h
  rw [hkind] at h
  dsimp only at h
  split at h
  · cases h
  · rename_i happlied
    cases h
    split at happlied
    · cases happlied
    · cases happlied
      have hseq : Sequenced b := by simp [Sequenced, hcontrol]
      have hentry := updateOwnedProducerEntry_get? (s := s.producerState) (hid ▸ hpid) hseq
        m.producerId
      simp [transactionMarkerState, SortedMap.contains, hepoch, hid, hentry, hcontrol,
        updateControlEntry_producerEpoch]
      exact hb ▸ rfl

end Appended

theorem landMarker_cases (site : MarkerSite) (outcome : WriterOutcome) (leaderEpoch now : Int)
    (p : MarkerPartition) (m : MarkerAppend) {r : MarkerPartition × _}
    (hr : landMarker site outcome leaderEpoch now p m = r) :
    (r.1.logEnd = p.logEnd + 1 ∧ ∃ row,
      p.log.appendOwned (buildMarkerBatch m p.logEnd leaderEpoch now) = .ok (r.1.log, row)) ∨
    (r.1.logEnd = p.logEnd ∧ (r.1.log = p.log ∨
      r.1.log = p.log.noteCoordinatorEpoch (buildMarkerBatch m p.logEnd leaderEpoch now))) := by
  subst hr
  unfold landMarker
  dsimp only
  split
  · split
    · exact .inr ⟨rfl, .inr rfl⟩
    · exact .inr ⟨rfl, .inl rfl⟩
  · exact .inr ⟨rfl, .inl rfl⟩
  · rename_i row _ happ
    refine .inl ⟨by split <;> split_ifs <;> rfl, row, ?_⟩
    rw [happ]
    split <;> split_ifs <;> rfl

end Krabka.Transaction

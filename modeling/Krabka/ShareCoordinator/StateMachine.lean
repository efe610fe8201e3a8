import Krabka.ShareCoordinator.State

/-!
# The operations of the share coordinator

`coordinator/state_machine.rs` and the two record-writing jobs of
`coordinator/jobs.rs`.  Every operation looks at the state of its key, and
either refuses, or answers, or appends one record; a job does so for one key
after the other.  `Work` is one such step, and `Work.record` the record that it
appends.

`StateMap.apply` is what the live path does with a record that was appended, and
`StateMap.replay` what the replay of the log does (`coordinator/recovery.rs`).
The source has them in different places; `apply_eq_replay` says that they agree.
The codec of the records is left out: a record is its decoded value.
-/

namespace Krabka.ShareCoordinator

open Krabka.Share Except

structure StateKey where
  group : String
  topicId : Nat
  partition : Int
  deriving DecidableEq

/-! ## Errors -/

namespace Code

def unknownTopicOrPartition : Int := 3
def coordinatorLoadInProgress : Int := 14
def notCoordinator : Int := 16
def invalidRequest : Int := 42
def fencedLeaderEpoch : Int := 74
def fencedStateEpoch : Int := 124

end Code

namespace Message

def negativePartitionId : String := "The partition id cannot be a negative number."
def negativeLeaderEpoch : String := "The leader epoch cannot be a negative number."
def negativeStateEpoch : String := "The state epoch cannot be a negative number."
def writeUninitializedSharePartition : String :=
  "Write operation on uninitialized share partition not allowed."
def readUninitializedSharePartition : String :=
  "Read operation on uninitialized share partition not allowed."
def unknownTopicOrPartition : String := "This server does not host this topic-partition."
def fencedLeaderEpoch : String :=
  "The leader epoch in the request is older than the epoch on the broker."
def fencedStateEpoch : String :=
  "The coordinator rejected the request because the state epoch did not match."

end Message

structure Refused where
  code : Int
  message : String
  deriving DecidableEq

def invalidRequest (message : String) : Refused := ⟨Code.invalidRequest, message⟩

def fencedLeaderEpoch : Refused := ⟨Code.fencedLeaderEpoch, Message.fencedLeaderEpoch⟩

def fencedStateEpoch : Refused := ⟨Code.fencedStateEpoch, Message.fencedStateEpoch⟩

/-! ## Records -/

inductive StateRecord
  | snapshot (v : ShareSnapshotValue)
  | update (v : ShareUpdateValue)
  deriving DecidableEq

/-- A record of the log; no value is a tombstone. -/
structure LogRecord where
  key : StateKey
  value : Option StateRecord
  deriving DecidableEq

structure ShareCoordinatorConfig where
  snapshotUpdateRecordsPerSnapshot : Nat
  coldPartitionSnapshotInterval : Int
  unstableRepeatInitializeNoop : Bool

/-- The topic partitions that the metadata image holds. -/
abbrev MetadataImage := Nat → Int → Bool

def checkTopicPartition (image : MetadataImage) (key : StateKey) : Except Refused Unit :=
  if image key.topicId key.partition then .ok ()
  else .error ⟨Code.unknownTopicOrPartition, Message.unknownTopicOrPartition⟩

def uninitializedStartOffset : Int := -1

def unknownDeliveryCompleteCount : Int := -1

def initialSnapshot (now snapshotEpoch stateEpoch startOffset : Int) : ShareSnapshotValue where
  snapshotEpoch := snapshotEpoch
  stateEpoch := stateEpoch
  leaderEpoch := 0
  startOffset := startOffset
  deliveryCompleteCount :=
    if startOffset = uninitializedStartOffset then unknownDeliveryCompleteCount else 0
  createTimestamp := now
  writeTimestamp := now
  stateBatches := []

structure ShareWrite where
  stateEpoch : Int
  leaderEpoch : Int
  startOffset : Int
  deliveryCompleteCount : Int
  batches : List StateBatch

structure Progress where
  leaderEpoch : Int
  startOffset : Int
  deliveryCompleteCount : Int
  batches : List StateBatch

def deliveryCompleteCount (stored : SharePartitionState) (requestStartOffset requestCount : Int) :
    Int :=
  if requestStartOffset = stored.startOffset then max requestCount stored.deliveryCompleteCount
  else if requestStartOffset < stored.startOffset then stored.deliveryCompleteCount
  else requestCount

section

variable (config : ShareCoordinatorConfig) (now : Int)

def shareStateRecord (st : SharePartitionState) (progress : Progress) : StateRecord :=
  let start := max progress.startOffset st.startOffset
  let count := deliveryCompleteCount st progress.startOffset progress.deliveryCompleteCount
  if st.updatesSinceSnapshot ≥ config.snapshotUpdateRecordsPerSnapshot then
    .snapshot
      { snapshotEpoch := wrap (st.snapshotEpoch + 1)
        stateEpoch := st.stateEpoch
        leaderEpoch := progress.leaderEpoch
        startOffset := start
        deliveryCompleteCount := count
        createTimestamp := now
        writeTimestamp := now
        stateBatches := combineStateBatches st.stateBatches progress.batches start }
  else
    .update
      { snapshotEpoch := st.snapshotEpoch
        leaderEpoch := progress.leaderEpoch
        startOffset := start
        deliveryCompleteCount := count
        stateBatches := combineStateBatches [] progress.batches start }

variable (entry : Option SharePartitionState)

/-- `initialize_in_term`, up to the append.  No record is an answer at once. -/
def initializeRecord (image : MetadataImage) (key : StateKey)
    (stateEpoch startOffset : Int) : Except Refused (Option StateRecord) :=
  if key.partition < 0 then .error (invalidRequest Message.negativePartitionId)
  else if stateEpoch < 0 then .error (invalidRequest Message.negativeStateEpoch)
  else
    match entry with
    | none => do
      checkTopicPartition image key
      return some (.snapshot (initialSnapshot now 0 stateEpoch startOffset))
    | some st =>
      if stateEpoch ≠ -1 ∧ st.fenceStateEpoch > stateEpoch then .error fencedStateEpoch
      else do
        checkTopicPartition image key
        if config.unstableRepeatInitializeNoop ∧ st.fenceStateEpoch = stateEpoch ∧
            st.startOffset = startOffset then
          return none
        else
          return some (.snapshot
            (initialSnapshot now (wrap (st.snapshotEpoch + 1)) stateEpoch startOffset))

/-- `write_in_term`, up to the append. -/
def writeRecord (image : MetadataImage) (key : StateKey)
    (request : ShareWrite) : Except Refused (Option StateRecord) :=
  if key.partition < 0 then .error (invalidRequest Message.negativePartitionId)
  else if request.leaderEpoch < 0 then .error (invalidRequest Message.negativeLeaderEpoch)
  else if request.stateEpoch < 0 then .error (invalidRequest Message.negativeStateEpoch)
  else
    match entry with
    | none => .error (invalidRequest Message.writeUninitializedSharePartition)
    | some st =>
      if request.leaderEpoch ≠ -1 ∧ st.fenceLeaderEpoch > request.leaderEpoch then
        .error fencedLeaderEpoch
      else if request.stateEpoch ≠ -1 ∧ st.fenceStateEpoch > request.stateEpoch then
        .error fencedStateEpoch
      else do
        checkTopicPartition image key
        -- A write never changes the leader epoch.  Only a read raises it.
        return some (shareStateRecord config now st
          ⟨st.leaderEpoch, request.startOffset, request.deliveryCompleteCount, request.batches⟩)

/-- `read_in_term`, up to the append. -/
def readRecord (image : MetadataImage) (key : StateKey)
    (leaderEpoch : Int) : Except Refused (Option StateRecord) :=
  if key.partition < 0 then .error (invalidRequest Message.negativePartitionId)
  else if leaderEpoch < 0 then .error (invalidRequest Message.negativeLeaderEpoch)
  else
    match entry with
    | none => .error (invalidRequest Message.readUninitializedSharePartition)
    | some st =>
      if leaderEpoch ≠ -1 ∧ st.fenceLeaderEpoch > leaderEpoch then .error fencedLeaderEpoch
      else do
        checkTopicPartition image key
        if leaderEpoch = -1 ∨ st.fenceLeaderEpoch = leaderEpoch then return none
        else
          return some (shareStateRecord config now st
            ⟨leaderEpoch, st.startOffset, st.deliveryCompleteCount, []⟩)

end

/-! ## Work -/

inductive Work
  | initializeState (image : MetadataImage) (key : StateKey) (stateEpoch startOffset : Int)
  | write (image : MetadataImage) (key : StateKey) (request : ShareWrite)
  | read (image : MetadataImage) (key : StateKey) (leaderEpoch : Int)
  | delete (image : MetadataImage) (key : StateKey)
  /-- One key of `cleanup_deleted_topics`. -/
  | cleanup (key : StateKey)
  /-- One key of `snapshot_cold_partitions`. -/
  | coldSnapshot (key : StateKey)

/-- The in-memory state of one state partition. -/
abbrev StateMap := StateKey → Option SharePartitionState

namespace StateMap

def empty : StateMap := fun _ => none

def insert (m : StateMap) (key : StateKey) (st : SharePartitionState) : StateMap :=
  fun k => if k = key then some st else m k

def remove (m : StateMap) (key : StateKey) : StateMap := fun k => if k = key then none else m k

end StateMap

/-- The record that a step appends, from the live state. -/
def Work.record (config : ShareCoordinatorConfig) (now : Int) (live : StateMap) :
    Work → Except Refused (Option LogRecord)
  | .initializeState image key stateEpoch startOffset => do
    let record ← initializeRecord config now (live key) image key stateEpoch startOffset
    return record.map fun r => ⟨key, some r⟩
  | .write image key request => do
    let record ← writeRecord config now (live key) image key request
    return record.map fun r => ⟨key, some r⟩
  | .read image key leaderEpoch => do
    let record ← readRecord config now (live key) image key leaderEpoch
    return record.map fun r => ⟨key, some r⟩
  | .delete image key =>
    if key.partition < 0 then .error (invalidRequest Message.negativePartitionId)
    else do
      checkTopicPartition image key
      return (live key).map fun _ => ⟨key, none⟩
  | .cleanup key => .ok ((live key).map fun _ => ⟨key, none⟩)
  | .coldSnapshot key =>
    match live key with
    | none => .ok none
    | some st =>
      if now - st.writeTimestamp < config.coldPartitionSnapshotInterval then .ok none
      else .ok (some ⟨key, some (.snapshot (st.toSnapshot (wrap (st.snapshotEpoch + 1)) now))⟩)

namespace StateMap

variable (config : ShareCoordinatorConfig)

/-- The live path after the append: `initialize_in_term` inserts a new key,
`append_state_record` changes the cell of a key, and `tombstone` drops it. -/
def apply (live : StateMap) (offset : Int) (r : LogRecord) : StateMap :=
  match r.value, live r.key with
  | none, _ => live.remove r.key
  | some (.snapshot v), none => live.insert r.key (.fromSnapshot v offset)
  | some (.snapshot v), some st =>
    live.insert r.key (st.applySnapshot v offset config.snapshotUpdateRecordsPerSnapshot)
  | some (.update v), some st => live.insert r.key (st.applyUpdate v)
  -- Only a key that has state is updated.
  | some (.update _), none => live

/-- `replay_value`, and the tombstone before it. -/
def replayRecord (replayed : StateMap) (offset : Int) (r : LogRecord) : StateMap :=
  match r.value with
  | none => replayed.remove r.key
  | some (.snapshot v) =>
    match replayed r.key with
    | some st =>
      replayed.insert r.key (st.applySnapshot v offset config.snapshotUpdateRecordsPerSnapshot)
    | none => replayed.insert r.key (.fromSnapshot v offset)
  | some (.update v) =>
    match replayed r.key with
    | some st => replayed.insert r.key (st.applyUpdate v)
    | none => replayed.insert r.key (.fromUpdate v)

/-- `replay_partition`: the records from `offset` on, folded into a map. -/
def replay : Int → List LogRecord → StateMap → StateMap
  | _, [], replayed => replayed
  | offset, r :: log, replayed => replay (offset + 1) log (replayRecord config replayed offset r)

theorem replay_append (offset : Int) (log log' : List LogRecord) (m : StateMap) :
    replay config offset (log ++ log') m =
      replay config (offset + log.length) log' (replay config offset log m) := by
  induction log generalizing offset m with
  | nil => simp [replay]
  | cons r log ih =>
    rw [List.cons_append, replay, replay, ih, List.length_cons]
    congr 1
    push_cast
    omega

theorem replay_concat (offset : Int) (log : List LogRecord) (r : LogRecord) (m : StateMap) :
    replay config offset (log ++ [r]) m =
      replayRecord config (replay config offset log m) (offset + log.length) r := by
  rw [replay_append]
  rfl

end StateMap

/-! ## What the steps append -/

/-- A record that the live path can apply: an update is of a key with state. -/
def LogRecord.Fits (r : LogRecord) (live : StateMap) : Prop :=
  ∀ v, r.value = some (.update v) → (live r.key).isSome

theorem apply_eq_replay (config : ShareCoordinatorConfig) {live : StateMap} {r : LogRecord}
    (h : r.Fits live) (offset : Int) :
    live.apply config offset r = live.replayRecord config offset r := by
  unfold StateMap.apply StateMap.replayRecord
  cases hvalue : r.value with
  | none => rfl
  | some record =>
    cases record with
    | snapshot v => cases live r.key <;> rfl
    | update v =>
      cases hlive : live r.key with
      | some st => rfl
      | none =>
        have hsome := h v hvalue
        rw [hlive] at hsome
        cases hsome

/-- The records that the steps write, as they depend on the state of the key. -/
inductive Written (config : ShareCoordinatorConfig) (now : Int) :
    Option SharePartitionState → Option StateRecord → Prop
  | first (stateEpoch startOffset : Int) (h : 0 ≤ stateEpoch) :
      Written config now none (some (.snapshot (initialSnapshot now 0 stateEpoch startOffset)))
  | again (st : SharePartitionState) (stateEpoch startOffset : Int) (h : 0 ≤ stateEpoch)
      (hfence : st.fenceStateEpoch ≤ stateEpoch) :
      Written config now (some st) (some (.snapshot
        (initialSnapshot now (wrap (st.snapshotEpoch + 1)) stateEpoch startOffset)))
  | progress (st : SharePartitionState) (leaderEpoch startOffset count : Int)
      (batches : List StateBatch)
      (h : leaderEpoch = st.leaderEpoch ∨ 0 ≤ leaderEpoch ∧ st.fenceLeaderEpoch < leaderEpoch) :
      Written config now (some st)
        (some (shareStateRecord config now st ⟨leaderEpoch, startOffset, count, batches⟩))
  | cold (st : SharePartitionState) :
      Written config now (some st)
        (some (.snapshot (st.toSnapshot (wrap (st.snapshotEpoch + 1)) now)))
  | tombstone (st : SharePartitionState) : Written config now (some st) none

section

variable {config : ShareCoordinatorConfig} {now : Int}

variable {image : MetadataImage} {key : StateKey}

theorem checkTopicPartition_bind {α : Type}
    {f : Unit → Except Refused α} {x : α} (h : (checkTopicPartition image key >>= f) = .ok x) :
    f () = .ok x := by
  unfold checkTopicPartition at h
  split at h
  · exact h
  · exact absurd h (by simp [bind, Except.bind])

variable {entry : Option SharePartitionState} {r : StateRecord}

theorem initializeRecord_ok {stateEpoch startOffset : Int}
    (h : initializeRecord config now entry image key stateEpoch startOffset = .ok (some r)) :
    0 ≤ stateEpoch ∧
      ((entry = none ∧ r = .snapshot (initialSnapshot now 0 stateEpoch startOffset)) ∨
        ∃ st, entry = some st ∧ st.fenceStateEpoch ≤ stateEpoch ∧ r = .snapshot
          (initialSnapshot now (wrap (st.snapshotEpoch + 1)) stateEpoch startOffset)) := by
  unfold initializeRecord at h
  split at h
  · cases h
  split at h
  · cases h
  refine ⟨by omega, ?_⟩
  cases entry with
  | none =>
    have h := checkTopicPartition_bind h
    exact .inl ⟨rfl, (Option.some.inj (ok.inj h)).symm⟩
  | some st =>
    dsimp only at h
    split at h
    · cases h
    have h := checkTopicPartition_bind h
    split at h
    · exact absurd (ok.inj h) (by simp)
    · exact .inr ⟨st, rfl, by omega, (Option.some.inj (ok.inj h)).symm⟩

theorem initializeRecord_written {stateEpoch startOffset : Int}
    (h : initializeRecord config now entry image key stateEpoch startOffset = .ok (some r)) :
    Written config now entry (some r) := by
  obtain ⟨hepoch, ⟨rfl, rfl⟩ | ⟨st, rfl, hfence, rfl⟩⟩ := initializeRecord_ok h
  · exact .first stateEpoch startOffset hepoch
  · exact .again st stateEpoch startOffset hepoch hfence

theorem writeRecord_written {request : ShareWrite}
    (h : writeRecord config now entry image key request = .ok (some r)) :
    ∃ st, entry = some st ∧
      r = shareStateRecord config now st
        ⟨st.leaderEpoch, request.startOffset, request.deliveryCompleteCount, request.batches⟩ := by
  unfold writeRecord at h
  split at h
  · cases h
  split at h
  · cases h
  split at h
  · cases h
  cases entry with
  | none => cases h
  | some st =>
    dsimp only at h
    split at h
    · cases h
    split at h
    · cases h
    have h := checkTopicPartition_bind h
    obtain rfl : _ = r := Option.some.inj (ok.inj h)
    exact ⟨st, rfl, rfl⟩

theorem readRecord_written {leaderEpoch : Int}
    (h : readRecord config now entry image key leaderEpoch = .ok (some r)) :
    ∃ st, entry = some st ∧ 0 ≤ leaderEpoch ∧ st.fenceLeaderEpoch < leaderEpoch ∧
      r = shareStateRecord config now st
        ⟨leaderEpoch, st.startOffset, st.deliveryCompleteCount, []⟩ := by
  unfold readRecord at h
  split at h
  · cases h
  split at h
  · cases h
  cases entry with
  | none => cases h
  | some st =>
    dsimp only at h
    split at h
    · cases h
    have h := checkTopicPartition_bind h
    split at h
    · exact absurd (ok.inj h) (by simp)
    · obtain rfl : _ = r := Option.some.inj (ok.inj h)
      exact ⟨st, rfl, by omega, by omega, rfl⟩

end

def Work.key : Work → StateKey
  | .initializeState _ key _ _ | .write _ key _ | .read _ key _ | .delete _ key | .cleanup key
  | .coldSnapshot key => key

section

variable {config : ShareCoordinatorConfig} {now : Int} {live : StateMap}

variable {r : LogRecord}

theorem record_map_ok {key : StateKey} {record : Except Refused (Option StateRecord)}
    (h : (do let record ← record; return record.map fun r => (⟨key, some r⟩ : LogRecord)) =
      .ok (some r)) : ∃ v, record = .ok (some v) ∧ r = ⟨key, some v⟩ := by
  cases record with
  | error e => exact absurd h (by simp [bind, Except.bind])
  | ok record =>
    cases record with
    | none => exact absurd (Except.ok.inj h) (by simp)
    | some v => exact ⟨v, rfl, (Option.some.inj (Except.ok.inj h)).symm⟩

theorem tombstone_map {key : StateKey} {entry : Option SharePartitionState}
    (h : (entry.map fun _ => (⟨key, none⟩ : LogRecord)) = some r) :
    ∃ st, entry = some st ∧ r = ⟨key, none⟩ := by
  obtain ⟨st, hst, rfl⟩ := Option.map_eq_some_iff.mp h
  exact ⟨st, hst, rfl⟩

theorem Work.record_written {work : Work} (h : work.record config now live = .ok (some r)) :
    r.key = work.key ∧ Written config now (live work.key) r.value := by
  cases work with
  | initializeState image key stateEpoch startOffset =>
    obtain ⟨v, hv, rfl⟩ := record_map_ok h
    exact ⟨rfl, initializeRecord_written hv⟩
  | write image key request =>
    obtain ⟨v, hv, rfl⟩ := record_map_ok h
    obtain ⟨st, hst, rfl⟩ := writeRecord_written hv
    refine ⟨rfl, ?_⟩
    show Written config now (live key) _
    rw [hst]
    exact .progress st _ _ _ _ (.inl rfl)
  | read image key leaderEpoch =>
    obtain ⟨v, hv, rfl⟩ := record_map_ok h
    obtain ⟨st, hst, hepoch, hfence, rfl⟩ := readRecord_written hv
    refine ⟨rfl, ?_⟩
    show Written config now (live key) _
    rw [hst]
    exact .progress st _ _ _ _ (.inr ⟨hepoch, hfence⟩)
  | delete image key =>
    simp only [Work.record] at h
    split at h
    · cases h
    obtain ⟨st, hst, rfl⟩ := tombstone_map (ok.inj (checkTopicPartition_bind h))
    refine ⟨rfl, ?_⟩
    show Written config now (live key) _
    rw [hst]
    exact .tombstone st
  | cleanup key =>
    obtain ⟨st, hst, rfl⟩ := tombstone_map (ok.inj h)
    refine ⟨rfl, ?_⟩
    show Written config now (live key) _
    rw [hst]
    exact .tombstone st
  | coldSnapshot key =>
    simp only [Work.record] at h
    split at h
    · exact absurd (ok.inj h) (by simp)
    rename_i st hst
    split at h
    · exact absurd (ok.inj h) (by simp)
    obtain rfl := Option.some.inj (ok.inj h)
    refine ⟨rfl, ?_⟩
    show Written config now (live key) _
    rw [hst]
    exact .cold st

theorem Work.record_fits {work : Work}
    (h : work.record config now live = .ok (some r)) : r.Fits live := by
  obtain ⟨hkey, hwritten⟩ := Work.record_written h
  intro v hv
  rw [hkey]
  rw [hv] at hwritten
  cases hentry : live work.key with
  | some st => rfl
  | none =>
    rw [hentry] at hwritten
    exact nomatch hwritten

end

end Krabka.ShareCoordinator

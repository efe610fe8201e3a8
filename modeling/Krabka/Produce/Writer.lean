import Krabka.Produce.Tracker

/-!
# The writer's checks under the log lock

Before it appends a client batch the writer looks it up among the producer's
retained batches and runs the transaction check.  Neither compares a
non-transactional batch with the producer's epoch or with its last sequence:
that was decided at the gate.
-/

namespace Krabka.Produce

open Krabka.Log

variable {ρ : Type}

structure ProducerBatchMetadata where
  lastSequence : Int
  lastOffset : Int
  offsetDelta : Int
  timestamp : Int
  deriving DecidableEq

def ProducerBatchMetadata.baseOffset (m : ProducerBatchMetadata) : Int :=
  m.lastOffset - m.offsetDelta

/-- The entry's last data batch, if it holds one. -/
def lastBatch (e : ProducerSnapshotEntry) : Option ProducerBatchMetadata :=
  if e.lastOffset ≥ 0 then some ⟨e.lastSequence, e.lastOffset, e.offsetDelta, e.timestamp⟩ else none

def findDuplicateBatch (e : ProducerSnapshotEntry) (earlier : List ProducerBatchMetadata)
    (producerEpoch baseSequence lastOffsetDelta : Int) : Option ProducerBatchMetadata :=
  if baseSequence < 0 ∨ lastOffsetDelta < 0 ∨ e.producerEpoch ≠ producerEpoch then none
  else (earlier ++ (lastBatch e).toList).find? fun retained =>
    retained.lastSequence = incrementSequence baseSequence lastOffsetDelta &&
      decrementSequence retained.lastSequence retained.offsetDelta = baseSequence

/-- The earlier batches that `add_data_batch` leaves. -/
def earlierAfter (e : ProducerSnapshotEntry) (earlier : List ProducerBatchMetadata)
    (producerEpoch : Int) : List ProducerBatchMetadata :=
  if e.producerEpoch ≠ producerEpoch then []
  else match lastBatch e with
    | none => earlier
    | some previous =>
      let joined := earlier ++ [previous]
      if joined.length ≥ numBatchesToRetain then joined.tail else joined

structure VerificationState where
  guard : Nat
  createdMs : Int
  epoch : Int
  lowestSequence : Int
  supportsEpochBump : Bool
  deriving DecidableEq

def sentinel : Nat := 0

inductive TransactionAppendRefusal where
  | staleProducerEpoch
  | invalidTransactionState
  | outOfOrderSequence
  deriving DecidableEq

/-- The log of a leader as its lock guards it. -/
structure LeaderLog (ρ : Type) where
  batches : List (RecordBatch ρ)
  producers : ProducerState
  earlier : SortedMap Int (List ProducerBatchMetadata)
  verifications : SortedMap Int VerificationState
  /-- The next value of the guard counter. -/
  nextGuard : Nat
  deriving DecidableEq

namespace LeaderLog

def empty : LeaderLog ρ := ⟨[], .empty, .empty, .empty, 1⟩

variable (l : LeaderLog ρ)

def logEnd : Int := (l.batches.getLast?.map fun b => b.lastOffset + 1).getD 0

/-- The epoch and the last sequence that the log has of a producer. -/
def facts (producerId : Int) : Option EntryFacts :=
  (l.producers.get? producerId).map fun e => (e.producerEpoch, e.lastSequence)

def hasOngoingTransaction (producerId producerEpoch : Int) : Bool :=
  (l.producers.get? producerId).any fun e =>
    e.currentTxnFirstOffset.isSome && e.producerEpoch = producerEpoch

/-- The verification state of a batch that starts one, or moves the lowest sequence
of one. -/
def verificationOf (existing : Option VerificationState) (nextGuard : Nat) (b : RecordBatch ρ)
    (supportsEpochBump : Bool) (nowMs : Int) : VerificationState :=
  let state := existing.getD ⟨nextGuard, nowMs, b.producerEpoch, b.baseSequence, supportsEpochBump⟩
  let state := if b.producerEpoch = state.epoch ∧ b.baseSequence < state.lowestSequence then
      { state with lowestSequence := b.baseSequence }
    else state
  if b.producerEpoch > state.epoch then
    { state with epoch := b.producerEpoch, lowestSequence := b.baseSequence }
  else state

variable (b : RecordBatch ρ)

def maybeStartTransactionVerification (supportsEpochBump : Bool) (nowMs expirationMs : Int) :
    Except TransactionAppendRefusal (LeaderLog ρ × Nat) :=
  if (l.producers.get? b.producerId).any fun e => b.producerEpoch < e.producerEpoch then
    .error .staleProducerEpoch
  else if l.hasOngoingTransaction b.producerId b.producerEpoch then .ok (l, sentinel)
  else
    let kept := l.verifications.keepValues fun state => nowMs - state.createdMs < expirationMs
    let existing := kept.get? b.producerId
    let state := verificationOf existing l.nextGuard b supportsEpochBump nowMs
    .ok ({ l with
      verifications := kept.insert b.producerId state
      nextGuard := if existing.isSome then l.nextGuard else l.nextGuard + 1 }, state.guard)

/-- `check_transactional_append`, for a data batch. -/
def checkTransactionalAppend (presented : Nat) : Except TransactionAppendRefusal Unit :=
  let entry := l.producers.get? b.producerId
  if b.producerId < 0 then .ok ()
  else if !b.isTransactional then
    if entry.any fun e => e.currentTxnFirstOffset.isSome then .error .invalidTransactionState
    else .ok ()
  else if l.hasOngoingTransaction b.producerId b.producerEpoch then .ok ()
  else if entry.any fun e => b.producerEpoch < e.producerEpoch then .error .staleProducerEpoch
  else match (l.verifications.get? b.producerId).filter fun state =>
      presented ≠ sentinel && presented = state.guard with
    | none => .error .invalidTransactionState
    | some state =>
      let hasBatch := entry.any fun e => e.lastOffset ≥ 0
      if (state.supportsEpochBump && b.baseSequence ≠ 0 && !hasBatch) ||
          b.baseSequence > state.lowestSequence then .error .outOfOrderSequence
      else .ok ()

/-- `Log::find_duplicate_batch`. -/
def findDuplicate : Option ProducerBatchMetadata :=
  if b.producerId < 0 then none
  else (l.producers.get? b.producerId).bind fun e =>
    findDuplicateBatch e ((l.earlier.get? b.producerId).getD []) b.producerEpoch b.baseSequence
      b.lastOffsetDelta

/-- The batch with the offset that the log assigns. -/
def placed : RecordBatch ρ := { b with baseOffset := l.logEnd }

/-- The append of a data batch, with `update_data_producer_entry` and
`clear_verification_after_append`. -/
def append : LeaderLog ρ :=
  let b := l.placed b
  if b.producerId < 0 ∨ b.baseSequence < 0 then { l with batches := l.batches ++ [b] }
  else
    { l with
      batches := l.batches ++ [b]
      producers := updateDataProducerEntry l.producers b
      earlier := l.earlier.insert b.producerId
        (earlierAfter (entryOf l.producers b)
          ((l.earlier.get? b.producerId).getD []) b.producerEpoch)
      verifications :=
        if b.isTransactional then l.verifications.erase b.producerId else l.verifications }

end LeaderLog

/-- What the writer does with a batch. -/
inductive WriterAnswer where
  | duplicate (retained : ProducerBatchMetadata)
  | refused (refusal : TransactionAppendRefusal)
  | appended
  deriving DecidableEq

/-- The checks of `append_produce_batch`, in order. -/
def writerAnswer (l : LeaderLog ρ) (b : RecordBatch ρ) (guard : Nat) : WriterAnswer :=
  match l.findDuplicate b with
  | some retained => .duplicate retained
  | none =>
    match l.checkTransactionalAppend b guard with
    | .error refusal => .refused refusal
    | .ok () => .appended

end Krabka.Produce

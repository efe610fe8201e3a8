import Krabka.Log.ProducerState

/-!
# The produce path's copy of the producer state

`handle_duplicate` decides on a batch before it reaches the writer, against a
tracker that the requests fill after the writer has answered them.  This is the
decision (`producer_decision`) and the commit (`committed_entry`), which merges a
completed append by its physical offset whatever the order of the answers.
-/

namespace Krabka.Produce

open Krabka.Log

def decrementSequence (sequence decrement : Int) : Int := (sequence - decrement) % 2147483648

/-- `ProducerStateEntry.NUM_BATCHES_TO_RETAIN`. -/
def numBatchesToRetain : Nat := 5

structure RetainedBatch where
  baseSequence : Int
  lastSequence : Int
  baseOffset : Int
  lastOffset : Int
  timestamp : Int
  deriving DecidableEq

structure ProducerEntry where
  epoch : Int
  lastSequence : Int
  lastOffset : Int
  baseOffset : Int
  lastTimestamp : Int
  entryTimestamp : Int
  currentTxnFirstOffset : Option Int
  /-- The occupied slots, oldest first. -/
  earlier : List RetainedBatch
  deriving DecidableEq

/-- What the decision reads of an entry: its epoch and its last sequence. -/
abbrev EntryFacts := Int × Int

namespace ProducerEntry

/-- The last accepted batch, none for an entry of a marker alone. -/
def lastBatch (e : ProducerEntry) : Option RetainedBatch :=
  if e.lastOffset ≥ 0 then
    some
      { baseSequence := decrementSequence e.lastSequence (e.lastOffset - e.baseOffset)
        lastSequence := e.lastSequence
        baseOffset := e.baseOffset
        lastOffset := e.lastOffset
        timestamp := e.lastTimestamp }
  else none

def retainedBatches (e : ProducerEntry) : List RetainedBatch := e.earlier ++ e.lastBatch.toList

def facts (e : ProducerEntry) : EntryFacts := (e.epoch, e.lastSequence)

end ProducerEntry

/-! ## The decision -/

inductive ProducerDecision where
  | append
  | duplicate (retained : Nat)
  | outOfOrder
  | fenced
  deriving DecidableEq

/-- The sequence check of `producer_decision`, for a batch that repeats no retained
one. -/
def sequenceDecision (entry : EntryFacts) (producerEpoch baseSequence : Int) : ProducerDecision :=
  if producerEpoch < entry.1 then .fenced
  else if producerEpoch > entry.1 then if baseSequence = 0 then .append else .outOfOrder
  else if baseSequence = incrementSequence entry.2 1 then .append
  else .outOfOrder

def producerDecision (entry : Option EntryFacts) (retained : List (Int × Int))
    (producerEpoch baseSequence lastOffsetDelta : Int) (logEmpty trunkRules : Bool) :
    ProducerDecision :=
  match entry with
  | none => if trunkRules && logEmpty && baseSequence ≠ 0 then .outOfOrder else .append
  | some tracked =>
    let lastSequence := incrementSequence baseSequence lastOffsetDelta
    let repeated :=
      if producerEpoch = tracked.1 then
        retained.findIdx? fun range => range.1 = baseSequence && range.2 = lastSequence
      else none
    match repeated with
    | some i => .duplicate i
    | none => sequenceDecision tracked producerEpoch baseSequence

/-- `check_retained`: the decision on the tracked entry. -/
def checkRetained (entry : Option ProducerEntry) (logEmpty unstable : Bool)
    (producerEpoch baseSequence lastOffsetDelta : Int) : ProducerDecision :=
  producerDecision (entry.map ProducerEntry.facts)
    ((entry.map ProducerEntry.retainedBatches).getD [] |>.map
      fun batch => (batch.baseSequence, batch.lastSequence))
    producerEpoch baseSequence lastOffsetDelta logEmpty unstable

/-! ## The commit -/

/-- `producer_completion_window`: whether a completion at `epoch` is accepted, and
the batches that stay retained, by index, the incoming one last. -/
def producerCompletionWindow (current : Option Int) (epoch : Int) (ends : List Int)
    (incoming : Int) : Bool × List Nat :=
  let count := ends.length
  let keepOld := current.any fun value => epoch ≤ value
  let accepted := !current.any fun value => value > epoch
  let position := (ends.takeWhile (· < incoming)).length
  let insert := accepted && (!keepOld || position = count || ends[position]? ≠ some incoming)
  let length := (if keepOld then count else 0) + (if insert then 1 else 0)
  let first := length - 5
  let source ordinal :=
    if !keepOld || (insert && ordinal = position) then count
    else if insert && ordinal > position then ordinal - 1
    else ordinal
  (accepted, (List.range' first (length - first)).map source)

def earlierAfterCompletion (existing : Option ProducerEntry) (epoch : Int)
    (incoming : RetainedBatch) : Bool × List RetainedBatch :=
  match existing with
  | none => (true, [])
  | some entry =>
    let retained := entry.retainedBatches
    let window := producerCompletionWindow (some entry.epoch) epoch
      (retained.map RetainedBatch.lastOffset) incoming.lastOffset
    if window.1 then
      (true, window.2.dropLast.filterMap fun source =>
        if source = retained.length then some incoming else retained[source]?)
    else (false, [])

/-- A batch as the writer has answered it: the commit needs where it lies. -/
structure Completed where
  producerEpoch : Int
  baseSequence : Int
  lastOffsetDelta : Int
  baseOffset : Int
  timestamp : Int
  isTransactional : Bool
  deriving DecidableEq

def committedEntry (existing : Option ProducerEntry) (c : Completed) : Option ProducerEntry :=
  let lastSequence := incrementSequence c.baseSequence c.lastOffsetDelta
  let lastOffset := c.baseOffset + c.lastOffsetDelta
  let incoming : RetainedBatch :=
    { baseSequence := decrementSequence lastSequence c.lastOffsetDelta
      lastSequence := lastSequence
      baseOffset := c.baseOffset
      lastOffset := lastOffset
      timestamp := c.timestamp }
  let completion := earlierAfterCompletion existing c.producerEpoch incoming
  let advanced : ProducerEntry :=
    { epoch := c.producerEpoch
      lastSequence := lastSequence
      lastOffset := lastOffset
      baseOffset := c.baseOffset
      lastTimestamp := c.timestamp
      entryTimestamp := c.timestamp
      currentTxnFirstOffset := (existing.bind ProducerEntry.currentTxnFirstOffset).or
        (if c.isTransactional then some c.baseOffset else none)
      earlier := completion.2 }
  if !completion.1 then none
  else match existing with
    | some tracked =>
      -- a deferred completion fills an earlier slot and undoes nothing newer
      if tracked.epoch = c.producerEpoch ∧ tracked.lastOffset ≥ lastOffset then
        some { tracked with earlier := completion.2 }
      else some advanced
    | none => some advanced

/-! ## What the decision admits -/

/-- A batch may follow what an entry says: it is the producer's first, it begins a
newer epoch, or it goes on where the epoch stands. -/
def Continues (entry : Option EntryFacts) (producerEpoch baseSequence : Int) : Prop :=
  match entry with
  | none => True
  | some tracked => tracked.1 < producerEpoch ∨
      (tracked.1 = producerEpoch ∧ baseSequence = incrementSequence tracked.2 1)

theorem continues_of_sequenceDecision {entry : EntryFacts} {producerEpoch baseSequence : Int}
    (h : sequenceDecision entry producerEpoch baseSequence = .append) :
    Continues (some entry) producerEpoch baseSequence := by
  unfold sequenceDecision at h
  split at h
  · cases h
  · split at h
    · rename_i hnewer
      exact .inl hnewer
    · split at h
      · rename_i hnext
        exact .inr ⟨by omega, hnext⟩
      · cases h

theorem continues_of_checkRetained {entry : Option ProducerEntry} {logEmpty unstable : Bool}
    {producerEpoch baseSequence lastOffsetDelta : Int}
    (h : checkRetained entry logEmpty unstable producerEpoch baseSequence
      lastOffsetDelta = .append) :
    Continues (entry.map ProducerEntry.facts) producerEpoch baseSequence := by
  unfold checkRetained producerDecision at h
  cases entry with
  | none => trivial
  | some tracked =>
    simp only [Option.map_some] at h ⊢
    split at h
    · cases h
    · exact continues_of_sequenceDecision h

/-! ## What a commit leaves -/

/-- What an entry says of the producer's last batch: its epoch, last sequence and
last offset. -/
def ProducerEntry.last (e : ProducerEntry) : Int × Int × Int :=
  (e.epoch, e.lastSequence, e.lastOffset)

section Commit

variable {c : Completed}

theorem earlierAfterCompletion_accepted {existing : Option ProducerEntry} {epoch : Int}
    (h : ∀ tracked ∈ existing, tracked.epoch ≤ epoch) (incoming : RetainedBatch) :
    (earlierAfterCompletion existing epoch incoming).1 = true := by
  cases existing with
  | none => rfl
  | some tracked =>
    have hle := h tracked rfl
    have hwindow : (producerCompletionWindow (some tracked.epoch) epoch
        (tracked.retainedBatches.map RetainedBatch.lastOffset) incoming.lastOffset).1 = true := by
      simp [producerCompletionWindow, hle]
    simp [earlierAfterCompletion, hwindow]

/-- A completion past the tracked batch advances the entry to it. -/
theorem committedEntry_advances {existing : Option ProducerEntry}
    (h : ∀ tracked ∈ existing, tracked.epoch ≤ c.producerEpoch ∧
      tracked.lastOffset < c.baseOffset + c.lastOffsetDelta) :
    ∃ e, committedEntry existing c = some e ∧
      e.last = (c.producerEpoch, incrementSequence c.baseSequence c.lastOffsetDelta,
        c.baseOffset + c.lastOffsetDelta) := by
  unfold committedEntry
  simp only [earlierAfterCompletion_accepted fun tracked ht => (h tracked ht).1, Bool.not_true,
    Bool.false_eq_true, if_false]
  cases existing with
  | none => exact ⟨_, rfl, rfl⟩
  | some tracked =>
    have hlt := (h tracked rfl).2
    dsimp only
    rw [if_neg (by omega)]
    exact ⟨_, rfl, rfl⟩

/-- A completion at or below the tracked batch changes only the earlier ones. -/
theorem committedEntry_keeps {tracked : ProducerEntry} (hepoch : tracked.epoch = c.producerEpoch)
    (hle : c.baseOffset + c.lastOffsetDelta ≤ tracked.lastOffset) :
    ∃ e, committedEntry (some tracked) c = some e ∧ e.last = tracked.last := by
  have hold : ∀ t ∈ some tracked, t.epoch ≤ c.producerEpoch := by
    rintro t ⟨⟩
    exact hepoch.le
  unfold committedEntry
  simp only [earlierAfterCompletion_accepted hold, Bool.not_true, Bool.false_eq_true, if_false]
  rw [if_pos ⟨hepoch, hle⟩]
  exact ⟨_, rfl, rfl⟩

end Commit

end Krabka.Produce

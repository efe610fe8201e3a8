import Krabka.Log.ProducerState

/-!
# Segments

A segment holds the batches from its base offset on, the last offset and the
greatest timestamp it caches, and its transaction index.  A read starts at the
first batch that reaches its offset, which is where the sparse index and the
walk over the headers behind it lead, and returns the whole batches that fit
its budget.
-/

namespace Krabka.Log

variable {ρ : Type}

structure Segment (ρ : Type) where
  baseOffset : Int
  batches : List (RecordBatch ρ)
  lastOffset : Int
  maxTimestamp : Int
  txnIndex : List AbortedTxn
  deriving DecidableEq

def truncationRelativeOffset (base cut : Int) : Option Int :=
  if base < 0 ∨ cut < base ∨ cut - base > u32Max then none else some (cut - base)

/-- The whole batches at the front that fit in `budget` bytes. -/
def fitting (budget : Nat) : List (RecordBatch ρ) → List (RecordBatch ρ)
  | [] => []
  | b :: batches =>
    if b.storedLen ≤ budget then b :: fitting (budget - b.storedLen) batches else []

def totalLen (batches : List (RecordBatch ρ)) : Nat := (batches.map RecordBatch.storedLen).sum

/-- What a read counts the batches for against its budget. -/
def consumed (batches : List (RecordBatch ρ)) : Nat := (batches.map RecordBatch.encodedLen).sum

/-- The greatest timestamp of the batches, from `t` up. -/
def maxTimestampFrom (t : Int) (batches : List (RecordBatch ρ)) : Int :=
  batches.foldl (fun t b => if b.maxTimestamp > t then b.maxTimestamp else t) t

/-- `local_recovery_batch_step` over the batches of a file, up to the first one
that does not continue the valid prefix. -/
def scanValidTail (fileEnd position : Nat) (expected : Int) :
    List (RecordBatch ρ) → List (RecordBatch ρ)
  | [] => []
  | b :: batches =>
    match localRecoveryBatchStep position fileEnd expected b.baseOffset b.lastOffsetDelta
        b.storedLen with
    | some step => b :: scanValidTail fileEnd step.validEnd step.nextOffset batches
    | none => []

namespace Segment

def create (base : Int) : Segment ρ := ⟨base, [], base - 1, i64Min, []⟩

variable (s : Segment ρ)

def size : Nat := totalLen s.batches

def ofBatches (batches : List (RecordBatch ρ)) : Segment ρ :=
  { s with
    batches := batches
    lastOffset := (batches.getLast?.map RecordBatch.lastOffset).getD (s.baseOffset - 1)
    maxTimestamp := maxTimestampFrom i64Min batches }

def append (b : RecordBatch ρ) : Segment ρ :=
  { s with
    batches := s.batches ++ [b]
    lastOffset := b.lastOffset
    maxTimestamp := if b.maxTimestamp > s.maxTimestamp then b.maxTimestamp else s.maxTimestamp }

/-- `read_with_buffer_cap`. -/
def read (offset : Int) (maxBytes : Nat) : Except LogError (List (RecordBatch ρ)) :=
  if offset > s.lastOffset then .ok []
  else if max (offset - s.baseOffset) 0 > u32Max then
    .error (.badSegmentName "target offset out of range")
  else
    let fromStart := s.batches.dropWhile fun b => b.lastOffset < offset
    .ok ((fitting maxBytes fromStart).filter fun b => offset ≤ b.lastOffset)

def truncateToRelative (rel : Int) : Except LogError (Segment ρ) :=
  let target := s.baseOffset + rel
  let kept := s.batches.takeWhile fun b => b.lastOffset < target
  if (totalLen kept : Int) > u32Max then .error (.badSegmentName "position overflow")
  else .ok (s.ofBatches kept)

/-- `recover_active_tail`: the valid prefix of the file, refused when the sparse
indexes cannot address it. -/
def recoverActiveTail : Except LogError (Segment ρ) :=
  let recovered := s.ofBatches (scanValidTail s.size 0 s.baseOffset s.batches)
  if (recovered.size : Int) > u32Max then
    .error (.corrupt "recovered segment position exceeds u32")
  else if recovered.lastOffset + 1 - s.baseOffset > u32Max then
    .error (.corrupt "recovered segment offset exceeds index range")
  else .ok recovered

/-! ## The transaction index -/

/-- `TxnIndex::append`: a row the index holds already is not added again. -/
def appendTxn (row : AbortedTxn) : Segment ρ :=
  if row ∈ s.txnIndex then s else { s with txnIndex := s.txnIndex ++ [row] }

/-- The segment with the row that a marker adds, if it adds one. -/
def withRow (row : Option AbortedTxn) : Segment ρ :=
  match row with
  | some row => s.appendTxn row
  | none => s

/-- `TxnIndex::truncate_from`. -/
def truncateTxns (offset : Int) : Segment ρ :=
  { s with txnIndex := s.txnIndex.filter fun row => row.lastOffset < offset }

end Segment

def abortedTransactionOverlaps (entryStart entryLast queryStart queryEnd : Int) : Bool :=
  entryStart ≤ entryLast && queryStart < queryEnd && entryStart < queryEnd && entryLast ≥ queryStart

/-- `TxnIndex::collect_aborted`: the rows that overlap `[start, stop)`, and whether
a row says that the search is complete. -/
def collectAborted (start stop : Int) : List AbortedTxn → List AbortedTxn × Bool
  | [] => ([], false)
  | row :: rows =>
    let here := if abortedTransactionOverlaps row.startOffset row.lastOffset start stop
      then [row] else []
    if row.lastStableOffset ≥ stop then (here, true)
    else
      let (later, complete) := collectAborted start stop rows
      (here ++ later, complete)

end Krabka.Log

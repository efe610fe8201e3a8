import Krabka.Log.EpochCheckpoint
import Krabka.Log.Segment

/-!
# The partition log

The log of one partition: its sealed segments and the active one, the producer
and transaction state in memory, and what else it keeps on disk, which is the
producer snapshots and the leader-epoch checkpoint.  An operation that fails
returns the error of the source.

Where a segment rolls is a choice of the caller here, as it depends on sizes,
times and the configuration.
-/

namespace Krabka.Log

variable {ρ : Type}

structure PartitionLog (ρ : Type) where
  /-- The sealed segments, in offset order. -/
  segments : List (Segment ρ)
  active : Segment ρ
  startOffset : Int
  startOffsetEstablished : Bool
  remoteStorageEnable : Bool
  lso : Int
  state : TransactionState
  /-- The producer snapshots on disk, by their offset. -/
  snapshots : SortedMap Int ProducerState
  epochs : LeaderEpochCheckpoint
  reconciledFrontier : Int
  deriving DecidableEq

structure ProducerReloadRange where
  logStart : Int
  localStart : Int
  logEnd : Int
  deriving DecidableEq

def producerSnapshotReloadKeeps (range : ProducerReloadRange) (offset : Int) : Bool :=
  range.logStart < offset && offset ≤ range.logEnd

def producerSnapshotReplayStart (range : ProducerReloadRange)
    (snapshot : Option Int) : Option Int :=
  if range.logStart < 0 ∨ range.logEnd < range.logStart ∨ range.localStart < 0 ∨
      range.logEnd < range.localStart then none
  else match snapshot with
    | none => some (max range.logStart range.localStart)
    | some offset =>
      if producerSnapshotReloadKeeps range offset then some (max offset range.localStart) else none

/-- Whether a snapshot file decodes: every entry is one that a snapshot at its
offset may hold. -/
def snapshotValid (offset : Int) (snapshot : ProducerState) : Bool :=
  snapshot.entries.all fun (pid, e) => producerSnapshotEntryValid offset pid e

/-- `producer_snapshot::reload`: the newest snapshot of the range that decodes,
and the snapshots left, without those that did not. -/
def reload (snapshots : SortedMap Int ProducerState) (range : ProducerReloadRange) :
    Option (Int × ProducerState) × SortedMap Int ProducerState :=
  let eligible := snapshots.retain (producerSnapshotReloadKeeps range)
  let loaded := eligible.entries.reverse.find? fun (offset, s) => snapshotValid offset s
  match loaded with
  | some (offset, s) => (some (offset, s), eligible.retain (· ≤ offset))
  | none => (none, .empty)

/-- The state before the replay: the one of the loaded snapshot, if any. -/
def restoredState (loaded : Option (Int × ProducerState)) : TransactionState :=
  match loaded with
  | some (_, s) => .ofSnapshot s
  | none => .empty

/-- `producer_snapshot::write`: a snapshot at the offset already is kept. -/
def writeSnapshot (snapshots : SortedMap Int ProducerState) (offset : Int) (s : ProducerState) :
    SortedMap Int ProducerState :=
  snapshots.orInsert offset s

def localAppendCoordinates (expected supplied lastDelta : Int) : Option (Int × Int) :=
  if expected < 0 ∨ supplied < expected ∨ lastDelta < 0 ∨
    supplied + lastDelta + 1 > i64Max then none
  else some (supplied + lastDelta, supplied + lastDelta + 1)

/-- `replay_batch_cursor_decision`, with the error of `recovered_batch_offsets`. -/
def recoveredBatchOffsets (current endOffset : Int) (b : RecordBatch ρ) : Except LogError Int :=
  let rejected := LogError.corrupt
    s!"log recovery rejected batch at offset {current} before end {endOffset}"
  if current ≥ endOffset then .error rejected
  else match restoreBatchStep current b.baseOffset b.lastOffsetDelta with
    | some next => if next > endOffset then .error rejected else .ok next
    | none => .error rejected

/-- `replay_cursor`: the first batch of a replay may begin below the cursor. -/
def replayCursor (first : Bool) (cursor : Int) (b : RecordBatch ρ) : Int :=
  if first then min cursor b.baseOffset else cursor

/-- The inner loop of a recovery walk over the batches of one read. -/
def walkBatches {σ : Type} (endOffset : Int) (step : σ → RecordBatch ρ → Int → σ) :
    Bool → Int → σ → List (RecordBatch ρ) → Except LogError (Int × σ)
  | _, cursor, acc, [] => .ok (cursor, acc)
  | first, cursor, acc, b :: batches =>
    match recoveredBatchOffsets (replayCursor first cursor b) endOffset b with
    | .error e => .error e
    | .ok advancedTo => walkBatches endOffset step false advancedTo (step acc b advancedTo) batches

/-- The bytes that a recovery asks one read for. -/
def recoveryReadSize : Nat := 1048576

/-- What the replay of a recovery carries along: the state so far, the snapshots
on disk and the segment boundaries still without one. -/
structure Replay where
  state : TransactionState
  snapshots : SortedMap Int ProducerState
  boundaries : List Int

/-- One batch of the replay: its effect on the state, then the snapshots at the
boundaries that it reaches. -/
def Replay.step (r : Replay) (b : RecordBatch ρ) (advancedTo : Int) : Replay :=
  let state := r.state.applyRecoveredBatchState b
  let covered := r.boundaries.filter (· ≤ advancedTo)
  { state := state
    snapshots := covered.foldl (fun s boundary => writeSnapshot s boundary state.producerState)
      r.snapshots
    boundaries := r.boundaries.filter (advancedTo < ·) }

namespace PartitionLog

/-- A log opened on an empty directory. -/
def fresh (remoteStorageEnable : Bool) : PartitionLog ρ where
  segments := []
  active := .create 0
  startOffset := 0
  startOffsetEstablished := false
  remoteStorageEnable := remoteStorageEnable
  lso := 0
  state := .empty
  snapshots := .empty
  epochs := .empty
  reconciledFrontier := 0

/-! ## Offsets -/

variable (l : PartitionLog ρ)

/-- The segments in offset order, the active one last. -/
def allSegments : List (Segment ρ) := l.segments ++ [l.active]

def batches : List (RecordBatch ρ) := l.allSegments.flatMap Segment.batches

def logEndOffset : Int := l.active.lastOffset + 1

def firstLocalOffset : Int := (l.segments.head?.getD l.active).baseOffset

def localLogStartOffset : Int := max l.firstLocalOffset l.startOffset

def establishedLogStart : Option Int :=
  if l.startOffsetEstablished then some l.startOffset else none

def producerReloadRange (logEnd : Int) : ProducerReloadRange where
  logStart :=
    if l.remoteStorageEnable then l.establishedLogStart.getD 0 else l.localLogStartOffset
  localStart := l.localLogStartOffset
  logEnd := logEnd

/-! ## Reads -/

variable (offset : Int)

def checkLocallyReadable : Except LogError Unit :=
  if offset < l.startOffset then .error (.offsetTooLow offset l.startOffset)
  else if offset < l.localLogStartOffset then
    .error (.offsetBelowLocalStart offset l.localLogStartOffset)
  else .ok ()

/-- The loop of `Log::read` over the segments that are left. -/
def readSegments : List (Segment ρ) → Int → Nat → Except LogError (List (RecordBatch ρ))
  | [], _, _ => .ok []
  | seg :: segments, current, remaining =>
    if seg.lastOffset < current then readSegments segments current remaining
    else match seg.read current (max remaining 1) with
      | .error e => .error e
      | .ok batches =>
        match batches.getLast? with
        | none => readSegments segments current remaining
        | some last =>
          let next := last.lastOffset + 1
          let left := remaining - consumed batches
          if left = 0 ∨ ¬ next > seg.lastOffset then .ok batches
          else match readSegments segments next left with
            | .error e => .error e
            | .ok more => .ok (batches ++ more)

def read (maxSize : Nat) : Except LogError (List (RecordBatch ρ)) :=
  match l.checkLocallyReadable offset with
  | .error e => .error e
  | .ok () =>
    if offset ≥ l.logEndOffset then .ok []
    else readSegments ((l.segments.dropWhile fun s => s.lastOffset < offset) ++ [l.active])
      offset maxSize

/-- `Log::aborted_in_range`: the rows of the indexes from the first sealed segment
that reaches `start` on, up to the row that completes the search. -/
def abortedInRange (start stop : Int) : List AbortedTxn :=
  let rec collect : List (Segment ρ) → List AbortedTxn
    | [] => []
    | seg :: segments =>
      let (rows, complete) := collectAborted start stop seg.txnIndex
      if complete then rows else rows ++ collect segments
  collect ((l.segments.dropWhile fun s => s.lastOffset < start) ++ [l.active])

/-! ## Recovery of the producer and transaction state -/

/-- A recovery loop: reads of `recoveryReadSize` bytes from `next` to the end.
The fuel bounds the reads, each of which gets further. -/
def walk {σ : Type} (l : PartitionLog ρ) (noProgress stuck : Int → LogError)
    (step : σ → RecordBatch ρ → Int → σ) : Nat → Bool → Int → σ → Except LogError σ
  | fuel, first, next, acc =>
    if next ≥ l.logEndOffset then .ok acc
    else match fuel with
      | 0 => .error (stuck next)
      | fuel + 1 =>
        match l.read next recoveryReadSize with
        | .error e => .error e
        | .ok [] => .error (noProgress next)
        | .ok (b :: batches) =>
          match walkBatches l.logEndOffset step first next acc (b :: batches) with
          | .error e => .error e
          | .ok (advancedTo, acc) =>
            if advancedTo ≤ next then .error (stuck next)
            else walk l noProgress stuck step fuel false advancedTo acc

/-- The replay of the log tail from `next` on. -/
def replay (next : Int) (r : Replay) : Except LogError Replay :=
  l.walk (fun next => .corrupt s!"producer-state recovery made no progress at offset {next}")
    (fun next => .corrupt s!"producer-state recovery did not advance past offset {next}")
    Replay.step (l.logEndOffset - next).toNat true next r

/-- `rebuild_pending_stamp_ranges`: a second walk, from the first open
transaction on.  The stamp ranges are left out, the reads and their failures
are not.  The source has no check that a read gets further, and every one does. -/
def rebuildPendingStampRanges (state : TransactionState) : Except LogError Unit :=
  match state.pending.values.min? with
  | none => .ok ()
  | some first =>
    let next := max first l.localLogStartOffset
    l.walk (fun next => .corrupt s!"transaction-stamp recovery made no progress at offset {next}")
      (fun next => .corrupt s!"transaction-stamp recovery made no progress at offset {next}")
      (fun _ _ _ => ()) (l.logEndOffset - next).toNat true next ()

/-- The segment boundaries past `next` that a replay writes snapshots at. -/
def boundariesAfter (next : Int) : List Int :=
  (((l.segments.map Segment.baseOffset).drop 1) ++ [l.active.baseOffset]).filter (next < ·)

def rebuildProducerAndTransactionState : Except LogError (PartitionLog ρ) :=
  let range := l.producerReloadRange l.logEndOffset
  let (loaded, snapshots) := reload l.snapshots range
  match producerSnapshotReplayStart range (loaded.map Prod.fst) with
  | none => .error (.corrupt "invalid producer snapshot replay frontier")
  | some next =>
    match l.replay next ⟨restoredState loaded, snapshots, l.boundariesAfter next⟩ with
    | .error e => .error e
    | .ok r =>
      let snapshots := if l.logEndOffset > range.logStart then
          writeSnapshot r.snapshots l.logEndOffset r.state.producerState
        else r.snapshots
      match l.rebuildPendingStampRanges r.state with
      | .error e => .error e
      | .ok () =>
        match r.state.refreshLso l.logEndOffset with
        | .error e => .error e
        | .ok lso => .ok { l with state := r.state, snapshots := snapshots, lso := lso }

def takeProducerSnapshot : PartitionLog ρ :=
  if l.logEndOffset > (l.producerReloadRange l.logEndOffset).logStart then
    { l with snapshots := writeSnapshot l.snapshots l.logEndOffset l.state.producerState }
  else l

/-! ## Truncation -/

def resetTo (newBase : Int) : Except LogError (PartitionLog ρ) :=
  if newBase < 0 then .error (.offsetMismatch 0 newBase)
  else .ok
    { l with
      segments := []
      active := .create newBase
      startOffset := newBase
      startOffsetEstablished := false
      lso := newBase
      state := .empty
      snapshots := if newBase > 0 then writeSnapshot .empty newBase .empty else .empty
      epochs := .empty }

/-- One segment is cut in place at `offset`, with its transaction index. -/
def cutSegment (seg : Segment ρ) (offset : Int) : Except LogError (Segment ρ) :=
  match truncationRelativeOffset seg.baseOffset offset with
  | none => .error (.badSegmentName "offset overflow")
  | some rel =>
    match seg.truncateToRelative rel with
    | .error e => .error e
    | .ok cut => .ok (cut.truncateTxns offset)

/-- The segments that `truncate_to` leaves, by `local_truncation_plan`: the
sealed ones and the active one based below the cut.  A cut that drops the active
segment promotes the last sealed one that is left. -/
def cutSegments : Except LogError (List (Segment ρ) × Segment ρ) :=
  let retained := l.segments.takeWhile fun s => s.baseOffset < offset
  if l.active.baseOffset < offset then
    if l.active.lastOffset ≥ offset then
      match cutSegment l.active offset with
      | .error e => .error e
      | .ok active => .ok (retained, active)
    else .ok (retained, l.active)
  else match retained.getLast? with
    | some last =>
      match cutSegment last offset with
      | .error e => .error e
      | .ok active => .ok (retained.dropLast, active)
    | none => .ok ([], .create offset)

/-- Whether an empty active segment that a roll left stands at the cut. -/
def emptyRolledActiveAt : Bool :=
  offset = l.logEndOffset && !l.segments.isEmpty && l.active.baseOffset = offset

/-- The state after the segments are cut: rebuilt, unless there was none. -/
def rebuildAfterCut : Except LogError (PartitionLog ρ) :=
  if l.state.producerState.entries.isEmpty && l.state.unreplicated.entries.isEmpty then .ok l
  else l.rebuildProducerAndTransactionState

def truncateTo : Except LogError (PartitionLog ρ) :=
  if offset > l.logEndOffset ∨ (offset = l.logEndOffset ∧ ¬ l.emptyRolledActiveAt offset) then
    .ok { l with epochs := l.epochs.truncateFromEnd l.logEndOffset }
  else if offset < l.firstLocalOffset then l.resetTo offset
  else
    let snapshots := l.snapshots.retain (producerSnapshotReloadKeeps (l.producerReloadRange offset))
    match l.cutSegments offset with
    | .error e => .error e
    | .ok (segments, active) =>
      match rebuildAfterCut { l with segments, active, snapshots } with
      | .error e => .error e
      | .ok l =>
        let l := l.takeProducerSnapshot
        let newEnd := l.logEndOffset
        .ok { l with
          lso := min l.lso newEnd
          epochs := l.epochs.truncateFromEnd newEnd
          startOffset := if min offset newEnd ≥ l.startOffset then l.startOffset
            else min offset newEnd }

/-! ## Appends -/

def appendAtExpectedOffset : Int := max l.logEndOffset l.reconciledFrontier

def rollActiveSegment : PartitionLog ρ :=
  { l with
    segments := l.segments ++ [l.active]
    active := .create l.logEndOffset
    snapshots := writeSnapshot l.snapshots l.logEndOffset l.state.producerState }

/-- `Log::roll`, and the roll of an append: an empty segment never rolls. -/
def roll : PartitionLog ρ := if l.active.batches.isEmpty then l else l.rollActiveSegment

variable (b : RecordBatch ρ)

def checkAppendFrontier : Except LogError Unit :=
  match localAppendCoordinates l.appendAtExpectedOffset b.baseOffset b.lastOffsetDelta with
  | none => .error (.invalidArgument
      "batch does not form a valid interval at the append frontier")
  | some _ => .ok ()

/-- The batch is written and the state that it leaves is taken over. -/
def commitAppend (state : TransactionState)
    (row : Option AbortedTxn) : Except LogError (PartitionLog ρ) :=
  let active := (l.active.append b).withRow row
  match state.refreshLso (active.lastOffset + 1) with
  | .error e => .error e
  | .ok lso => .ok { l with active := active, state := state, lso := lso }

/-- `append_preserving_offset_inner`, for a log that has rolled if it had to. -/
def appendPreservingOffset : Except LogError (PartitionLog ρ) :=
  match l.state.appendOwned b with
  | .error e => .error e
  | .ok (state, row) => l.commitAppend b state row

/-- `append_verbatim_preserving_offset`, for a log that has rolled if it had to. -/
def appendVerbatimPreservingOffset : Except LogError (PartitionLog ρ) :=
  l.commitAppend b (l.state.appendVerbatim b) none

def assignAppendedEpoch : Except LogError (PartitionLog ρ) :=
  if b.partitionLeaderEpoch < 0 then .ok l
  else match l.epochs.assign b.partitionLeaderEpoch b.baseOffset with
    | .error e => .error e
    | .ok epochs => .ok { l with epochs := epochs }

end PartitionLog

/-- The four ways to append.  A batch of `append` and `append_verbatim` carries
the offset that the log assigned to it. -/
inductive AppendPath where
  | append
  | appendAt
  | appendVerbatim
  | appendVerbatimAt
  deriving DecidableEq

/-- Whether the path keeps its books by the header alone.  A replicated control
batch is decoded and takes the owned path. -/
def AppendPath.readsHeaderOnly (path : AppendPath) (b : RecordBatch ρ) : Bool :=
  match path with
  | .append | .appendAt => false
  | .appendVerbatim => true
  | .appendVerbatimAt => !b.isControlBatch

/-- The offset that `append` and `append_verbatim` assign. -/
def AppendPath.assigned (path : AppendPath) (l : PartitionLog ρ)
    (b : RecordBatch ρ) : RecordBatch ρ :=
  match path with
  | .append | .appendVerbatim => { b with baseOffset := l.appendAtExpectedOffset }
  | .appendAt | .appendVerbatimAt => b

namespace PartitionLog

variable (l : PartitionLog ρ)

/-- `admit_append_at`, then the checks that every append makes first. -/
def checkAppend (b : RecordBatch ρ) : Except LogError Unit :=
  if b.baseOffset < l.appendAtExpectedOffset then
    .error (.offsetMismatch l.appendAtExpectedOffset b.baseOffset)
  else l.checkAppendFrontier b

/-- `append`, `append_at`, `append_verbatim` and `append_verbatim_at`, with the
roll that the append makes or not. -/
def appendBatch (path : AppendPath) (rolls : Bool) (b : RecordBatch ρ) :
    Except LogError (PartitionLog ρ) :=
  let b := path.assigned l b
  match l.checkAppend b with
  | .error e => .error e
  | .ok () =>
    let l := if rolls then l.roll else l
    let written := if path.readsHeaderOnly b then l.appendVerbatimPreservingOffset b
      else l.appendPreservingOffset b
    match written with
    | .error e => .error e
    | .ok l => l.assignAppendedEpoch b

/-! ## Opening -/

/-- The snapshots that `remove_strays` keeps. -/
def withoutStrays (snapshots : SortedMap Int ProducerState) (segmentBases : List Int) :
    SortedMap Int ProducerState :=
  snapshots.retain fun offset =>
    offset ∈ segmentBases ||
      (snapshots.keys.getLast? = some offset && segmentBases.all (· < offset))

/-- A sealed segment ends where the next one begins. -/
def sealAt (seg : Segment ρ) (nextBase : Int) : Segment ρ :=
  { seg with lastOffset := nextBase - 1 }

/-- The sealed segments as `open` finds them, each one bounded by the base of the
next. -/
def sealAll (activeBase : Int) : List (Segment ρ) → List (Segment ρ)
  | [] => []
  | [seg] => [sealAt seg activeBase]
  | seg :: next :: segments => sealAt seg next.baseOffset :: sealAll activeBase (next :: segments)

/-- `local_recovery_segment_chain`. -/
def segmentChain (bases : List Int) : Bool :=
  bases.all (0 ≤ ·) && decide (bases.Pairwise (· < ·))

/-- The log that `Log::open` finds in the directory of `l`, before its state is
rebuilt.  The configuration is the default one, `validate_on_open`: without it the
tail of the active segment is not scanned. -/
def openFiles : Except LogError (PartitionLog ρ) :=
  let bases := l.allSegments.map Segment.baseOffset
  if ¬ segmentChain bases then
    .error (.corrupt "log segment bases are not a nonnegative ordered chain")
  else match l.active.recoverActiveTail with
    | .error e => .error e
    | .ok active =>
      let logEnd := active.lastOffset + 1
      .ok { segments := sealAll l.active.baseOffset l.segments
            active := active
            startOffset := l.firstLocalOffset
            startOffsetEstablished := false
            remoteStorageEnable := l.remoteStorageEnable
            lso := logEnd
            state := .empty
            snapshots := withoutStrays l.snapshots bases
            epochs := l.epochs.truncateFromEnd logEnd
            reconciledFrontier := 0 }

/-- `Log::open` on the directory of `l`, which has no log-start checkpoint. -/
def reopen : Except LogError (PartitionLog ρ) :=
  match l.openFiles with
  | .error e => .error e
  | .ok found => rebuildProducerAndTransactionState found

/-- `Log::close`, then `Log::open`. -/
def closeAndReopen : Except LogError (PartitionLog ρ) := l.takeProducerSnapshot.reopen

/-! ## The last stable offset -/

def releaseReplicatedTransactions (highWatermark : Int) : PartitionLog ρ :=
  let kept := l.state.unreplicated.keepValues (highWatermark ≤ ·)
  let l' := { l with state := { l.state with unreplicated := kept } }
  if kept.entries.length ≠ l.state.unreplicated.entries.length then
    -- a refresh that fails keeps the lower offset
    match l'.state.refreshLso l.logEndOffset with
    | .ok lso => { l' with lso := lso }
    | .error _ => l'
  else l'

/-- `Log::last_stable_offset`: the answer and the log after the call. -/
def lastStableOffset (highWatermark : Int) : Int × PartitionLog ρ :=
  let l := l.releaseReplicatedTransactions highWatermark
  (min l.lso highWatermark, l)

end PartitionLog

end Krabka.Log

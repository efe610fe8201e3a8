import Krabka.Log.PartitionLog

/-!
# Logs with a log start

The log start moves up when records are deleted, by a trim or by retention, and
down with a truncation.  It is written to `log-start-offset-checkpoint`, at once
by a trim and on a timer by retention, and `Log::open` restores it from there.
`StartedLog` is a log with that file.

Which segments retention deletes is a choice of the caller here, as it depends on
sizes, times and the configuration.
-/

namespace Krabka.Log

variable {ρ : Type}

namespace PartitionLog

variable (l : PartitionLog ρ)

/-- `advance_log_start_offset`, without the checkpoint file. -/
def advanceLogStart (newStart : Int) : Except LogError (PartitionLog ρ) :=
  if newStart < 0 then
    .error (.invalidArgument "set_log_start_offset: new_start must be >= 0")
  else
    let start := max l.startOffset newStart
    let moved := { l with startOffset := start, startOffsetEstablished := true }
    if newStart > l.startOffset then
      let state := { l.state with unreplicated := l.state.unreplicated.keepValues (start ≤ ·) }
      match state.refreshLso l.logEndOffset with
      | .error e => .error e
      | .ok lso =>
        .ok { moved with epochs := l.epochs.truncateFromStart start, state := state, lso := lso }
    else .ok moved

/-- `remove_sealed_segments`, for the `n` oldest ones. -/
def dropSealed (n : Nat) : PartitionLog ρ :=
  { l with
    segments := l.segments.drop n
    snapshots := l.snapshots.retain fun offset =>
      offset ∉ (l.segments.take n).map Segment.baseOffset }

/-- How many sealed segments end below `target`: their next one begins at or below
it. -/
def sealedBelow (target : Int) : Nat :=
  ((l.segments.drop 1 ++ [l.active]).takeWhile fun next => next.baseOffset ≤ target).length

/-- The start that `open` restores from a checkpoint. -/
def effectiveStart (checkpointed : Int) : Int :=
  let capped := min checkpointed l.logEndOffset
  if l.remoteStorageEnable then capped else max capped l.firstLocalOffset

/-- `Log::open` on the directory of `l` with this log-start checkpoint. -/
def openFrom (checkpoint : Option Int) : Except LogError (PartitionLog ρ) :=
  match l.openFiles with
  | .error e => .error e
  | .ok found =>
    rebuildProducerAndTransactionState
      (match checkpoint with
      | none => found
      | some checkpointed =>
        let start := found.effectiveStart checkpointed
        { found with
          startOffset := start
          startOffsetEstablished := true
          epochs := found.epochs.truncateFromStart start })

end PartitionLog

structure StartedLog (ρ : Type) where
  log : PartitionLog ρ
  /-- The start that the file holds. -/
  checkpointedStart : Option Int
  /-- Whether a start is owed to the file. -/
  checkpointDue : Bool

namespace StartedLog

def fresh (remoteStorageEnable : Bool) : StartedLog ρ := ⟨.fresh remoteStorageEnable, none, false⟩

variable (s : StartedLog ρ)

def setLogStartOffset (newStart : Int) : Except LogError (StartedLog ρ) :=
  match s.log.advanceLogStart newStart with
  | .error e => .error e
  | .ok l =>
    if s.checkpointedStart = some l.startOffset then .ok { s with log := l }
    else .ok ⟨l, some l.startOffset, false⟩

def trimToOffset (target : Int) : Except LogError (StartedLog ρ) :=
  if target < 0 then .error (.invalidArgument "trim_to_offset: target must be >= 0")
  else
    let target := min target s.log.logEndOffset
    if target ≤ s.log.startOffset then .ok s
    else setLogStartOffset { s with log := s.log.dropSealed (s.log.sealedBelow target) } target

/-- Retention deletes the `n` oldest segments of a log without remote storage, and
rolls first when none would be left; then `follow_retained_segments`. -/
def enforceRetention (n : Nat) : Except LogError (StartedLog ρ) :=
  if s.log.remoteStorageEnable then .ok s
  else
    let l := if n > s.log.segments.length then s.log.roll else s.log
    let l := l.dropSealed n
    match l.advanceLogStart l.firstLocalOffset with
    | .error e => .error e
    | .ok l =>
      .ok ⟨l, s.checkpointedStart, if s.checkpointedStart = some l.startOffset then false else true⟩

/-- `flush_log_start_checkpoint` and `checkpoint_log_start_if_due`. -/
def flushLogStartCheckpoint : StartedLog ρ :=
  if s.checkpointDue then ⟨s.log, some s.log.startOffset, false⟩ else s

/-- `reset_to`, which removes the checkpoint. -/
def resetTo (newBase : Int) : Except LogError (StartedLog ρ) :=
  match s.log.resetTo newBase with
  | .error e => .error e
  | .ok l => .ok ⟨l, none, false⟩

/-- `truncate_to`.  A cut below the local log resets it, and a start that moves
down is written. -/
def truncateTo (offset : Int) : Except LogError (StartedLog ρ) :=
  match s.log.truncateTo offset with
  | .error e => .error e
  | .ok l =>
    if offset < s.log.logEndOffset ∧ offset < s.log.firstLocalOffset then .ok ⟨l, none, false⟩
    else if l.startOffset < s.log.startOffset then .ok ⟨l, some l.startOffset, false⟩
    else .ok { s with log := l }

def assignEpochStartOffset (epoch startOffset : Int) : Except LogError (StartedLog ρ) :=
  match s.log.epochs.assign epoch startOffset with
  | .error e => .error e
  | .ok epochs => .ok { s with log := { s.log with epochs := epochs } }

/-- `Log::open`, with what it writes back to the checkpoint. -/
def reopen : Except LogError (StartedLog ρ) :=
  match s.log.openFrom s.checkpointedStart with
  | .error e => .error e
  | .ok l =>
    match s.checkpointedStart with
    | none => .ok ⟨l, none, false⟩
    | some checkpointed =>
      let capped := min checkpointed l.logEndOffset
      if capped ≠ checkpointed then .ok ⟨l, some l.startOffset, false⟩
      else .ok ⟨l, some checkpointed, l.startOffset ≠ capped⟩

/-- `Log::close`, then `Log::open`.  The snapshot of the close syncs the log, which
pays what is owed to the checkpoint. -/
def closeAndReopen : Except LogError (StartedLog ρ) :=
  let snapped := { s with log := s.log.takeProducerSnapshot }
  if s.log.logEndOffset > (s.log.producerReloadRange s.log.logEndOffset).logStart then
    snapped.flushLogStartCheckpoint.reopen
  else snapped.reopen

end StartedLog

end Krabka.Log

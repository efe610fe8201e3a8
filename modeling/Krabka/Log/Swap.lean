import Krabka.Lib.Directory
import Krabka.Log.Kernels

/-!
# The compaction swap and its recovery

`compact/swap.rs` replaces a group of sealed segments by their rewritten
survivor, and `recovery/swap.rs` finishes or aborts an interrupted swap when the
log is opened.  Both are lists of directory operations here, in the order of the
source, over a directory whose operations become durable in any order until the
next `sync_dir`.

`SwapGroup.system` runs the swap of one group, stops it anywhere by a kill or a
power loss, and recovers any number of times.
-/

namespace Krabka.Log

open Durable

/-! ## Names and contents -/

inductive Ext where
  | log
  | index
  | timeindex
  | txnindex
  | stampindex
  | snapshot
  deriving DecidableEq

inductive Suffix where
  | final
  | swap
  | cleaned
  deriving DecidableEq

/-- `<base>.<ext><suffix>`. -/
structure FileName where
  base : Int
  ext : Ext
  suffix : Suffix
  deriving DecidableEq

variable (base : Int)

def finalPath (ext : Ext) : FileName := ⟨base, ext, .final⟩

def swapPath (ext : Ext) : FileName := ⟨base, ext, .swap⟩

def cleanedPath (ext : Ext) : FileName := ⟨base, ext, .cleaned⟩

def swapExtensions : List Ext := [.log, .index, .timeindex, .txnindex]

def swapSidecars : List Ext := [.index, .timeindex, .txnindex]

def replacedExtensions : List Ext := [.log, .index, .timeindex, .txnindex, .stampindex]

structure BatchHeader where
  baseOffset : Int
  lastOffsetDelta : Int
  batchLength : Int
  deriving DecidableEq

/-- A batch of a `.log` file: its header and the bytes behind it. -/
structure StoredBatch (β : Type) where
  header : BatchHeader
  body : β
  deriving DecidableEq

/-- A file: a log of whole batches, a sidecar, or a file just created. -/
inductive Contents (β : Type) where
  | log (batches : List (StoredBatch β))
  | sidecar (bytes : β)
  | empty
  deriving DecidableEq

variable {β : Type}

/-- The bytes of a batch: `batch_length` and the `LOG_OVERHEAD` before it. -/
def BatchHeader.encodedLen (h : BatchHeader) : Option Nat :=
  if 0 ≤ h.batchLength then some (h.batchLength.toNat + 12) else none

/-- The loop of `swap_next_offset` from a batch boundary on. -/
def swapNextOffsetFrom (fileEnd position : Nat) (next : Int) : List (StoredBatch β) → Option Int
  | [] => some next
  | b :: batches => do
    let encodedLen ← b.header.encodedLen
    let step ← localRecoveryBatchStep position fileEnd next b.header.baseOffset
      b.header.lastOffsetDelta encodedLen
    swapNextOffsetFrom fileEnd step.validEnd step.nextOffset batches

def fileEnd (batches : List (StoredBatch β)) : Nat :=
  (batches.map fun b => b.header.encodedLen.getD 0).sum

def swapNextOffset (file : Option (Contents β)) (base : Int) : Except LogError Int :=
  match file with
  | some (.log batches) =>
    match swapNextOffsetFrom (fileEnd batches) 0 base batches with
    | some next => .ok next
    | none => .error (.corrupt s!"committed swap {base}.log.swap is malformed")
  | _ => .error .io

/-! ## The operations -/

inductive FileOp where
  | syncFile (name : FileName)
  | rename (source target : FileName)
  /-- `remove_if_present`. -/
  | unlink (name : FileName)
  /-- One turn of `promote_sidecars`. -/
  | promoteSidecar (base : Int) (ext : Ext)
  | syncDir
  deriving DecidableEq

def FileOp.sem : FileOp → Action FileName (Contents β)
  | .syncFile name => .issue fun e => if (e name).isSome then some [] else none
  | .rename source target => .issue fun e =>
    (e source).map fun file => [(source, none), (target, some file)]
  | .unlink name => .issue fun _ => some [(name, none)]
  | .promoteSidecar base ext => .issue fun e =>
    match e (swapPath base ext) with
    | some file => some [(swapPath base ext, none), (finalPath base ext, some file)]
    | none =>
      if ext ≠ .txnindex ∧ (e (finalPath base ext)).isNone then
        some [(finalPath base ext, some .empty)]
      else some []
  | .syncDir => .sync

def removeReplacedSegment : List FileOp :=
  replacedExtensions.map fun ext => .unlink (finalPath base ext)

def promoteLog : List FileOp :=
  [.rename (swapPath base .log) (finalPath base .log), .syncDir]

def promoteSidecars : List FileOp :=
  swapSidecars.map (.promoteSidecar base) ++ [.syncDir]

def replacesProducerSnapshot (consumed newBase : Int) : Bool := consumed ≠ newBase

/-- The `retire` of `atomic_swap`. -/
def retire (newBase base : Int) : List FileOp :=
  removeReplacedSegment base ++
    if replacesProducerSnapshot base newBase then [.unlink (finalPath base .snapshot)] else []

/-- Step 2 for one sidecar: staged, or a stale one removed. -/
def stageSidecar (written : Bool) (ext : Ext) : List FileOp :=
  if written then [.rename (cleanedPath base ext) (swapPath base ext)]
  else [.unlink (swapPath base ext), .unlink (cleanedPath base ext)]

/-- `atomic_swap`.  The rewrite writes a `.txnindex` only when an aborted
transaction survives. -/
def atomicSwap (consumed : List Int) (base : Int) (txnindexWritten : Bool) : List FileOp :=
  let sidecars := [(Ext.index, true), (.timeindex, true), (.txnindex, txnindexWritten)]
  (.syncFile (cleanedPath base .log) ::
      (sidecars.filter (·.2)).map fun s => .syncFile (cleanedPath base s.1)) ++
    sidecars.flatMap (fun s => stageSidecar base s.2 s.1) ++
    [.syncDir, .rename (cleanedPath base .log) (swapPath base .log), .syncDir] ++
    consumed.flatMap (retire base) ++
    [.syncDir] ++ promoteLog base ++ promoteSidecars base

/-! ## The recovery -/

structure LocalRecoverySwapFacts where
  logCleanedExists : Bool
  logSwapExists : Bool
  finalLogExists : Bool

inductive LocalRecoverySwapAction where
  | abortSwap
  | completeSwap
  | promoteSidecars
  | reject
  deriving DecidableEq

def localRecoverySwapAction (facts : LocalRecoverySwapFacts) : LocalRecoverySwapAction :=
  if facts.logCleanedExists then .abortSwap
  else if facts.logSwapExists then .completeSwap
  else if facts.finalLogExists then .promoteSidecars
  else .reject

def localRecoverySwapReplaces (swapBase swapNext segmentBase : Int) : Bool :=
  segmentBase = swapBase ∨ (swapBase < segmentBase ∧ segmentBase < swapNext)

/-- `Listing`: ordered sets of names. -/
structure Listing where
  swapBases : List Int
  logSwapBases : List Int
  logBases : List Int
  cleaned : List (Int × Ext)

/-- What `Listing::scan` reads off the entries. -/
structure Listing.Scans (l : Listing) (e : Entries FileName (Contents β)) : Prop where
  ascending : l.swapBases.Pairwise (· < ·)
  swapBases : ∀ b, b ∈ l.swapBases ↔ ∃ ext ∈ swapExtensions, (e (swapPath b ext)).isSome
  logSwapBases : ∀ b, b ∈ l.logSwapBases ↔ (e (swapPath b .log)).isSome
  logBases : ∀ b, b ∈ l.logBases ↔ (e (finalPath b .log)).isSome
  cleaned : ∀ b ext, (b, ext) ∈ l.cleaned ↔
    ext ∈ swapExtensions ∧ (e (cleanedPath b ext)).isSome

/-- One turn of the loop of `recover_swaps`. -/
def recoverSwap (l : Listing) (e : Entries FileName (Contents β)) (base : Int) :
    Except LogError (List FileOp) :=
  match localRecoverySwapAction
    ⟨decide ((base, Ext.log) ∈ l.cleaned), decide (base ∈ l.logSwapBases),
      decide (base ∈ l.logBases)⟩ with
  | .abortSwap => .ok (swapExtensions.map fun ext => .unlink (swapPath base ext))
  | .completeSwap =>
    match swapNextOffset (e (swapPath base .log)) base with
    | .error error => .error error
    | .ok next => .ok
      (((l.logBases ++ [base]).filter (localRecoverySwapReplaces base next)).flatMap
        removeReplacedSegment ++ [.syncDir] ++ promoteLog base ++ promoteSidecars base)
  | .promoteSidecars => .ok (promoteSidecars base)
  | .reject => .error (.corrupt s!"swap sidecars for segment {base} have no log file")

/-- The last part of `recover_swaps`. -/
def removeCleaned (cleaned : List (Int × Ext)) : List FileOp :=
  if cleaned.isEmpty then []
  else .syncDir :: cleaned.map fun file => .unlink (cleanedPath file.1 file.2)

/-- `recover_swaps` for the given swap bases: its operations, and the error that
stops them. -/
def recoverSwapsFrom (l : Listing) (e : Entries FileName (Contents β)) :
    List Int → List FileOp × Option LogError
  | [] => (removeCleaned l.cleaned, none)
  | base :: bases =>
    match recoverSwap l e base with
    | .error error => ([], some error)
    | .ok ops => (ops ++ (recoverSwapsFrom l e bases).1, (recoverSwapsFrom l e bases).2)

def recoverSwaps (l : Listing) (e : Entries FileName (Contents β)) :
    List FileOp × Option LogError :=
  recoverSwapsFrom l e l.swapBases

/-- What a recovery that starts from the entries does. -/
def RecoveryPlan (e : Entries FileName (Contents β)) (ops : List FileOp) : Prop :=
  ∃ l : Listing, l.Scans e ∧ recoverSwaps l e = (ops, none)

/-! ## A group and its survivor -/

/-- The consumed segments of one rewrite and what it wrote. -/
structure SwapGroup (β : Type) where
  consumed : List Int
  base : Int
  logs : Int → List (StoredBatch β)
  survivor : List (StoredBatch β)
  next : Int
  index : β
  timeindex : β
  txnindex : Option β
  base_mem : base ∈ consumed
  base_le : ∀ c ∈ consumed, base ≤ c
  next_eq : swapNextOffset (some (.log survivor)) base = .ok next

namespace SwapGroup

variable (g : SwapGroup β)

/-- The consumed segments that completing the swap replaces. -/
def Replaces (c : Int) : Prop := localRecoverySwapReplaces g.base g.next c

instance (c : Int) : Decidable (g.Replaces c) := inferInstanceAs (Decidable (_ = true))

/-- The directory that the rewrite found: the consumed segments, no other
segment among them, and no swap but sidecars that a failed pass left. -/
structure Before (e : Entries FileName (Contents β)) : Prop where
  consumed : ∀ c ∈ g.consumed, e (finalPath c .log) = some (.log (g.logs c))
  others : ∀ b, b ∉ g.consumed → (e (finalPath b .log)).isSome → ¬ g.Replaces b
  noLogSwap : e (swapPath g.base .log) = none
  noOtherSwap : ∀ b ext, b ≠ g.base → e (swapPath b ext) = none

/-- The files the rewrite created, none of them synced into the directory. -/
def written : List (Effect FileName (Contents β)) :=
  [[(cleanedPath g.base .log, some (.log g.survivor))],
    [(cleanedPath g.base .index, some (.sidecar g.index))],
    [(cleanedPath g.base .timeindex, some (.sidecar g.timeindex))]] ++
  match g.txnindex with
  | none => []
  | some bytes => [[(cleanedPath g.base .txnindex, some (.sidecar bytes))]]

variable (before : Entries FileName (Contents β))

/-- The swap about to start. -/
def start : Machine FileOp FileName (Contents β) :=
  ⟨⟨before, g.written⟩, atomicSwap g.consumed g.base g.txnindex.isSome, .working⟩

/-- The swap, crashes, and recoveries in any order. -/
def system : TransitionSystem (Machine FileOp FileName (Contents β)) Event :=
  crashSystem FileOp.sem (· = g.start before) RecoveryPlan

/-- No crash can undo the commit that the recovery will see. -/
def CommitDurable (d : Directory FileName (Contents β)) : Prop :=
  (d.live (swapPath g.base .log)).isSome →
    ∀ e, d.Image e → (e (swapPath g.base .log)).isSome

/-- The runs whose recoveries all find the commit durable. -/
def durableSystem : TransitionSystem (Machine FileOp FileName (Contents β)) Event :=
  (g.system before).restrict fun m a _ => a = .recover → g.CommitDurable m.dir

end SwapGroup

end Krabka.Log

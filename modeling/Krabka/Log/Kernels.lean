import Mathlib.Algebra.GroupWithZero.Nat
import Mathlib.Data.Int.Order.Basic

/-!
# Errors and offset arithmetic of the log

Offsets are `i64` in the source and `Int` here.  The checks against the end of
the `i64` and `u32` ranges are kept where the source makes them.
-/

namespace Krabka.Log

def i64Max : Int := 9223372036854775807

def i64Min : Int := -9223372036854775808

def u32Max : Int := 4294967295

/-- The errors of `error.rs` that the modelled functions return. -/
inductive LogError where
  | io
  | offsetTooLow (requested logStart : Int)
  | offsetBelowLocalStart (requested localLogStart : Int)
  | offsetMismatch (expected actual : Int)
  | corrupt (message : String)
  | badSegmentName (message : String)
  | invalidArgument (message : String)
  | fenced
  deriving DecidableEq

/-- `restore_batch_step`: the exclusive next offset of a batch that begins at or
above `minimumBase`. -/
def restoreBatchStep (minimumBase base lastDelta : Int) : Option Int :=
  if lastDelta < 0 ∨ base < minimumBase then none
  else if base > i64Max - lastDelta - 1 then none
  else some (base + lastDelta + 1)

structure LocalRecoveryStep where
  validEnd : Nat
  lastOffset : Int
  nextOffset : Int
  deriving DecidableEq

/-- `local_recovery_batch_step`: one whole batch joins the valid prefix.  A
`u64` overflow of the position lies above every file end. -/
def localRecoveryBatchStep (position fileEnd : Nat) (expectedOffset batchBase lastOffsetDelta : Int)
    (encodedLen : Nat) : Option LocalRecoveryStep :=
  if position > fileEnd ∨ encodedLen = 0 then none
  else if position + encodedLen > fileEnd then none
  else (restoreBatchStep expectedOffset batchBase lastOffsetDelta).map fun nextOffset =>
    ⟨position + encodedLen, nextOffset - 1, nextOffset⟩

end Krabka.Log

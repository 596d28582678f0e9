import Mathlib.Algebra.Ring.Int.Defs
import Mathlib.Algebra.Ring.Nat
import RagPipeline.Relational.Table

/-!
# Rows and states of the center service

The types of `internal/domain` and the columns of `center.db`. An instant is a number of
nanoseconds; Go's `int` is an integer whose sums wrap at 64 bits.
-/
namespace Center

open Relational

/-- A UTC instant in nanoseconds. -/
abbrev Time := Int

/-- `a + b` on Go's 64-bit `int`. -/
def addInt (a b : Int) : Int := Int.bmod (a + b) (2 ^ 64)

theorem addInt_of_lt {a b : Int} (h₀ : 0 ≤ a + b) (h : a + b < 2 ^ 63) : addInt a b = a + b :=
  Int.bmod_eq_of_le (by omega) (by omega)

inductive DocumentStatus where
  | processing
  | indexed
  | failed
  deriving DecidableEq, Repr

structure Document where
  hash : String
  permBucketPath : String
  fileName : String
  size : Int
  status : DocumentStatus
  retries : Int
  createdAt : Time
  updatedAt : Time
  deriving DecidableEq, Repr

instance : Keyed Document String := ⟨Document.hash⟩

/-- What applying a FAILED status event did to the document. -/
inductive FailedOutcome where
  | stale
  | retried
  | exhausted
  deriving DecidableEq, Repr

inductive OutboxStatus where
  | pending
  | claimed
  | published
  | blocked
  deriving DecidableEq, Repr

structure OutboxMessage where
  id : Nat
  hash : String
  status : OutboxStatus
  claimedBy : Option String
  claimedAt : Option Time
  retries : Int
  createdAt : Time
  deriving DecidableEq, Repr

instance : Keyed OutboxMessage Nat := ⟨OutboxMessage.id⟩

inductive IntentState where
  | unknown
  | waiting
  | uploaded
  | hashing
  | hashed
  | expired
  | failed
  deriving DecidableEq, Repr

structure Intent where
  id : String
  fileName : String
  tempBucketPath : Option String
  hash : Option String
  createdAt : Time
  expiresAt : Time
  uploadedAt : Option Time
  status : IntentState
  claimedBy : Option String
  claimedAt : Option Time
  retries : Int
  deriving DecidableEq, Repr

instance : Keyed Intent String := ⟨Intent.id⟩

@[simp] theorem key_document (d : Document) : key d = d.hash := rfl
@[simp] theorem key_outboxMessage (m : OutboxMessage) : key m = m.id := rfl
@[simp] theorem key_intent (i : Intent) : key i = i.id := rfl

/-- The bound on ingestion attempts, as the configuration check lets it through. -/
structure MaxAttempts where
  val : Int
  pos : 1 ≤ val
  int64 : val < 2 ^ 63

end Center

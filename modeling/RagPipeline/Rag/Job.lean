import RagPipeline.Events.StatusEvent
import RagPipeline.Interact.Program

/-!
# Ingest jobs

What one ingest attempt ends in, the errors a processor raises, and the classification of
`run_job`. Durations and readings of the monotonic clock are microseconds.

## Main definitions

* `runJob`: the outcome of a job, or the process exit that is not caught.
* `ProcessorSig`: a processor as the consumer calls it.
-/
namespace Rag

open Events Wire Interact

abbrev Micros := Int

/-- What Python code here raises and tells apart. -/
inductive PyError where
  /-- `ResponseError`, with what the code looks for in its text. -/
  | response (noGroup busyGroup : Bool)
  /-- Any other `RedisError`. -/
  | redis
  | invalidEvent (e : InvalidEvent)
  /-- Any other `Exception`. -/
  | other (typeName : PyStr)
  /-- A `BaseException` that is no `Exception`: a process exit, Ctrl-C. -/
  | exit
  deriving DecidableEq

namespace PyError

def isRedisError : PyError → Bool
  | response .. | redis => true
  | _ => false

def isException : PyError → Bool
  | exit => false
  | _ => true

def isNoGroup : PyError → Bool
  | response noGroup _ => noGroup
  | _ => false

end PyError

inductive Outcome where
  | indexed (chunkCount : Option Int)
  | failed (retryable : Bool) (reason : Reason) (detail : Option PyStr)
  deriving DecidableEq

/-- What a processor raises. -/
inductive JobError where
  | permanent (reason : Reason) (detail : Option PyStr)
  | transient (reason : Reason) (detail : Option PyStr)
  | unclassified (reason : Reason) (detail : Option PyStr)
  | other (typeName : PyStr)
  | exit
  deriving DecidableEq

/-- `run_job`, given what the processor did. -/
def runJob : Except JobError Outcome → Except PyError Outcome
  | .ok outcome => .ok outcome
  | .error (.permanent reason detail) => .ok (.failed false reason detail)
  | .error (.transient reason detail) => .ok (.failed true reason detail)
  | .error (.unclassified reason detail) => .ok (.failed true reason detail)
  | .error (.other typeName) => .ok (.failed true .internal (some typeName))
  | .error .exit => .error .exit

/-- One call of a processor. -/
structure JobCall where
  event : IngestEvent
  deadline : Micros

def ProcessorSig : Signature where
  Cmd := JobCall
  Reply _ := Except JobError Outcome

end Rag

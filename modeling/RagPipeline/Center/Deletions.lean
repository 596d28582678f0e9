import RagPipeline.Center.StatusWorker
import RagPipeline.Interact.Contract

/-!
# What of a status worker deletes no consumer

Whatever they are answered, all functions but the cleanup, and what calls it, issue no
`XGROUP DELCONSUMER`.

## Main definitions

* `StatusWorker.Spares`: the other commands.
-/
namespace Center

namespace StatusWorker

open Events Interact Prog

/-- Not a deletion. -/
def Spares : StatusCmd → Prop
  | .xgroupDelConsumer _ => False
  | _ => True

variable {cfg : StatusConfig} {maxAttempts : Int} {id : String}

theorem issues_command {c : StatusCmd} (hc : Spares c) :
    Issues Spares (perform c) :=
  Prog.issues_perform hc

theorem issues_healthy : Issues Spares (handler maxAttempts).healthy :=
  issues_command trivial

theorem issues_handle {fields : Fields} :
    Issues Spares ((handler maxAttempts).handle fields) := by
  rw [Handler.handle_eq]
  split
  · exact issues_pure
  · split
    all_goals
      refine issues_do (issues_command trivial) fun now => issues_do (issues_command trivial) ?_
      rintro (_ | _) <;> exact issues_pure

theorem issues_ensureGroup {P : StatusCmd → Prop} (hcreate : P .xgroupCreate)
    (hsleep : ∀ duration, P (.sleep duration)) : Issues P (ensureGroup cfg) := by
  refine issues_iterate fun _ => issues_do (issues_do (issues_perform hcreate) ?_) ?_
  · rintro (_ | _) <;> exact issues_pure
  · rintro (_ | _)
    · exact issues_do (issues_perform (hsleep _)) fun _ => issues_ite issues_pure issues_pure
    · exact issues_pure

theorem issues_waitUntilHealthy : Issues Spares (waitUntilHealthy cfg maxAttempts) := by
  refine issues_iterate fun _ => issues_do (issues_command trivial) fun _ =>
    issues_ite issues_pure (issues_do issues_healthy ?_)
  rintro (_ | _)
  · exact issues_do (issues_command trivial) fun _ => issues_pure
  · exact issues_pure

theorem issues_pause {retried : Bool} : Issues Spares (pause cfg retried) :=
  issues_do (issues_command trivial) fun _ => issues_ite issues_pure issues_pure

theorem issues_process {e : StatusEntry} : Issues Spares (process cfg maxAttempts e) := by
  have hack : Issues Spares (ack e.id) := issues_do (issues_command trivial) fun _ => issues_pure
  refine issues_iterate fun retried => issues_do issues_handle fun finished => ?_
  refine issues_ite (issues_do hack fun _ => issues_pure) ?_
  refine issues_do (issues_command trivial) fun cancelled => ?_
  refine issues_ite issues_pure (issues_do issues_healthy ?_)
  rintro (_ | _)
  · exact issues_do issues_waitUntilHealthy fun _ => issues_pause
  · exact issues_ite issues_pure issues_pause

theorem issues_processAll {failed : Nat} {entries : List StatusEntry} :
    Issues Spares (processAll cfg maxAttempts failed entries) := by
  induction entries generalizing failed with
  | nil => exact issues_pure
  | cons e rest ih =>
    refine issues_do (issues_command trivial) fun _ => issues_ite issues_pure ?_
    exact issues_do issues_process fun _ => issues_ite ih ih

theorem issues_readOnce : Issues Spares (readOnce cfg maxAttempts id) := by
  refine issues_do (issues_command trivial) ?_
  rintro (_ | _)
  · exact issues_pure
  · exact issues_processAll

theorem issues_takeOver {entries : List StatusEntry} :
    Issues Spares (takeOver cfg maxAttempts entries) := by
  induction entries with
  | nil => exact issues_pure
  | cons e rest ih =>
    refine issues_do (issues_command trivial) fun _ => issues_ite issues_pure ?_
    refine issues_do (issues_do (issues_command trivial) fun _ => issues_pure) ?_
    rintro (_ | deliveries)
    · exact ih
    · refine issues_ite ?_ (issues_do issues_process fun _ => ih)
      refine issues_do (issues_command trivial) fun _ => ?_
      exact issues_do (issues_do (issues_command trivial) fun _ => issues_pure) fun _ => ih

theorem issues_claimAndProcess {rounds : Nat} :
    Issues Spares (claimAndProcess cfg maxAttempts id rounds) := by
  induction rounds with
  | zero => exact issues_pure
  | succ rounds ih =>
    refine issues_do (issues_command trivial) ?_
    rintro (_ | entries)
    · exact issues_pure
    · exact issues_do issues_takeOver fun _ =>
        issues_ite issues_pure (issues_ite issues_pure ih)

theorem issues_storeHealthy : Issues Spares (storeHealthy maxAttempts) := by
  refine issues_do issues_healthy ?_
  rintro (_ | _) <;> exact issues_pure

theorem issues_afterRead {P : StatusCmd → Prop} (hcreate : P .xgroupCreate)
    (hsleep : ∀ duration, P (.sleep duration)) (hcancelled : P .cancelled)
    {result : Except ReadError Unit} : Issues P (afterRead cfg result) := by
  rcases result with e | _
  · refine issues_do (issues_perform hcancelled) fun _ => issues_ite issues_pure ?_
    split
    · exact issues_ensureGroup hcreate hsleep
    · exact issues_do (issues_perform (hsleep _)) fun _ => issues_pure
  · exact issues_pure

theorem issues_read {nextRecovery : Option Time} :
    Issues Spares (turn.read cfg maxAttempts id nextRecovery) :=
  issues_do issues_readOnce fun _ =>
    issues_do (issues_afterRead trivial (fun _ => trivial) trivial) fun _ =>
    issues_ite issues_pure issues_pure

end StatusWorker

end Center

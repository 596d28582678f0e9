import RagPipeline.Interact.Notes
import RagPipeline.Rag.StreamConsumer

/-!
# The consumer with a note where a status is held

The methods of `StreamConsumer` that lead to `_finish`, each with a note of what it has put into
the slot. `_finish` is the last thing that `_handle` and `_report_poison` do, so the note stands
where it holds.

## Main definitions

* `Noted.noting`: a method, and a note of what it holds when it returns.
* `Noted.main`: the consumer with its notes.

## Main results

* `erase_main`: without its notes it is the consumer.
-/
namespace Rag

open Events Wire Interact Method StreamConsumer

/-- An entry and its status, whose publish failed. -/
abbrev Hold := EntryId × StatusEvent

abbrev NotedCall := ConsumerCall.sum (NoteSig Hold)

abbrev NotedConsumer := Method NotedCall ConsumerState PyError

namespace Noted

def noting {α : Type} (m : Consumer α) : NotedConsumer α := do
  let a ← lift m
  match (← self).held with
  | some x => note x
  | none => pure ()
  return a

variable (settings : ConsumerSettings) (name : String)

def readOnce : NotedConsumer Unit := do
  let block := max 1 (min (ms settings.readBlock) (ms settings.recoveryInterval))
  let reply ← lift (perform (.xreadgroup name block))
  let response ← lift (ofExcept reply)
  response.entries.forM fun e => do
    match ← lift (parse e.id e.fields) with
    | some event => let _ ← noting (handle settings e.id event)
    | none => pure ()

def claimAndProcess : Nat → NotedConsumer Unit
  | 0 => pure ()
  | jobs + 1 => do
    match ← lift (claimOne settings name maxClaimPages 0) with
    | none => pure ()
    | some e =>
      match ← lift (parse e.id e.fields) with
      | none => claimAndProcess jobs
      | some event =>
        match ← lift (ownPending name e.id) with
        | none => claimAndProcess jobs
        | some deliveries =>
          if deliveries > settings.poisonThreshold then
            noting (reportPoison settings e.id event deliveries)
          else
            let _ ← noting (handle settings e.id event)
          if (← self).held.isSome then
            return ()
          claimAndProcess jobs

def recoverOnce : NotedConsumer Unit := do
  let claimError ← tryExcept
    (do claimAndProcess settings name settings.maxRecoveryJobs; return none)
    fun e => if e.isException then return some e else raise e
  lift (cleanupConsumers settings name)
  match claimError with
  | some e => raise e
  | none => pure ()

def guarded (step : NotedConsumer Unit) : NotedConsumer Unit :=
  tryExcept step fun e => do
    if e.isRedisError then
      if e.isNoGroup then
        let _ ← lift (ensureGroupUntilReady settings)
      else
        let _ ← lift (sleep settings.retryDelay)
    else if e.isException then
      let _ ← lift (sleep settings.retryDelay)
    else
      raise e

def turn (nextRecovery : Micros) : NotedConsumer (Micros ⊕ Unit) := do
  if ← lift stopped then
    return .inr ()
  if (← self).held.isSome then
    guarded settings (do let _ ← lift (retryHeld name))
    if (← self).held.isSome then
      let _ ← lift (sleep settings.retryDelay)
    return .inl nextRecovery
  if (← lift clock) ≥ nextRecovery then
    guarded settings (recoverOnce settings name)
    let nextRecovery := (← lift clock) + settings.recoveryInterval
    if (← self).held.isSome then
      return .inl nextRecovery
    guarded settings (readOnce settings name)
    return .inl nextRecovery
  guarded settings (readOnce settings name)
  return .inl nextRecovery

def run : NotedConsumer Unit := do
  if ← lift (ensureGroupUntilReady settings) then
    loop 0 (turn settings name)

def main : Prog NotedCall Unit :=
  (run settings name ⟨none, 0⟩).bind fun _ => .ret ()

end Noted

/-! ### Without the notes -/

section Erase

variable {settings : ConsumerSettings} {name : String}

theorem erase_noting {α : Type} (m : Consumer α) : erase (Noted.noting m) = m := by
  simp only [Noted.noting, erase_bind, erase_lift, erase_self]
  funext s
  refine (congrArg (Prog.bind (m s)) (funext ?_)).trans (Prog.bind_ret _)
  rintro ⟨_ | a, s⟩
  · rfl
  · change erase (match s.held with
      | some x => _
      | none => _) s = _
    cases s.held <;> rfl

theorem erase_readOnce : erase (Noted.readOnce settings name) = readOnce settings name := by
  simp only [Noted.readOnce, readOnce, erase_bind, erase_lift, erase_forM]
  refine congrArg _ (funext fun r => congrArg _ (funext fun b => congrArg _ (funext fun e => ?_)))
  refine congrArg _ (funext fun o => ?_)
  cases o with
  | none => rfl
  | some event => rw [erase_bind, erase_noting]; rfl

theorem erase_claimAndProcess (jobs : Nat) :
    erase (Noted.claimAndProcess settings name jobs) = claimAndProcess settings name jobs := by
  induction jobs with
  | zero => rfl
  | succ jobs ih =>
    simp only [Noted.claimAndProcess, claimAndProcess, erase_bind, erase_lift]
    refine congrArg _ (funext fun o => ?_)
    cases o with
    | none => rfl
    | some e =>
      simp only [erase_bind, erase_lift]
      refine congrArg _ (funext fun o => ?_)
      cases o with
      | none => exact ih
      | some event =>
        simp only [erase_bind, erase_lift]
        refine congrArg _ (funext fun o => ?_)
        cases o with
        | none => exact ih
        | some deliveries =>
          simp only [erase_ite, erase_bind, erase_noting, erase_self, erase_pure, ih]

theorem erase_recoverOnce :
    erase (Noted.recoverOnce settings name) = recoverOnce settings name := by
  simp only [Noted.recoverOnce, recoverOnce, erase_bind, erase_tryExcept, erase_claimAndProcess,
    erase_pure, erase_ite, erase_raise, erase_lift]
  refine congrArg _ (funext fun o => congrArg _ (funext fun _ => ?_))
  cases o <;> rfl

theorem erase_guarded {step : NotedConsumer Unit} :
    erase (Noted.guarded settings step) = guarded settings (erase step) := by
  simp only [Noted.guarded, guarded, erase_tryExcept, erase_ite, erase_bind, erase_lift, erase_pure,
    erase_raise]

theorem erase_turn (nextRecovery : Micros) :
    erase (Noted.turn settings name nextRecovery) = turn settings name nextRecovery := by
  simp only [Noted.turn, turn, erase_ite, erase_bind, erase_lift, erase_pure, erase_self,
    erase_guarded, erase_recoverOnce, erase_readOnce]

theorem erase_main : (Noted.main settings name).erase = main settings name := by
  have hrun : erase (Noted.run settings name) = run settings name := by
    simp only [Noted.run, run, erase_bind, erase_lift, erase_ite, erase_loop, erase_turn,
      erase_pure]
  refine (Prog.interpret_bind _ _).trans ?_
  exact congrArg (Prog.bind · fun _ => .ret ()) (congrFun hrun ⟨none, 0⟩)

end Erase

end Rag

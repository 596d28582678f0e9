import RagPipeline.Center.Batch

/-!
# The worker over any handler

The whole status worker, with what it asks its handler as commands of their own: a run then shows
on which entries `Handle` was called, and what it returned. With the status handler behind these
commands it is `StatusWorker.run`.

## Main definitions

* `HandlerCmd`, `WorkerSig`: what the worker asks of its handler, and of everything else.
* `EntryWorker.run`: the worker.

## Main results

* `EntryWorker.interpret_run`: over the status handler it is the status worker.
-/
namespace Center

open Interact

/-- What the worker asks of an `EntryHandler` that is a `healthChecker`. -/
inductive HandlerCmd where
  | handle (e : StatusEntry)
  | healthy

def HandlerSig : Signature where
  Cmd := HandlerCmd
  Reply
    | .handle _ => Bool
    | .healthy => Except StoreError Unit

abbrev WorkerSig := HandlerSig.sum StatusSig

namespace EntryWorker

open Prog
open StatusWorker (ReadError maxRecoveryRounds)

def ask (c : HandlerCmd) : Prog WorkerSig (HandlerSig.Reply c) :=
  Prog.perform (S := WorkerSig) (.inl c)

def perform (c : StatusCmd) : Prog WorkerSig (StatusSig.Reply c) :=
  Prog.perform (S := WorkerSig) (.inr c)

/-- A part of the worker that does not ask the handler. -/
def plain {α : Type} (p : StatusProg α) : Prog WorkerSig α := p.interpret perform

/-- The calls for a batch. -/
def source (id : String) : (c : BatchCmd) → Prog WorkerSig (BatchSig.Reply c)
  | .readNew block count => perform (.xreadgroup id block count)
  | .handle e => ask (.handle e)
  | .healthy => ask .healthy
  | .ack entry => perform (.xack entry)
  | .cancelled => perform .cancelled
  | .sleep duration => perform (.sleep duration)

variable (cfg : StatusConfig) (id : String)

def process (e : StatusEntry) : Prog WorkerSig Bool :=
  (BatchWorker.process cfg e).interpret (source id)

def readOnce : Prog WorkerSig (Except ReadError Unit) :=
  (BatchWorker.readOnce cfg).interpret (source id)

def takeOver : List StatusEntry → Prog WorkerSig Bool
  | [] => return true
  | e :: rest => do
    let cancelled : Bool ← perform .cancelled
    if cancelled then
      return false
    else
      match ← plain (StatusSource.deliveryCount e.id) with
      | .error _ => takeOver rest
      | .ok deliveries =>
        if deliveries > cfg.poisonThreshold then
          perform (.logPoison e.id)
          let _ ← perform (.xack e.id)
          takeOver rest
        else
          let _ ← process cfg id e
          takeOver rest

def claimAndProcess : Nat → Prog WorkerSig (Except RedisError Unit)
  | 0 => return .ok ()
  | rounds + 1 => do
    let entries : Except RedisError (List StatusEntry) ←
      perform (.xautoclaim id cfg.minIdle cfg.batchSize)
    match entries with
    | .error e => return .error e
    | .ok entries =>
      if !(← takeOver cfg id entries) then
        return .ok ()
      else if entries.length < cfg.batchSize then
        return .ok ()
      else
        claimAndProcess rounds

def storeHealthy : Prog WorkerSig Bool := do
  let healthy : Except StoreError Unit ← ask .healthy
  match healthy with
  | .error _ => return false
  | .ok _ => return true

def recoverOnce : Prog WorkerSig (Except RedisError Unit) := do
  let claimErr ← if ← storeHealthy then
      claimAndProcess cfg id maxRecoveryRounds
    else pure (.ok ())
  plain (StatusSource.cleanupConsumers id cfg.cleanupIdle)
  return claimErr

def read (nextRecovery : Option Time) : Prog WorkerSig (Option Time ⊕ Unit) := do
  let result ← readOnce cfg id
  if ← plain (StatusWorker.afterRead cfg result) then return .inl nextRecovery else return .inr ()

def turn (nextRecovery : Option Time) : Prog WorkerSig (Option Time ⊕ Unit) := do
  let cancelled : Bool ← perform .cancelled
  if cancelled then
    return .inr ()
  else
    let now : Time ← perform .now
    if nextRecovery.all (· ≤ now) then
      let recovered ← recoverOnce cfg id
      let now : Time ← perform .now
      let ready ← match recovered with
        | .error ⟨true, _⟩ => plain (StatusWorker.ensureGroup cfg)
        | _ => pure true
      if ready then
        read cfg id (some (now + cfg.recoveryInterval))
      else
        return .inr ()
    else
      read cfg id nextRecovery

def run : Prog WorkerSig Unit := do
  if ← plain (StatusWorker.ensureGroup cfg) then
    .iterate (turn cfg id) none
  else
    return ()

/-! ### Over the status handler -/

/-- The status handler behind its commands. -/
def implement (maxAttempts : Int) : (c : WorkerSig.Cmd) → StatusProg (WorkerSig.Reply c)
  | .inl (.handle e) => (StatusWorker.handler maxAttempts).handle e.fields
  | .inl .healthy => (StatusWorker.handler maxAttempts).healthy
  | .inr c => StatusWorker.perform c

section Interpret

variable (maxAttempts : Int) {cfg id}

theorem interpret_plain {α : Type} (p : StatusProg α) :
    (plain p).interpret (implement maxAttempts) = p :=
  (interpret_interpret p).trans (interpret_perform p)

theorem interpret_source {α : Type} (p : Prog BatchSig α) :
    (p.interpret (source id)).interpret (implement maxAttempts) =
      p.interpret (BatchWorker.implement maxAttempts id) := by
  refine (interpret_interpret p).trans (congrArg (fun h => p.interpret h) (funext fun c => ?_))
  cases c <;> exact bind_ret _

theorem interpret_process (e : StatusEntry) :
    (process cfg id e).interpret (implement maxAttempts) =
      StatusWorker.process cfg maxAttempts e :=
  (interpret_source maxAttempts _).trans (BatchWorker.interpret_process ..)

theorem interpret_readOnce : (readOnce cfg id).interpret (implement maxAttempts) =
    StatusWorker.readOnce cfg maxAttempts id :=
  (interpret_source maxAttempts _).trans (BatchWorker.interpret_readOnce ..)

theorem interpret_takeOver (entries : List StatusEntry) :
    (takeOver cfg id entries).interpret (implement maxAttempts) =
      StatusWorker.takeOver cfg maxAttempts entries := by
  induction entries with
  | nil => rfl
  | cons e rest ih =>
    refine congrArg (Prog.bind _) (funext fun (cancelled : Bool) => interpret_ite.trans ?_)
    refine congrArg (ite _ _) ((interpret_bind (plain _) _).trans ?_)
    rw [interpret_plain]
    refine congrArg (Prog.bind _) (funext fun deliveries => ?_)
    cases deliveries with
    | error _ => exact ih
    | ok deliveries =>
      refine interpret_ite.trans (congr (congrArg (ite _) ?_) ?_)
      · refine congrArg (Prog.bind _) (funext fun _ => ?_)
        exact congrArg (Prog.bind _) (funext fun _ => ih)
      · refine (interpret_bind (process cfg id e) _).trans ?_
        rw [interpret_process]
        exact congrArg (Prog.bind _) (funext fun _ => ih)

theorem interpret_claimAndProcess (rounds : Nat) :
    (claimAndProcess cfg id rounds).interpret (implement maxAttempts) =
      StatusWorker.claimAndProcess cfg maxAttempts id rounds := by
  induction rounds with
  | zero => rfl
  | succ rounds ih =>
    refine congrArg (Prog.bind _) (funext fun entries => ?_)
    cases entries with
    | error _ => rfl
    | ok entries =>
      refine (interpret_bind (takeOver cfg id entries) _).trans ?_
      rw [interpret_takeOver]
      refine congrArg (Prog.bind _) (funext fun (finished : Bool) => interpret_ite.trans ?_)
      refine congrArg (ite _ _) (interpret_ite.trans ?_)
      rw [ih]
      rfl

theorem interpret_storeHealthy : storeHealthy.interpret (implement maxAttempts) =
    StatusWorker.storeHealthy maxAttempts := by
  refine congrArg (Prog.bind _) (funext fun healthy => ?_)
  cases healthy <;> rfl

theorem interpret_recoverOnce : (recoverOnce cfg id).interpret (implement maxAttempts) =
    StatusWorker.recoverOnce cfg maxAttempts id := by
  refine (interpret_bind storeHealthy _).trans ?_
  rw [interpret_storeHealthy]
  refine congrArg (Prog.bind _) (funext fun (healthy : Bool) => interpret_ite.trans ?_)
  have hcleanup (claimErr : Except RedisError Unit) :
      ((plain (StatusSource.cleanupConsumers id cfg.cleanupIdle)).bind fun _ =>
        (.ret claimErr : Prog WorkerSig _)).interpret (implement maxAttempts) =
      (StatusSource.cleanupConsumers id cfg.cleanupIdle).bind fun _ => .ret claimErr := by
    refine (interpret_bind (plain _) _).trans ?_
    rw [interpret_plain]
    rfl
  refine congr (congrArg (ite _) ?_) (hcleanup (.ok ()))
  refine (interpret_bind (claimAndProcess cfg id _) _).trans ?_
  rw [interpret_claimAndProcess]
  exact congrArg (Prog.bind _) (funext hcleanup)

theorem interpret_read (nextRecovery : Option Time) :
    (read cfg id nextRecovery).interpret (implement maxAttempts) =
      StatusWorker.turn.read cfg maxAttempts id nextRecovery := by
  refine (interpret_bind (readOnce cfg id) _).trans ?_
  rw [interpret_readOnce]
  refine congrArg (Prog.bind _) (funext fun result => ?_)
  refine (interpret_bind (plain _) _).trans ?_
  rw [interpret_plain]
  exact congrArg (Prog.bind _) (funext fun (_ : Bool) => interpret_ite)

theorem interpret_turn (nextRecovery : Option Time) :
    (turn cfg id nextRecovery).interpret (implement maxAttempts) =
      StatusWorker.turn cfg maxAttempts id nextRecovery := by
  refine congrArg (Prog.bind _) (funext fun (cancelled : Bool) => interpret_ite.trans ?_)
  refine congrArg (ite _ _) (congrArg (Prog.bind _) (funext fun (now : Time) => ?_))
  refine interpret_ite.trans (congr (congrArg (ite _) ?_) (interpret_read maxAttempts _))
  refine (interpret_bind (recoverOnce cfg id) _).trans ?_
  rw [interpret_recoverOnce]
  refine congrArg (Prog.bind _) (funext fun recovered => ?_)
  refine congrArg (Prog.bind _) (funext fun (now : Time) => ?_)
  have hread (ready : Bool) :
      (if ready then read cfg id (some (now + cfg.recoveryInterval)) else
        .ret (.inr ()) : Prog WorkerSig _).interpret (implement maxAttempts) =
      if ready then StatusWorker.turn.read cfg maxAttempts id (some (now + cfg.recoveryInterval))
        else .ret (.inr ()) := by
    rw [interpret_ite, interpret_read]
    rfl
  rcases recovered with ⟨_ | _, _⟩ | _
  · exact hread true
  · refine (interpret_bind (plain _) _).trans ?_
    rw [interpret_plain]
    exact congrArg (Prog.bind _) (funext hread)
  · exact hread true

/-- The status worker, through its handler. -/
theorem interpret_run : (run cfg id).interpret (implement maxAttempts) =
    StatusWorker.run cfg maxAttempts id := by
  refine (interpret_bind (plain _) _).trans ?_
  rw [interpret_plain]
  refine congrArg (Prog.bind _) (funext fun (ready : Bool) => interpret_ite.trans ?_)
  have hturn : (fun next => (turn cfg id next).interpret (implement maxAttempts)) =
      StatusWorker.turn cfg maxAttempts id := funext (interpret_turn maxAttempts)
  exact congrArg (fun body => ite _ (Prog.iterate body none) _) hturn

end Interpret

end EntryWorker

end Center

import RagPipeline.Center.Handler
import RagPipeline.Center.StoreCmd
import RagPipeline.Interact.Program

/-!
# The status worker

`status.Worker` and the Redis source it reads, method by method. Durations and instants are
nanoseconds.

## Main definitions

* `StatusSource`: the status stream as the worker sees it.
* `StatusWorker.process`, `StatusWorker.claimAndProcess`: one entry, and recovery.
* `StatusWorker.run`: the main loop.
-/
namespace Center

open Events Interact

structure StatusConfig where
  minIdle : Int
  recoveryInterval : Int
  poisonThreshold : Int
  cleanupIdle : Int
  readBlock : Int
  batchSize : Nat
  retryDelay : Int

/-- What the code looks for in the text of a Redis error. -/
structure RedisError where
  noGroup : Bool
  busyGroup : Bool
  deriving DecidableEq

structure StatusEntry where
  id : Nat
  fields : Fields

structure StatusConsumer where
  name : String
  pending : Nat
  idle : Int

/-- Stream and group are the center's own throughout. -/
inductive StatusCmd where
  | store (c : StoreCmd)
  | xgroupCreate
  | xreadgroup (consumer : String) (block : Int) (count : Nat)
  /-- From the start of the pending list. -/
  | xautoclaim (consumer : String) (minIdle : Int) (count : Nat)
  | xpendingExt (id : Nat)
  | xack (id : Nat)
  | xinfoConsumers
  | xgroupDelConsumer (consumer : String)
  | now
  /-- `ctx.Err() != nil`. -/
  | cancelled
  | sleep (duration : Int)
  /-- The log line `dropping poison status entry`. -/
  | logPoison (id : Nat)

def StatusSig : Signature where
  Cmd := StatusCmd
  Reply
    | .store c => Except StoreError c.Result
    | .xgroupCreate | .xack _ | .xgroupDelConsumer _ => Except RedisError Unit
    | .xreadgroup .. | .xautoclaim .. => Except RedisError (List StatusEntry)
    -- how often the entry was delivered
    | .xpendingExt _ => Except RedisError (Option Int)
    | .xinfoConsumers => Except RedisError (List StatusConsumer)
    | .now => Time
    | .cancelled | .sleep _ => Bool
    | .logPoison _ => Unit

abbrev StatusProg := Prog StatusSig

namespace StatusWorker

def perform (c : StatusCmd) : StatusProg (StatusSig.Reply c) := Prog.perform (S := StatusSig) c

end StatusWorker

namespace StatusSource

open StatusWorker

def ensureGroup : StatusProg (Except RedisError Unit) := do
  let created : Except RedisError Unit ← perform .xgroupCreate
  match created with
  | .error e => return if e.busyGroup then .ok () else .error e
  | .ok _ => return .ok ()

/-- 0 when the entry is not pending. -/
def deliveryCount (id : Nat) : StatusProg (Except RedisError Int) := do
  let pending : Except RedisError (Option Int) ← perform (.xpendingExt id)
  return pending.map fun deliveries => deliveries.getD 0

def deleteIdle (self : String) (idle : Int) : List StatusConsumer → StatusProg Unit
  | [] => return ()
  | c :: rest => do
    if c.name = self ∨ c.pending ≠ 0 ∨ c.idle ≤ idle then
      deleteIdle self idle rest
    else
      let deleted : Except RedisError Unit ← perform (.xgroupDelConsumer c.name)
      match deleted with
      | .error _ => return ()
      | .ok _ => deleteIdle self idle rest

def cleanupConsumers (self : String) (idle : Int) : StatusProg Unit := do
  let consumers : Except RedisError (List StatusConsumer) ← perform .xinfoConsumers
  match consumers with
  | .error _ => return ()
  | .ok consumers => deleteIdle self idle consumers

end StatusSource

namespace StatusWorker

variable (cfg : StatusConfig) (maxAttempts : Int) (id : String)

/-- The handler over the commands of a run. -/
def handler : Handler StatusProg where
  store := {
    applyIndexed := fun hash attempts now => perform (.store (.applyIndexed hash attempts now))
    applyFailed := fun hash attempts retryable maxAttempts now =>
      perform (.store (.applyFailed hash attempts retryable maxAttempts now))
    ping := perform (.store .ping) }
  maxAttempts
  now := perform .now

def cancelled : StatusProg Bool := perform .cancelled
def sleep (duration : Int) : StatusProg Bool := perform (.sleep duration)

/-- `ensureGroup`, and `recreateGroup`, which only logs besides. -/
def ensureGroup : StatusProg Bool := .iterate (fun _ => do
  match ← StatusSource.ensureGroup with
  | .ok _ => return .inr true
  | .error _ =>
    if ← sleep cfg.retryDelay then return .inl () else return .inr false) ()

def waitUntilHealthy : StatusProg Unit := .iterate (fun _ => do
  if ← cancelled then
    return .inr ()
  match ← (handler maxAttempts).healthy with
  | .ok _ => return .inr ()
  | .error _ =>
    let _ ← sleep cfg.retryDelay
    return .inl ()) ()

def ack (entry : Nat) : StatusProg Unit := do
  let _ ← perform (.xack entry)

/-- Wait, then handle the entry again; `retried` says whether it was retried while the store was
healthy. -/
def pause (retried : Bool) : StatusProg (Bool ⊕ Bool) := do
  if ← sleep cfg.retryDelay then return .inl retried else return .inr false

/-- Hand the entry to the handler until it is finished; false when it stays pending. -/
def process (e : StatusEntry) : StatusProg Bool := .iterate (fun retriedWhileHealthy => do
  if ← (handler maxAttempts).handle e.fields then
    ack e.id
    return .inr true
  else if ← cancelled then
    return .inr false
  else
    match ← (handler maxAttempts).healthy with
    | .error _ =>
      waitUntilHealthy cfg maxAttempts
      pause cfg retriedWhileHealthy
    | .ok _ => if retriedWhileHealthy then return .inr false else pause cfg true) false

inductive ReadError where
  | redis (e : RedisError)
  | entriesFailed

/-- Process a batch in order, counting the entries that stay pending. -/
def processAll (failed : Nat) : List StatusEntry → StatusProg (Except ReadError Unit)
  | [] => return if failed > 0 then .error .entriesFailed else .ok ()
  | e :: rest => do
    if ← cancelled then
      return .ok ()
    else if ← process cfg maxAttempts e then
      processAll failed rest
    else
      processAll (failed + 1) rest

def readOnce : StatusProg (Except ReadError Unit) := do
  let block := max (min cfg.readBlock cfg.recoveryInterval) 1000000
  let entries : Except RedisError (List StatusEntry) ←
    perform (.xreadgroup id block cfg.batchSize)
  match entries with
  | .error e => return .error (.redis e)
  | .ok entries => processAll cfg maxAttempts 0 entries

/-- Drop poison entries and process the others; false when the context ended. -/
def takeOver : List StatusEntry → StatusProg Bool
  | [] => return true
  | e :: rest => do
    if ← cancelled then
      return false
    else
      match ← StatusSource.deliveryCount e.id with
      | .error _ => takeOver rest
      | .ok deliveries =>
        if deliveries > cfg.poisonThreshold then
          perform (.logPoison e.id)
          ack e.id
          takeOver rest
        else
          let _ ← process cfg maxAttempts e
          takeOver rest

def maxRecoveryRounds : Nat := 10

def claimAndProcess : Nat → StatusProg (Except RedisError Unit)
  | 0 => return .ok ()
  | rounds + 1 => do
    let entries : Except RedisError (List StatusEntry) ←
      perform (.xautoclaim id cfg.minIdle cfg.batchSize)
    match entries with
    | .error e => return .error e
    | .ok entries =>
      if !(← takeOver cfg maxAttempts entries) then
        return .ok ()
      else if entries.length < cfg.batchSize then
        return .ok ()
      else
        claimAndProcess rounds

def storeHealthy : StatusProg Bool := do
  match ← (handler maxAttempts).healthy with
  | .error _ => return false
  | .ok _ => return true

def recoverOnce : StatusProg (Except RedisError Unit) := do
  let claimErr ← if ← storeHealthy maxAttempts then
      claimAndProcess cfg maxAttempts id maxRecoveryRounds
    else pure (.ok ())
  StatusSource.cleanupConsumers id cfg.cleanupIdle
  return claimErr

/-- What a read calls for: `false` ends the worker. -/
def afterRead : Except ReadError Unit → StatusProg Bool
  | .ok _ => return true
  | .error e => do
    if ← cancelled then
      return true
    else match e with
    | .redis ⟨true, _⟩ => ensureGroup cfg
    | _ =>
      let _ ← sleep cfg.retryDelay
      return true

/-- One pass of the main loop; `none` is the zero time. -/
def turn (nextRecovery : Option Time) : StatusProg (Option Time ⊕ Unit) := do
  if ← cancelled then
    return .inr ()
  else
    let now : Time ← perform .now
    if nextRecovery.all (· ≤ now) then
      let recovered ← recoverOnce cfg maxAttempts id
      let now : Time ← perform .now
      let ready ← match recovered with
        | .error ⟨true, _⟩ => ensureGroup cfg
        | _ => pure true
      if ready then
        read (some (now + cfg.recoveryInterval))
      else
        return .inr ()
    else
      read nextRecovery
where
  read (nextRecovery : Option Time) : StatusProg (Option Time ⊕ Unit) := do
    let result ← readOnce cfg maxAttempts id
    if ← afterRead cfg result then return .inl nextRecovery else return .inr ()

def run : StatusProg Unit := do
  if ← ensureGroup cfg then
    .iterate (turn cfg maxAttempts id) none
  else
    return ()

end StatusWorker

end Center

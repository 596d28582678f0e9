import RagPipeline.Interact.Method
import RagPipeline.Rag.Job
import RagPipeline.Settings.Reader

/-!
# The ingest stream consumer

`StreamConsumer` of the RAG service, method by method. Every Redis call, clock reading and wait
is a command; the processor is one more command, so that a consumer can be run with any.

## Main definitions

* `ConsumerSig`: the commands and their replies.
* `StreamConsumer.run`: the main loop.
-/
namespace Rag

open Events Wire Interact Method

/-- A stream entry's ID; `0-0` is 0. -/
abbrev EntryId := Nat

structure StreamEntry where
  id : EntryId
  fields : Option Fields

/-- What a read or a claim of up to `count` entries brings. -/
structure Batch (count : Nat) where
  entries : List StreamEntry
  bounded : entries.length ≤ count

theorem Batch.head?_of_mem {batch : Batch 1} {e : StreamEntry} (h : e ∈ batch.entries) :
    batch.entries.head? = some e := by
  obtain ⟨_ | ⟨e', _ | ⟨_, _⟩⟩, hcount⟩ := batch
  · cases h
  · rw [List.mem_singleton.1 h, List.head?_cons]
  · simp at hcount

structure Claimed where
  nextCursor : EntryId
  batch : Batch 1

structure ConsumerInfo where
  name : String
  pending : Nat
  idle : Int
  deriving DecidableEq

structure ConsumerSettings where
  minIdle : Micros
  recoveryInterval : Micros
  poisonThreshold : Int
  cleanupIdle : Micros
  jobTimeout : Micros
  readBlock : Micros
  retryDelay : Micros
  publishAttempts : Nat
  callTimeout : Micros
  maxRecoveryJobs : Nat

/-- The Redis read timeout: longer than the longest BLOCK. -/
def socketTimeoutFor (callTimeout readBlock : Micros) : Micros :=
  max callTimeout (readBlock + 5 * 10 ^ 6)

/-- `ConsumerSettings.from_config`. -/
def ConsumerSettings.fromConfig (config : Settings.Python.Config) : ConsumerSettings where
  minIdle := config.rag.consumer.minIdle
  recoveryInterval := config.rag.consumer.recoveryInterval
  poisonThreshold := config.rag.consumer.poisonThreshold
  cleanupIdle := config.rag.consumer.consumerCleanupIdle
  jobTimeout := config.rag.consumer.jobTimeout
  readBlock := 2 * 10 ^ 6
  retryDelay := 10 ^ 6
  publishAttempts := 3
  callTimeout := config.rag.callTimeout + socketTimeoutFor config.rag.callTimeout (2 * 10 ^ 6)
  maxRecoveryJobs := 10

/-- Stream and group are the consumer's own throughout, and every read and claim has COUNT 1. -/
inductive ConsumerCmd where
  | xgroupCreate
  | xreadgroup (consumer : String) (block : Int)
  | xautoclaim (consumer : String) (minIdle : Int) (start : EntryId)
  | xpendingRange (id : EntryId)
  | xack (id : EntryId)
  | xclaim (consumer : String) (id : EntryId)
  | xinfoConsumers
  | xgroupDelconsumer (consumer : String)
  | xadd (status : StatusEvent)
  | clock
  | sleep (duration : Micros)
  | stopped
  | arm
  | disarm
  | uuid4
  | utcnow

def ConsumerSig : Signature where
  Cmd := ConsumerCmd
  Reply
    | .xgroupCreate | .xack _ | .xclaim .. | .xgroupDelconsumer _ | .xadd _ => Except PyError Unit
    | .xreadgroup .. => Except PyError (Batch 1)
    | .xautoclaim .. => Except PyError Claimed
    -- how often the entry was delivered, and to whom
    | .xpendingRange _ => Except PyError (Option (Int × String))
    | .xinfoConsumers => Except PyError (List ConsumerInfo)
    | .clock => Micros
    | .sleep _ => Bool
    | .stopped => Bool
    | .arm | .disarm => Unit
    | .uuid4 => PyStr
    | .utcnow => Int

/-- The fields of a consumer that change. -/
structure ConsumerState where
  /-- A publish that failed: nothing is read or claimed until it goes through. -/
  held : Option (EntryId × StatusEvent)
  heldFailures : Nat

abbrev ConsumerCall := ConsumerSig.sum ProcessorSig

abbrev Consumer := Method ConsumerCall ConsumerState PyError

def maxPayloadBytes : Nat := 1024 * 1024
def maxClaimPages : Nat := 100

/-- `int(delta.total_seconds() * 1000)`. A loaded file gives whole seconds, below `10 ^ 10` of them,
and so does `read_block`: their floats and the product are exact, and nothing is cut off. -/
def ms (delta : Micros) : Int := delta.tdiv 1000

namespace StreamConsumer

variable (settings : ConsumerSettings) (name : String)

def perform (c : ConsumerCmd) : Consumer (ConsumerSig.Reply c) := call (S := ConsumerCall) (.inl c)

def clock : Consumer Micros := perform .clock
def sleep (duration : Micros) : Consumer Bool := perform (.sleep duration)
def stopped : Consumer Bool := perform .stopped
def process (event : IngestEvent) (deadline : Micros) : Consumer (Except JobError Outcome) :=
  call (S := ConsumerCall) (.inr ⟨event, deadline⟩)

/-! ### Group -/

def ensureGroup : Consumer Unit :=
  tryExcept (do ofExcept (← perform .xgroupCreate)) fun
    | .response _ true => pure ()
    | e => raise e

def ensureGroupUntilReady : Consumer Bool :=
  loop () fun _ => do
    if ← stopped then
      return .inr false
    tryExcept (do ensureGroup; return .inr true) fun e => do
      if e.isRedisError then
        if ← sleep settings.retryDelay then return .inl () else return .inr false
      else
        raise e

/-! ### One entry -/

/-- The event of an entry that can be processed. -/
def accepted (fields : Option Fields) : Option IngestEvent :=
  fields.bind fun fields =>
    if fields.eventType ≠ some ingestEventType then none
    else fields.payload.bind fun raw =>
      if raw.length > maxPayloadBytes then none
      else (IngestEvent.parse raw).toOption

def ack (id : EntryId) : Consumer Unit :=
  tryExcept (do ofExcept (← perform (.xack id))) fun e =>
    if e.isRedisError then pure () else raise e

/-- The event, or `none` after acknowledging an entry that can never be processed. -/
def parse (id : EntryId) (fields : Option Fields) : Consumer (Option IngestEvent) := do
  match accepted fields with
  | some event => return some event
  | none =>
    ack id
    return none

theorem parse_eq_pure {id : EntryId} {fields : Option Fields} {event : IngestEvent} :
    parse id fields = pure (some event) ↔ accepted fields = some event := by
  have happly (x y : Consumer (Option IngestEvent)) (h : x = y) : x ⟨none, 0⟩ = y ⟨none, 0⟩ :=
    congrFun h _
  unfold parse
  cases accepted fields with
  | none => exact ⟨(fun h => nomatch happly _ _ h), nofun⟩
  | some e =>
    refine ⟨fun h => ?_, fun h => h ▸ rfl⟩
    have hret := happly _ _ h
    injection hret with _ hpair
    exact Except.ok.inj (Prod.mk.inj hpair).1

/-- `publisher.publish`. -/
def add (status : StatusEvent) : Consumer Unit := do ofExcept (← perform (.xadd status))

/-- `true` if the entry was added, `false` on a Redis error. -/
def tryAdd (status : StatusEvent) : Consumer Bool :=
  tryExcept (do add status; return true) fun e => if e.isRedisError then return false else raise e

/-- The rest of `_publish`: up to `attempts` more tries. -/
def publishLoop (status : StatusEvent) (reclaimableAt : Micros) : Nat → Consumer Bool
  | 0 => return false
  | attempts + 1 => do
    if ← tryAdd status then
      return true
    if attempts = 0 then
      return false
    if !(← sleep settings.retryDelay) then
      return false
    if (← clock) + settings.callTimeout ≥ reclaimableAt then
      return false
    publishLoop status reclaimableAt attempts

def publish (status : StatusEvent) (started : Micros) : Consumer Bool :=
  publishLoop settings status (started + settings.minIdle) settings.publishAttempts

/-- Publish the status, then acknowledge; hold both when the publish cannot be done. -/
def finish (id : EntryId) (status : StatusEvent) (started : Micros) : Consumer Bool := do
  if ← publish settings status started then
    ack id
    return true
  assign fun _ => ⟨some (id, status), 0⟩
  return false

/-- A new event: ID and time are its own. -/
def newStatus (make : PyStr → Int → Except InvalidEvent StatusEvent) : Consumer StatusEvent := do
  let id ← perform .uuid4
  let now ← perform .utcnow
  ofExcept ((make id now).mapError .invalidEvent)

def statusFor (event : IngestEvent) : Outcome → PyStr → Int → Except InvalidEvent StatusEvent
  | .indexed chunkCount => StatusEvent.indexed event.hash event.attempts chunkCount
  | .failed retryable reason detail =>
    StatusEvent.failed event.hash event.attempts retryable reason detail

/-- The report on an entry delivered too often. -/
def poison (event : IngestEvent) (deliveries : Int) :
    PyStr → Int → Except InvalidEvent StatusEvent :=
  StatusEvent.failed event.hash event.attempts false .poisonMessage
    (some (ofString ("delivered " ++ toString deliveries ++ " times, threshold " ++
      toString settings.poisonThreshold)))

def reportPoison (id : EntryId) (event : IngestEvent) (deliveries : Int) : Consumer Unit := do
  let status ← newStatus (poison settings event deliveries)
  let _ ← finish settings id status (← clock)

/-- Run the job, publish its status, acknowledge. -/
def handle (id : EntryId) (event : IngestEvent) : Consumer Bool := do
  let started ← clock
  let deadline := (← clock) + settings.jobTimeout
  perform .arm
  let outcome ← andFinally (do ofExcept (runJob (← process event deadline)))
    (perform .disarm)
  finish settings id (← newStatus (statusFor event outcome)) started

/-- Keep a held entry from becoming reclaimable. -/
def renew (id : EntryId) : Consumer Unit :=
  tryExcept (do ofExcept (← perform (.xclaim name id))) fun e =>
    if e.isException then pure () else raise e

/-- One more try at the held status. -/
def retryHeld : Consumer Bool := do
  match (← self).held with
  | none => raise (.other (ofString "AssertionError"))
  | some (id, status) =>
    renew name id
    if ← tryAdd status then
      assign fun _ => ⟨none, 0⟩
      ack id
      return true
    assign fun s => { s with heldFailures := s.heldFailures + 1 }
    return false

/-! ### New entries and recovery -/

def readOnce : Consumer Unit := do
  let block := max 1 (min (ms settings.readBlock) (ms settings.recoveryInterval))
  let response ← ofExcept (← perform (.xreadgroup name block))
  response.entries.forM fun e => do
    match ← parse e.id e.fields with
    | some event => let _ ← handle settings e.id event
    | none => pure ()

/-- Claim one entry, following the cursor for up to `pages` calls. -/
def claimOne : Nat → EntryId → Consumer (Option StreamEntry)
  | 0, _ => return none
  | pages + 1, cursor => do
    let response ← ofExcept (← perform (.xautoclaim name (ms settings.minIdle) cursor))
    match response.batch.entries with
    | e :: _ => return some e
    | [] => if response.nextCursor = 0 then return none else claimOne pages response.nextCursor

/-- The delivery count of an entry that is pending under this consumer. -/
def ownPending (id : EntryId) : Consumer (Option Int) :=
  tryExcept
    (do
      match ← ofExcept (← perform (.xpendingRange id)) with
      | some (deliveries, owner) => return if owner = name then some deliveries else none
      | none => return none)
    fun e => if e.isRedisError then return none else raise e

/-- Take over up to `jobs` entries, one at a time. -/
def claimAndProcess : Nat → Consumer Unit
  | 0 => pure ()
  | jobs + 1 => do
    match ← claimOne settings name maxClaimPages 0 with
    | none => pure ()
    | some e =>
      match ← parse e.id e.fields with
      | none => claimAndProcess jobs
      | some event =>
        match ← ownPending name e.id with
        | none => claimAndProcess jobs
        | some deliveries =>
          if deliveries > settings.poisonThreshold then
            reportPoison settings e.id event deliveries
          else
            let _ ← handle settings e.id event
          if (← self).held.isSome then
            return ()
          claimAndProcess jobs

def cleanupConsumers : Consumer Unit :=
  tryExcept
    (do
      let consumers ← ofExcept (← perform .xinfoConsumers)
      consumers.forM fun c => do
        if c.name = name ∨ c.pending ≠ 0 ∨ c.idle ≤ ms settings.cleanupIdle then
          return ()
        ofExcept (← perform (.xgroupDelconsumer c.name)))
    fun e => if e.isRedisError then pure () else raise e

def recoverOnce : Consumer Unit := do
  let claimError ← tryExcept
    (do claimAndProcess settings name settings.maxRecoveryJobs; return none)
    fun e => if e.isException then return some e else raise e
  cleanupConsumers settings name
  match claimError with
  | some e => raise e
  | none => pure ()

/-! ### Loop -/

def guarded (step : Consumer Unit) : Consumer Unit :=
  tryExcept step fun e => do
    if e.isRedisError then
      if e.isNoGroup then
        let _ ← ensureGroupUntilReady settings
      else
        let _ ← sleep settings.retryDelay
    else if e.isException then
      let _ ← sleep settings.retryDelay
    else
      raise e

/-- One pass of the main loop. -/
def turn (nextRecovery : Micros) : Consumer (Micros ⊕ Unit) := do
  if ← stopped then
    return .inr ()
  if (← self).held.isSome then
    guarded settings (do let _ ← retryHeld name)
    if (← self).held.isSome then
      let _ ← sleep settings.retryDelay
    return .inl nextRecovery
  if (← clock) ≥ nextRecovery then
    guarded settings (recoverOnce settings name)
    let nextRecovery := (← clock) + settings.recoveryInterval
    if (← self).held.isSome then
      return .inl nextRecovery
    guarded settings (readOnce settings name)
    return .inl nextRecovery
  guarded settings (readOnce settings name)
  return .inl nextRecovery

def run : Consumer Unit := do
  if ← ensureGroupUntilReady settings then
    loop 0 (turn settings name)

/-- A fresh process: what it is told to run. -/
def main : Prog ConsumerCall Unit :=
  (run settings name ⟨none, 0⟩).bind fun _ => .ret ()

end StreamConsumer

end Rag

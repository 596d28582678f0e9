import RagPipeline.Center.StoreCmd
import RagPipeline.Events.IngestEvent
import RagPipeline.Interact.Program

/-!
# The outbox worker and its sweeper

`outbox.Worker` and `outbox.Sweeper`, method by method, with the producer they publish through.
A context is seen through `cancelled` and `tick`, as in the hash worker.

## Main definitions

* `OutboxWorker.processMessage`: one claimed message to an outcome.
* `OutboxWorker.run`, `OutboxSweeper.run`: the two loops.
-/
namespace Center

open Events Interact

structure OutboxConfig where
  batchSize : Nat
  maxRetries : Int
  staleThreshold : Int
  schemaVersion : Int
  /-- The fault hook `outbox-hang-after-publish`. -/
  hangAfterPublish : Bool

inductive OutboxCmd where
  | store (c : StoreCmd)
  /-- To the ingest stream. -/
  | xadd (fields : Fields)
  | now
  | uuid
  /-- `ctx.Err() != nil`. -/
  | cancelled
  /-- Wait for the ticker or the context; false is the context. -/
  | tick
  | done

def OutboxSig : Signature where
  Cmd := OutboxCmd
  Reply
    | .store c => Except StoreError c.Result
    -- the message ID is for the log
    | .xadd _ => Option Unit
    | .now => Time
    | .uuid => String
    | .cancelled | .tick => Bool
    | .done => Unit

abbrev OutboxProg := Prog OutboxSig

namespace OutboxWorker

def perform (c : OutboxCmd) : OutboxProg (OutboxSig.Reply c) := Prog.perform (S := OutboxSig) c

/-- `PublishIngestionEvent`; false is its error. -/
def publishIngestionEvent (event : StreamIngestionEvent) : OutboxProg Bool :=
  match event.toEntry with
  | none => return false
  | some fields => do
    let added : Option Unit ← perform (.xadd fields)
    return added.isSome

variable (cfg : OutboxConfig) (id : String)

/-- The event carries the attempt number the document has now. -/
def eventOf (document : Document) (eventID : String) (now : Time) : StreamIngestionEvent where
  id := eventID
  hash := document.hash
  filename := document.fileName
  bucketPath := document.permBucketPath
  size := document.size
  attempts := document.retries
  createdAt := now
  schemaVersion := cfg.schemaVersion

def publishMessage (document : Document) : OutboxProg Bool := do
  let now : Time ← perform .now
  let eventID : String ← perform .uuid
  publishIngestionEvent (eventOf cfg document eventID now)

def markBlocked (msgID : Nat) : OutboxProg Unit := do
  let _ ← perform (.store (.markBlocked msgID id))

def releaseClaim (msgID : Nat) : OutboxProg Unit := do
  let _ ← perform (.store (.releaseClaim msgID id cfg.maxRetries))

def processMessage (msg : OutboxMessage) : OutboxProg Unit := do
  let found : Except StoreError (Option Document) ←
    perform (.store (.getDocumentByHash msg.hash))
  match found with
  | .error _ => releaseClaim cfg id msg.id
  | .ok none => markBlocked id msg.id
  | .ok (some document) =>
    let published ← publishMessage cfg document
    if !published then
      releaseClaim cfg id msg.id
    else if cfg.hangAfterPublish then
      perform .done
    else
      let _ ← perform (.store (.markPublished msg.id id))

/-- Claim and process what a fetch brought. -/
def passOver : List OutboxMessage → OutboxProg Unit
  | [] => return ()
  | msg :: rest => do
    let cancelled : Bool ← perform .cancelled
    if cancelled then
      return ()
    let now : Time ← perform .now
    let claimed : Except StoreError Bool ← perform (.store (.claimOutboxMessage now id msg.id))
    match claimed with
    | .error _ => passOver rest
    | .ok claimed =>
      if !claimed then
        passOver rest
      else
        processMessage cfg id msg
        passOver rest

def pass : OutboxProg Unit := do
  let fetched : Except StoreError (List OutboxMessage) ←
    perform (.store (.fetchCandidates cfg.batchSize))
  match fetched with
  | .error _ => return ()
  | .ok messages => passOver cfg id messages

def run : OutboxProg Unit := .iterate (fun _ => do
  let ticked : Bool ← perform .tick
  if ticked then
    pass cfg id
    return .inl ()
  else
    return .inr ()) ()

end OutboxWorker

namespace OutboxSweeper

open OutboxWorker

def run (cfg : OutboxConfig) : OutboxProg Unit := .iterate (fun _ => do
  let ticked : Bool ← perform .tick
  if ticked then
    let now : Time ← perform .now
    let _ ← perform (.store (.recoverStaleOutbox (now - cfg.staleThreshold) cfg.maxRetries))
    return .inl ()
  else
    return .inr ()) ()

end OutboxSweeper

end Center

import RagPipeline.Center.ClaimBudget
import RagPipeline.Center.OutboxWorker
import RagPipeline.Center.UploadSystem
import RagPipeline.Interact.Notes

/-!
# Everything that retries

Any number of hash workers, outbox workers and sweepers over one database, with requests and status
events. A call can fail before it is done or lose its answer. The log says which rows were claimed,
and when `PublishIngestionEvent` was called: that is a note in the outbox worker.

## Main definitions

* `NotedOutboxWorker.run`: the outbox worker with its notes.
* `RetryWorld`, `retrySystem`: what is shared, and who acts on it.
* `OnePerClaim`, `RetriesBounded`: what a log must look like.

## Main results

* `NotedOutboxWorker.erase_run`: without its notes it is the outbox worker.
-/
namespace Center

open Events Interact Relational

/-! ### The outbox worker, with notes -/

abbrev NotedOutboxSig := OutboxSig.sum (NoteSig StreamIngestionEvent)

namespace NotedOutboxWorker

open OutboxWorker

def ask (c : OutboxCmd) : Prog NotedOutboxSig (OutboxSig.Reply c) :=
  Prog.lifted (S := OutboxSig) StreamIngestionEvent c

variable (cfg : OutboxConfig) (id : String)

def publishMessage (document : Document) : Prog NotedOutboxSig Bool := do
  let now : Time ← ask .now
  let eventID : String ← ask .uuid
  Prog.note (eventOf cfg document eventID now)
  (publishIngestionEvent (eventOf cfg document eventID now)).lift StreamIngestionEvent

def processMessage (msg : OutboxMessage) : Prog NotedOutboxSig Unit := do
  let found : Except StoreError (Option Document) ← ask (.store (.getDocumentByHash msg.hash))
  match found with
  | .error _ => (releaseClaim cfg id msg.id).lift StreamIngestionEvent
  | .ok none => (markBlocked id msg.id).lift StreamIngestionEvent
  | .ok (some document) =>
    let published ← publishMessage cfg document
    if !published then
      (releaseClaim cfg id msg.id).lift StreamIngestionEvent
    else if cfg.hangAfterPublish then
      ask .done
    else
      let _ ← ask (.store (.markPublished msg.id id))

def passOver : List OutboxMessage → Prog NotedOutboxSig Unit
  | [] => return ()
  | msg :: rest => do
    let cancelled : Bool ← ask .cancelled
    if cancelled then
      return ()
    let now : Time ← ask .now
    let claimed : Except StoreError Bool ← ask (.store (.claimOutboxMessage now id msg.id))
    match claimed with
    | .error _ => passOver rest
    | .ok claimed =>
      if !claimed then
        passOver rest
      else
        processMessage cfg id msg
        passOver rest

def pass : Prog NotedOutboxSig Unit := do
  let fetched : Except StoreError (List OutboxMessage) ←
    ask (.store (.fetchCandidates cfg.batchSize))
  match fetched with
  | .error _ => return ()
  | .ok messages => passOver cfg id messages

def run : Prog NotedOutboxSig Unit := .iterate (fun _ => do
  let ticked : Bool ← ask .tick
  if ticked then
    pass cfg id
    return .inl ()
  else
    return .inr ()) ()

/-! Without the notes it is the worker. -/

variable {cfg : OutboxConfig} {id : String}

theorem erase_publishMessage {document : Document} :
    (publishMessage cfg document).erase = OutboxWorker.publishMessage cfg document := by
  refine congrArg (Prog.call _) (funext fun now => ?_)
  refine congrArg (Prog.call _) (funext fun eventID => ?_)
  exact Prog.erase_lift _

theorem erase_processMessage {msg : OutboxMessage} :
    (processMessage cfg id msg).erase = OutboxWorker.processMessage cfg id msg := by
  refine congrArg (Prog.call _) (funext fun found => ?_)
  match found with
  | .error _ => exact Prog.erase_lift _
  | .ok none => exact Prog.erase_lift _
  | .ok (some document) =>
    refine (Prog.erase_bind (p := publishMessage cfg document)).trans ?_
    rw [erase_publishMessage]
    refine congrArg (Prog.bind _) (funext fun published => ?_)
    cases published with
    | false => exact Prog.erase_lift _
    | true => exact Prog.erase_ite (c := cfg.hangAfterPublish)

theorem erase_passOver {messages : List OutboxMessage} :
    (passOver cfg id messages).erase = OutboxWorker.passOver cfg id messages := by
  induction messages with
  | nil => rfl
  | cons msg rest ih =>
    refine congrArg (Prog.call _) (funext fun (cancelled : Bool) => ?_)
    cases cancelled with
    | true => rfl
    | false =>
      refine congrArg (Prog.call _) (funext fun now => congrArg (Prog.call _) (funext fun r => ?_))
      change Except StoreError Bool at r
      match r with
      | .error _ => exact ih
      | .ok false => exact ih
      | .ok true =>
        refine (Prog.erase_bind (p := processMessage cfg id msg)).trans ?_
        rw [erase_processMessage, ih]
        rfl

theorem erase_run : (run cfg id).erase = OutboxWorker.run cfg id := by
  refine congrArg (Prog.iterate · ()) (funext fun _ => ?_)
  refine congrArg (Prog.call _) (funext fun (ticked : Bool) => ?_)
  cases ticked with
  | false => rfl
  | true =>
    refine congrArg (Prog.call _) (funext fun fetched => ?_)
    change Except StoreError (List OutboxMessage) at fetched
    cases fetched with
    | error _ => rfl
    | ok messages =>
      refine (Prog.erase_bind (p := passOver cfg id messages)).trans ?_
      rw [erase_passOver]
      rfl

end NotedOutboxWorker

/-! ### What is shared -/

/-- The settings, as the configuration check lets them through. -/
structure RetryConfig where
  hash : HashConfig
  outbox : OutboxConfig
  outbox_pos : 1 ≤ outbox.maxRetries
  maxAttempts : MaxAttempts

def RetryConfig.pools (cfg : RetryConfig) : Pools :=
  ⟨cfg.hash.maxRetries, cfg.outbox.maxRetries, cfg.hash.maxRetries_pos, cfg.outbox_pos⟩

inductive Claimant where
  | hash (p : HashProcess)
  /-- A worker is its ID: each goroutine draws its own. -/
  | outboxWorker (id : String)
  | outboxSweeper (n : Nat)
  deriving DecidableEq

inductive Deed where
  | tookIntent (who : Claimant) (id : String)
  | tookRow (who : Claimant) (id : Nat) (hash : String)
  /-- `PublishIngestionEvent` is called for this hash. -/
  | published (who : Claimant) (hash : String)
  deriving DecidableEq

namespace Deed

def who : Deed → Claimant
  | tookIntent who _ | tookRow who _ _ | published who _ => who

/-- The last thing somebody did. -/
def last (log : List Deed) (who : Claimant) : Option Deed := log.find? fun d => d.who = who

def claimsIntent (id : String) : Deed → Bool
  | tookIntent _ id' => id' = id
  | _ => false

def claimsRow (id : Nat) : Deed → Bool
  | tookRow _ id' _ => id' = id
  | _ => false

/-- A claim of some row of this hash. -/
def claimsFor (hash : String) : Deed → Bool
  | tookRow _ _ hash' => hash' = hash
  | _ => false

def publishes (hash : String) : Deed → Bool
  | published _ hash' => hash' = hash
  | _ => false

end Deed

structure RetryWorld where
  db : Database
  /-- The last first. -/
  log : List Deed

def RetryWorld.start : RetryWorld := ⟨.start .empty, []⟩

/-- What the surroundings decide about a command. -/
structure RetryChoice where
  fate : Fate
  /-- What a store method returns unless it is answered. -/
  error : StoreError
  /-- Which statements of a store method fail. -/
  faults : List Bool
  blob : (c : BlobCmd) → Option c.Reply
  time : Time
  flag : Bool
  text : String

namespace RetryChoice

variable (ch : RetryChoice) (c : StoreCmd) (db : Database)

def storeReply : Except StoreError c.Result :=
  if ch.fate = .ok then (c.apply ch.faults db).1 else .error ch.error

def storeAfter : Database := if ch.fate = .refused then db else (c.apply ch.faults db).2

end RetryChoice

/-- The claims that a worker has made when a call comes to this. -/
def claimDeeds (who : Claimant) (db : Database) (c : StoreCmd) (r : Except StoreError c.Result) :
    List Deed :=
  ((claimedIntent c r).map (.tookIntent who)).toList ++
    (((claimedRow c r).bind db.row?).map fun m => .tookRow who m.id m.hash).toList

namespace RetryWorld

variable (g : RetryWorld) (ch : RetryChoice)

def afterStore (who : Claimant) (c : StoreCmd) : RetryWorld where
  db := ch.storeAfter c g.db
  log := claimDeeds who g.db c (ch.storeReply c g.db) ++ g.log

def hashReply : (c : HashCmd) → HashSig.Reply c
  | .store c => ch.storeReply c g.db
  | .blob c => ch.blob c
  | .now => ch.time
  | .cancelled | .tick => ch.flag
  | .done => ()

def hashAfter (who : Claimant) : HashCmd → RetryWorld
  | .store c => g.afterStore ch who c
  | _ => g

def outboxReply : (c : OutboxCmd) → OutboxSig.Reply c
  | .store c => ch.storeReply c g.db
  | .xadd _ => if ch.fate = .ok then some () else none
  | .now => ch.time
  | .uuid => ch.text
  | .cancelled | .tick => ch.flag
  | .done => ()

def outboxAfter (who : Claimant) : OutboxCmd → RetryWorld
  | .store c => g.afterStore ch who c
  | _ => g

end RetryWorld

/-- What requests and status events do to the database. -/
inductive RetryEvent where
  | createIntent (now : Time) (id fileName : String)
  | updateIntentToUploaded (id : String) (uploadedAt : Time)
  | updateIntentToExpired (id : String) (now : Time)
  | applyIndexed (hash : String) (attempts : Int) (now : Time)
  | applyFailed (hash : String) (attempts : Int) (retryable : Bool) (now : Time)

def RetryEvent.cmd (cfg : RetryConfig) : RetryEvent → StoreCmd
  | createIntent now id fileName => .createIntent (UploadWorld.intentAt now id fileName)
  | updateIntentToUploaded id uploadedAt => .updateIntentToUploaded id uploadedAt
  | updateIntentToExpired id now => .updateIntentToExpired id now
  | applyIndexed hash attempts now => .applyIndexed hash attempts now
  | applyFailed hash attempts retryable now =>
    .applyFailed hash attempts retryable cfg.maxAttempts.val now

/-! ### Who acts on it -/

namespace Claimant

def sig : Claimant → Signature
  | hash _ => HashSig
  | outboxWorker _ => NotedOutboxSig
  | outboxSweeper _ => OutboxSig

def main (cfg : RetryConfig) : (who : Claimant) → Prog who.sig Unit
  | hash p => p.main cfg.hash
  | outboxWorker id => NotedOutboxWorker.run cfg.outbox id
  | outboxSweeper _ => OutboxSweeper.run cfg.outbox

def respond : (who : Claimant) → (c : who.sig.Cmd) → RetryChoice → RetryWorld →
    who.sig.Reply c × RetryWorld
  | hash p => fun c ch g => (g.hashReply ch c, g.hashAfter ch (.hash p) c)
  | outboxWorker id => fun c ch g => match c with
    | .inl c => (g.outboxReply ch c, g.outboxAfter ch (.outboxWorker id) c)
    | .inr event => ((), { g with log := .published (.outboxWorker id) event.hash :: g.log })
  | outboxSweeper n => fun c ch g => (g.outboxReply ch c, g.outboxAfter ch (.outboxSweeper n) c)

end Claimant

/-- Requests and status events come at any time, each with the statements of it that fail. -/
def retrySystem (cfg : RetryConfig) : Actors Claimant RetryWorld where
  sig := Claimant.sig
  main := Claimant.main cfg
  Choice := RetryChoice
  respond := Claimant.respond
  enter _ g := g
  leave _ g := g
  Env := RetryEvent × List Bool
  env e g := { g with db := ((e.1.cmd cfg).apply e.2 g.db).2 }

/-- The last thing that a worker did before a publish is the claim that it publishes for. -/
def OnePerClaim (log : List Deed) : Prop :=
  ∀ who hash before, .published who hash :: before <:+ log →
    ∃ id, Deed.last before who = some (.tookRow who id hash)

structure RetriesBounded (cfg : RetryConfig) (log : List Deed) : Prop where
  intents : ∀ id, log.countP (Deed.claimsIntent id) ≤ cfg.hash.maxRetries
  rows : ∀ id, log.countP (Deed.claimsRow id) ≤ cfg.outbox.maxRetries
  onePerClaim : OnePerClaim log
  publications : ∀ hash,
    log.countP (Deed.publishes hash) ≤ cfg.maxAttempts.val * cfg.outbox.maxRetries

end Center

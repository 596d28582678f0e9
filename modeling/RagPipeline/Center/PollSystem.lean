import RagPipeline.Center.UploadService
import RagPipeline.Center.UploadSystem

/-!
# Requests beside the hash workers

Any number of requests, hash workers and sweepers over one database, and status events. There is
one clock, which never runs backwards; each request reads it where the code does.

## Main definitions

* `Note`, `PollWorld`: what was asked, read and answered, and which confirms passed the gate.
* `pollSystem`: who acts on it, and how.
* `FinalAnswers`: what a poll answered for good, later polls answer too.
-/
namespace Center

open Interact Relational
open scoped List

inductive Party where
  | request (n : Nat)
  | hash (p : HashProcess)
  deriving DecidableEq

inductive Note where
  /-- A poll begins. -/
  | asked (n : Nat) (id : String)
  /-- A request reads its clock. -/
  | clock (n : Nat) (now : Time)
  /-- A request reads an intent. -/
  | read (n : Nat) (id : String)
  | answered (n : Nat) (id status : String)
  /-- The statement of a confirm, with its `now`, turned a row with this `expiresAt` to UPLOADED. -/
  | passed (n : Nat) (id : String) (now expiresAt : Time)
  deriving DecidableEq

structure PollWorld where
  db : Database
  clock : Time
  /-- The last first. -/
  log : List Note

def PollWorld.start : PollWorld := ⟨.start .empty, 0, []⟩

/-- What the surroundings decide about a command. -/
structure PollChoice where
  /-- Which statements of a store method fail. -/
  faults : List Bool
  blob : (c : BlobCmd) → Option c.Reply
  url : Option String
  text : String
  flag : Bool

namespace PollWorld

/-- The gate lets a confirm pass: its statement changes the row. -/
def passedBy (n : Nat) (c : StoreCmd) (db db' : Database) : List Note :=
  match c with
  | .updateIntentToUploaded id now =>
    if db'.intents.find? id = db.intents.find? id then []
    else (db.intents.find? id).toList.map fun i => .passed n id now i.expiresAt
  | _ => []

def readBy (n : Nat) : StoreCmd → List Note
  | .getIntent id => [.read n id]
  | _ => []

variable (g : PollWorld) (ch : PollChoice)

def afterStore (c : StoreCmd) (faults : List Bool) : PollWorld :=
  { g with db := (c.apply faults g.db).2 }

def requestReply : (c : UploadCmd) → UploadSig.Reply c
  | .store c => (c.apply ch.faults g.db).1
  | .presignedUploadURL .. => ch.url
  | .now => g.clock
  | .uuid => ch.text
  | .respond _ => ()

def requestAfter (n : Nat) : UploadCmd → PollWorld
  | .store c =>
    let g' := g.afterStore c ch.faults
    { g' with log := readBy n c ++ (passedBy n c g.db g'.db ++ g.log) }
  | .now => { g with log := .clock n g.clock :: g.log }
  | .respond (.status body) => { g with log := .answered n body.id body.status :: g.log }
  | _ => g

def hashReply : (c : HashCmd) → HashSig.Reply c
  | .store c => (c.apply ch.faults g.db).1
  | .blob c => ch.blob c
  | .now => g.clock
  | .cancelled | .tick => ch.flag
  | .done => ()

def hashAfter : HashCmd → PollWorld
  | .store c => g.afterStore c ch.faults
  | _ => g

end PollWorld

inductive PollEvent where
  | tick (duration : Nat)
  | applyIndexed (hash : String) (attempts : Int) (now : Time) (faults : List Bool)
  | applyFailed (hash : String) (attempts : Int) (retryable : Bool) (maxAttempts : Int)
      (now : Time) (faults : List Bool)

def PollEvent.apply : PollEvent → PollWorld → PollWorld
  | tick duration, g => { g with clock := g.clock + duration }
  | applyIndexed hash attempts now faults, g =>
    g.afterStore (.applyIndexed hash attempts now) faults
  | applyFailed hash attempts retryable maxAttempts now faults, g =>
    g.afterStore (.applyFailed hash attempts retryable maxAttempts now) faults

/-- The requests are numbered; a request that was never made does not start. -/
def pollSystem (cfg : HashConfig) (h : Handlers) (requests : Nat → UploadRequest) :
    Actors Party PollWorld where
  sig
    | .request _ => UploadSig
    | .hash _ => HashSig
  main
    | .request n => (h.serve (requests n) ()).bind fun _ => .ret ()
    | .hash p => p.main cfg
  Choice := PollChoice
  respond
    | .request n => fun c ch g => (g.requestReply ch c, g.requestAfter ch n c)
    | .hash _ => fun c ch g => (g.hashReply ch c, g.hashAfter ch c)
  enter
    | .request n, g => match requests n with
      | .getUploadStatus id => { g with log := .asked n id :: g.log }
      | _ => g
    | .hash _, g => g
  leave _ g := g
  Env := PollEvent
  env := PollEvent.apply

def FinalAnswer (status : String) : Prop :=
  status = "EXPIRED" ∨ status = "FAILED" ∨ status = "INDEXED"

/-- A poll that is asked after such an answer gives the same. -/
def FinalAnswers (log : List Note) : Prop :=
  ∀ n n' id status status',
    [.answered n' id status', .asked n' id, .answered n id status] <+ log →
    FinalAnswer status → status' = status

/-- The same, unless the answer is EXPIRED and a confirm, which had read its clock before
`expiresAt`, passed the gate after the row was read for this answer and before it was read for the
other one. -/
def FinalUnlessPassed (log : List Note) : Prop :=
  ∀ n n' id status status',
    [.answered n' id status', .asked n' id, .answered n id status] <+ log →
    FinalAnswer status → status' = status ∨
      status = "EXPIRED" ∧ ∃ m now expiresAt, now < expiresAt ∧
        [.passed m id now expiresAt, .clock m now] <+ log ∧
        [.read n' id, .passed m id now expiresAt, .read n id] <+ log

end Center

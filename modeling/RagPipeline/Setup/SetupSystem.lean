import RagPipeline.Interact.Actors
import RagPipeline.Setup.Migrations

/-!
# Runs of the migrations

Any number of migrations and bucket setups over the same stores, at once or one after the other,
each with its own configuration.

## Main definitions

* `Storage`: the database files, the collections and the buckets.
* `setupSystem`: the commands and what they share.
-/
namespace Setup

open Wire Interact Method Rag

inductive Command where
  | migrate (config : MigrationConfig)
  | buckets (upload ingestion : String)

namespace Command

def sig : Command → Signature
  | migrate _ => MigrationSig
  | buckets .. => BucketSig

/-- An exception that leaves `main`, like a fatal log entry, is exit code 1. -/
def exitCode {ε : Type} : Except ε Nat → Nat
  | .ok code => code
  | .error _ => 1

def main : (c : Command) → Prog c.sig Unit
  | migrate config => (Setup.migrate config false).bind fun x =>
      .call (S := MigrationSig) (.inr (.exit (exitCode x.1))) .ret
  | buckets upload ingestion => (ensureBuckets [upload, ingestion]).bind fun r =>
      .call (S := BucketSig) (.exit (exitCode (r.map fun _ => 0))) .ret

end Command

/-! ### What they share -/

structure Storage where
  /-- The columns of `indexed_documents` in each database file, none without the table. -/
  tables : PyStr → List String
  collections : PyStr → Option Collection
  buckets : List String
  /-- How each command has ended. -/
  exits : Nat → Option Nat

/-- What becomes of a call, and what the error says. -/
structure SetupChoice where
  fate : Fate
  code : String

namespace Storage

variable (s : Storage)

def answer {ε α : Type} (ch : SetupChoice) (e : ε) (a : α) : Except ε α :=
  if ch.fate = .ok then .ok a else .error e

def sqlResult (path : PyStr) : (c : SqlCmd) → SqlSig.Reply c
  | .tableInfo => s.tables path
  | .createTable => ()

/-- Data definition takes effect at once, not at the commit. -/
def sqlEffect (path : PyStr) : SqlCmd → Storage
  | .tableInfo => s
  | .createTable =>
    if s.tables path = [] then { s with tables := Function.update s.tables path columns } else s

def connResult : (c : ConnCmd SqlSig) → c.Result
  | .execute path c => s.sqlResult path c
  | .mkdir _ | .connect _ | .pragma .. | .commit _ | .rollback _ | .close _ => ()

def connEffect : ConnCmd SqlSig → Storage
  | .execute path c => s.sqlEffect path c
  | _ => s

/-- The answer about a collection that there has to be. -/
def lookUp {α : Type} (ch : SetupChoice) (name : PyStr) (f : Collection → α) :
    Except QdrantError α :=
  match s.collections name with
  | some c => answer ch ⟨[]⟩ (f c)
  | none => .error ⟨[]⟩

/-- The answer for a collection that there must not be. -/
def make (ch : SetupChoice) (name : PyStr) : Except QdrantError Unit :=
  match s.collections name with
  | some _ => .error ⟨[]⟩
  | none => answer ch ⟨[]⟩ ()

def qdrantReply (ch : SetupChoice) : (c : QdrantCmd) → QdrantSig.Reply c
  | .collectionExists name => answer ch (⟨[]⟩ : QdrantError) (s.collections name).isSome
  | .getCollection name => s.lookUp ch name id
  | .createCollection name _ => s.make ch name
  | .createPayloadIndex name => s.lookUp ch name fun _ => ()
  | .closeClient => answer ch (⟨[]⟩ : QdrantError) ()
  | .exit _ => ()

/-- A new collection of one dense vector under the cosine distance. -/
def created (size : Int) : Collection := ⟨some ⟨size, false, .cosine⟩, none⟩

def qdrantEffect (i : Nat) : QdrantCmd → Storage
  | .createCollection name size =>
    if (s.collections name).isSome then s
    else { s with collections := Function.update s.collections name (some (created size)) }
  | .createPayloadIndex name =>
    { s with
      collections := Function.update s.collections name
        ((s.collections name).map fun c => ⟨c.vectors, some QdrantPayloadIndex.keyword⟩) }
  | .exit code => { s with exits := Function.update s.exits i (some code) }
  | _ => s

def bucketReply (ch : SetupChoice) : (c : BucketCmd) → BucketSig.Reply c
  | .bucketExists bucket => answer ch (⟨ch.code⟩ : ErrorResponse) (decide (bucket ∈ s.buckets))
  | .makeBucket bucket =>
    if bucket ∈ s.buckets then Except.error (⟨ch.code⟩ : ErrorResponse)
    else answer ch (⟨ch.code⟩ : ErrorResponse) ()
  | .exit _ => ()

def bucketEffect (i : Nat) : BucketCmd → Storage
  | .makeBucket bucket => { s with buckets := s.buckets.insert bucket }
  | .exit code => { s with exits := Function.update s.exits i (some code) }
  | .bucketExists _ => s

def migrationReply (ch : SetupChoice) : (c : MigrationSig.Cmd) → MigrationSig.Reply c
  | .inl c => answer ch (⟨[]⟩ : SqliteError) (s.connResult c)
  | .inr c => s.qdrantReply ch c

def migrationEffect (i : Nat) : MigrationSig.Cmd → Storage
  | .inl c => s.connEffect c
  | .inr c => s.qdrantEffect i c

def reply (ch : SetupChoice) : (k : Command) → (c : k.sig.Cmd) → k.sig.Reply c
  | .migrate _ => s.migrationReply ch
  | .buckets .. => s.bucketReply ch

def effect (i : Nat) : (k : Command) → k.sig.Cmd → Storage
  | .migrate _ => s.migrationEffect i
  | .buckets .. => s.bucketEffect i

end Storage

def setupSystem (runs : Nat → Command) : Actors Nat Storage where
  sig i := (runs i).sig
  main i := (runs i).main
  Choice := SetupChoice
  respond i c ch s :=
    (s.reply ch (runs i) c, if ch.fate = .refused then s else s.effect i (runs i) c)
  enter _ s := s
  leave _ s := s
  Env := Empty
  env := nofun

end Setup

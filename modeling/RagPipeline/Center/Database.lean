import RagPipeline.Center.Domain
import RagPipeline.Relational.Transaction
import Mathlib.Data.List.Sort

/-!
# `center.db`

The three tables of the center service and the statements its stores run on them. An outbox row
and an intent's `hash` refer to a document; `foreign_keys(1)` makes SQLite refuse a statement
that would leave such a reference dangling. `RowsAffected` reports no error with this driver.
-/
namespace Center

open Relational

structure Database where
  documents : Table Document
  outbox : AutoTable OutboxMessage
  intents : Table Intent
  deriving DecidableEq

/-- Empty `document_store` and `outbox`. -/
def Database.start (intents : Table Intent) : Database := ⟨.empty, .empty, intents⟩

@[ext] theorem Database.ext {a b : Database} (hd : a.documents = b.documents)
    (ho : a.outbox = b.outbox) (hi : a.intents = b.intents) : a = b := by
  cases a; cases b; cases hd; cases ho; cases hi; rfl

inductive StoreError where
  /-- The driver's error under the prefix a store wraps around it, if it wraps one. -/
  | driver (context : Option String)
  | lostClaim
  | intentNotFound (id : String)
  deriving DecidableEq, Repr

abbrev Store := Tx Database StoreError

/-- How many outbox rows a document has. -/
def rowsOf (t : AutoTable OutboxMessage) (hash : String) : Nat :=
  t.rows.countP fun m => m.hash = hash

namespace Database

/-- `INSERT INTO document_store … ON CONFLICT(hash) DO NOTHING`. -/
def insertDocument (d : Document) : Statement Database := fun db =>
  some ({ db with documents := db.documents.insertOrIgnore d },
    if (db.documents.find? d.hash).isSome then 0 else 1)

/-- The columns `INSERT INTO outbox (hash, status, created_at)` leaves out have defaults. -/
def newMessage (hash : String) (now : Time) (id : Nat) : OutboxMessage :=
  ⟨id, hash, .pending, none, none, 0, now⟩

def enqueued (t : AutoTable OutboxMessage) (hash : String) (now : Time) :
    AutoTable OutboxMessage :=
  t.insert (newMessage hash now) (by intro id; rfl)

@[simp] theorem rows_enqueued (t : AutoTable OutboxMessage) (hash : String) (now : Time) :
    (enqueued t hash now).rows = t.rows ++ [newMessage hash now (t.seq + 1)] := rfl

def insertOutbox (hash : String) (now : Time) : Statement Database := fun db =>
  if (db.documents.find? hash).isSome then
    some ({ db with outbox := enqueued db.outbox hash now }, 1)
  else none

/-- `UPDATE document_store SET … WHERE`; `f` leaves the hash alone. -/
def updateDocuments (p : Document → Bool) (f : Document → Document)
    (hf : ∀ d, (f d).hash = d.hash) : Statement Database := fun db =>
  some ({ db with documents := db.documents.update p f hf }, db.documents.affected p)

def updateOutbox (p : OutboxMessage → Bool) (f : OutboxMessage → OutboxMessage)
    (hf : ∀ m, (f m).id = m.id) : Statement Database := fun db =>
  some ({ db with outbox := db.outbox.update p f hf }, db.outbox.affected p)

def updateIntents (p : Intent → Bool) (f : Intent → Intent) (hf : ∀ i, (f i).id = i.id) :
    Statement Database := fun db =>
  some ({ db with intents := db.intents.update p f hf }, db.intents.affected p)

/-- The intents a condition selects, linked to a document. -/
def linked (t : Table Intent) (p : Intent → Bool) (hash : String) : Table Intent :=
  t.update p (fun i => { i with status := .hashed, hash := some hash }) fun _ => rfl

/-- `UPDATE upload_intent SET status = 'HASHED', hash = ? WHERE`. -/
def linkIntents (p : Intent → Bool) (hash : String) : Statement Database := fun db =>
  if (db.documents.find? hash).isSome ∨ db.intents.affected p = 0 then
    some ({ db with intents := linked db.intents p hash }, db.intents.affected p)
  else none

section Inversion

variable {db db' : Database} {n : Nat}

theorem insertDocument_ok {d : Document} (h : insertDocument d db = some (db', n)) :
    db' = { db with documents := db.documents.insertOrIgnore d } ∧
      n = if (db.documents.find? d.hash).isSome then 0 else 1 := by
  cases h; exact ⟨rfl, rfl⟩

theorem insertOutbox_ok {hash : String} {now : Time}
    (h : insertOutbox hash now db = some (db', n)) :
    db' = { db with outbox := enqueued db.outbox hash now } := by
  unfold insertOutbox at h
  split at h
  · cases h; rfl
  · cases h

theorem updateDocuments_ok {p : Document → Bool} {f : Document → Document}
    {hf : ∀ d, (f d).hash = d.hash} (h : updateDocuments p f hf db = some (db', n)) :
    db' = { db with documents := db.documents.update p f hf } ∧ n = db.documents.affected p := by
  cases h; exact ⟨rfl, rfl⟩

theorem updateOutbox_ok {p : OutboxMessage → Bool} {f : OutboxMessage → OutboxMessage}
    {hf : ∀ m, (f m).id = m.id} (h : updateOutbox p f hf db = some (db', n)) :
    db' = { db with outbox := db.outbox.update p f hf } ∧ n = db.outbox.affected p := by
  cases h; exact ⟨rfl, rfl⟩

theorem updateIntents_ok {p : Intent → Bool} {f : Intent → Intent}
    {hf : ∀ i, (f i).id = i.id} (h : updateIntents p f hf db = some (db', n)) :
    db' = { db with intents := db.intents.update p f hf } ∧ n = db.intents.affected p := by
  cases h; exact ⟨rfl, rfl⟩

theorem linkIntents_ok {p : Intent → Bool} {hash : String}
    (h : linkIntents p hash db = some (db', n)) :
    db' = { db with intents := linked db.intents p hash } ∧ n = db.intents.affected p := by
  unfold linkIntents at h
  split at h
  · cases h; exact ⟨rfl, rfl⟩
  · cases h

end Inversion

end Database

end Center

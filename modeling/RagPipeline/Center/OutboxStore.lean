import RagPipeline.Center.Database

/-!
# The outbox and document stores

The methods of `OutboxStore` and `GetDocumentByHash`. Each is one statement, so each commits by
itself.
-/
namespace Center

open Relational Tx Database

namespace OutboxStore

/-- `status = 'PENDING' ORDER BY created_at ASC LIMIT ?`. -/
def fetchCandidates (limit : Nat) : Store (List OutboxMessage) :=
  query (.driver "select outbox") fun db =>
    ((db.outbox.rows.filter fun m => m.status = .pending).insertionSort
      fun a b => a.createdAt ≤ b.createdAt).take limit

theorem fetchCandidates_ok {limit : Nat} {faults : List Bool} {db : Database}
    {messages : List OutboxMessage}
    (h : ((fetchCandidates limit).run faults db).1 = .ok messages) :
    ∀ msg ∈ messages, msg ∈ db.outbox.rows := by
  rw [run_query_ok h]
  intro msg hmsg
  have hmsg := (List.perm_insertionSort _ _).mem_iff.1 (List.mem_of_mem_take hmsg)
  exact List.mem_of_mem_filter hmsg

/-- The rows a worker may write to: those whose claim it still holds. -/
def heldBy (id : Nat) (claimedBy : String) (m : OutboxMessage) : Bool :=
  m.id = id ∧ m.status = .claimed ∧ m.claimedBy = some claimedBy

/-- A claim given up after a failed attempt: another try, or BLOCKED once `maxRetries` failed. -/
def released (maxRetries : Int) (m : OutboxMessage) : OutboxMessage :=
  { m with
    status := if m.retries + 1 ≥ maxRetries then .blocked else .pending
    retries := m.retries + 1, claimedBy := none, claimedAt := none }

def claimOutboxMessage (now : Time) (claimedBy : String) (id : Nat) : Store Bool := do
  let n ← autocommit (.driver "update outbox")
    (updateOutbox (fun m => m.id = id ∧ m.status = .pending)
      (fun m => { m with status := .claimed, claimedBy := some claimedBy, claimedAt := some now })
      fun _ => rfl)
  return n > 0

def markPublished (id : Nat) (claimedBy : String) : Store Bool := do
  let n ← autocommit (.driver "update outbox")
    (updateOutbox (heldBy id claimedBy)
      (fun m => { m with status := .published, claimedBy := none, claimedAt := none })
      fun _ => rfl)
  return n > 0

def recoverStaleOutbox (cutoff : Time) (maxRetries : Int) : Store Nat :=
  autocommit (.driver "recover stale outbox claims")
    (updateOutbox (fun m => m.status = .claimed ∧ m.claimedAt.any (· < cutoff))
      (released maxRetries) fun _ => rfl)

def releaseClaim (id : Nat) (claimedBy : String) (maxRetries : Int) : Store Bool := do
  let n ← autocommit (.driver "release outbox claim")
    (updateOutbox (heldBy id claimedBy) (released maxRetries) fun _ => rfl)
  return n > 0

def markBlocked (id : Nat) (claimedBy : String) : Store Bool := do
  let n ← autocommit (.driver "mark outbox blocked")
    (updateOutbox (heldBy id claimedBy)
      (fun m => { m with status := .blocked, claimedBy := none, claimedAt := none })
      fun _ => rfl)
  return n > 0

end OutboxStore

namespace DocumentStore

def getDocumentByHash (hash : String) : Store (Option Document) :=
  query (.driver "select document") fun db => db.documents.find? hash

theorem getDocumentByHash_ok {hash : String} {faults : List Bool} {db : Database}
    {found : Option Document} (h : ((getDocumentByHash hash).run faults db).1 = .ok found) :
    db.documents.find? hash = found :=
  (run_query_ok (q := fun db : Database => db.documents.find? hash) h).symm

end DocumentStore

end Center

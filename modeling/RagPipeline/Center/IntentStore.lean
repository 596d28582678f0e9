import RagPipeline.Center.Store

/-!
# The intent store

The methods of `IntentStore` on `upload_intent`. Each is one statement. An intent that a hash
worker claimed is written by that worker, until a sweep finds its claim stale.
-/
namespace Center

open Relational Tx Database

namespace IntentStore

/-- The row `CreateIntent` inserts; the columns it leaves out have defaults. -/
def newIntent (i : Intent) : Intent :=
  { i with uploadedAt := none, status := .waiting, claimedBy := none, claimedAt := none,
           retries := 0 }

def createIntent (i : Intent) : Store Unit := do
  let _ ← autocommit (.driver "insert upload_intent") fun db =>
    if db.intents.find? i.id = none ∧ i.hash.all (fun h => (db.documents.find? h).isSome) then
      some ({ db with intents := db.intents.insertOrIgnore (newIntent i) }, 1)
    else none

def getIntent (id : String) : Store Intent := do
  match ← query (.driver "select upload_intent") fun db => db.intents.find? id with
  | some i => return i
  | none => throw (.intentNotFound id)

/-- A waiting intent whose URL has not expired. -/
def inTime (id : String) (now : Time) (i : Intent) : Bool :=
  i.id = id ∧ i.status = .waiting ∧ i.expiresAt > now

def uploaded (uploadedAt : Time) (i : Intent) : Intent :=
  { i with status := .uploaded, uploadedAt := some uploadedAt }

def updateIntentToUploaded (id : String) (uploadedAt : Time) : Store Nat :=
  autocommit (.driver "update upload_intent")
    (updateIntents (inTime id uploadedAt) (uploaded uploadedAt) fun _ => rfl)

def late (id : String) (now : Time) (i : Intent) : Bool :=
  i.id = id ∧ i.status = .waiting ∧ i.expiresAt ≤ now

def expired (i : Intent) : Intent := { i with status := .expired }

def updateIntentToExpired (id : String) (now : Time) : Store Nat :=
  autocommit (.driver "update upload_intent") (updateIntents (late id now) expired fun _ => rfl)

def claimable (id : String) (i : Intent) : Bool := i.id = id ∧ i.status = .uploaded

def claimed (claimedBy : String) (claimedAt : Time) (i : Intent) : Intent :=
  { i with status := .hashing, claimedBy := some claimedBy, claimedAt := some claimedAt }

def updateIntentToHashing (id claimedBy : String) (claimedAt : Time) : Store Nat :=
  autocommit (.driver "update upload_intent")
    (updateIntents (claimable id) (claimed claimedBy claimedAt) fun _ => rfl)

/-- Up to `limit` UPLOADED intents, oldest first. -/
def getIntentsForHashing (limit : Nat) : Store (List Intent) :=
  query (.driver "select upload_intent") fun db =>
    ((db.intents.rows.filter fun i => i.status = .uploaded).insertionSort
      fun a b => a.createdAt ≤ b.createdAt).take limit

def givenUp (i : Intent) : Intent :=
  { i with status := .failed, claimedBy := none, claimedAt := none }

/-- An intent this worker still owns goes straight to FAILED. -/
def markIntentFailed (id claimedBy : String) : Store Nat :=
  autocommit (.driver "mark upload_intent failed")
    (updateIntents (Store.heldBy id claimedBy) givenUp fun _ => rfl)

/-- A claim given up after a failed attempt: another try, or FAILED once `maxRetries` failed. -/
def released (maxRetries : Int) (i : Intent) : Intent :=
  { i with
    status := if i.retries + 1 ≥ maxRetries then .failed else .uploaded
    retries := i.retries + 1, claimedBy := none, claimedAt := none }

def releaseIntentClaim (id claimedBy : String) (maxRetries : Int) : Store Nat :=
  autocommit (.driver "release upload_intent claim")
    (updateIntents (Store.heldBy id claimedBy) (released maxRetries) fun _ => rfl)

/-- A claim older than `cutoff`. -/
def stale (cutoff : Time) (i : Intent) : Bool := i.status = .hashing ∧ i.claimedAt.any (· < cutoff)

def recoverStaleIntents (cutoff : Time) (maxRetries : Int) : Store Nat :=
  autocommit (.driver "recover stale upload_intent claims")
    (updateIntents (stale cutoff) (released maxRetries) fun _ => rfl)

theorem quiet_getIntent {id : String} : Quiet (getIntent id) := by
  refine (quiet_query _).bind fun o => ?_
  cases o
  · exact quiet_throw
  · exact quiet_pure _

theorem getIntent_ok {id : String} {faults : List Bool} {db : Database} {i : Intent}
    (h : ((getIntent id).run faults db).1 = .ok i) : db.intents.find? id = some i := by
  obtain ⟨s, hs⟩ : ∃ s, getIntent id ⟨db, db, faults⟩ = (.ok i, s) := ⟨_, Prod.ext h rfl⟩
  obtain ⟨o, s₁, ho, hs⟩ := bind_ok.1 hs
  have hq := @run_query_ok _ _ _ _ (fun db : Database => db.intents.find? id) faults db o
    (congrArg Prod.fst ho)
  cases o with
  | none => cases hs
  | some j =>
    obtain ⟨rfl, -⟩ := pure_ok hs
    exact hq.symm

theorem getIntentsForHashing_ok {limit : Nat} {faults : List Bool} {db : Database}
    {intents : List Intent} (h : ((getIntentsForHashing limit).run faults db).1 = .ok intents) :
    ∀ i ∈ intents, i ∈ db.intents.rows := by
  rw [run_query_ok h]
  intro i hi
  have hi := (List.perm_insertionSort _ _).mem_iff.1 (List.mem_of_mem_take hi)
  exact List.mem_of_mem_filter hi

theorem createIntent_cases (i : Intent) (faults : List Bool) (db : Database) :
    let r := (createIntent i).run faults db
    (∃ e, r = (.error e, db)) ∨ db.intents.find? i.id = none ∧
      r = (.ok (), { db with intents := db.intents.insertOrIgnore (newIntent i) }) := by
  refine (run_autocommit_map _ _ _ faults db).imp_right ?_
  rintro ⟨db', n, h, hr⟩
  split at h
  case isTrue hi =>
    cases h
    exact ⟨hi.1, hr⟩
  case isFalse => cases h

/-- Any of the updates above: it fails, or it rewrites the rows it selects. -/
theorem run_updateIntents (e : StoreError) (p : Intent → Bool) (f : Intent → Intent)
    (hf : ∀ i, (f i).id = i.id) (faults : List Bool) (db : Database) :
    let r := (autocommit e (updateIntents p f hf) : Store Nat).run faults db
    (∃ e', r = (.error e', db)) ∨
      r = (.ok (db.intents.affected p), { db with intents := db.intents.update p f hf }) := by
  refine (run_autocommit e _ faults db).imp_right ?_
  rintro ⟨db', n, h, hr⟩
  obtain ⟨rfl, rfl⟩ := updateIntents_ok h
  exact hr

end IntentStore

end Center

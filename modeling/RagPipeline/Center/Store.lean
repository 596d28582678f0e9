import RagPipeline.Center.Database

/-!
# Starting an ingestion and applying its result

`StartIngestion`, `ApplyIndexed` and `ApplyFailed` of the SQLite store, and what each can do to
the database. `now` is what the store's clock, or the caller, reads.

## Main results

* `startIngestion_cases`, `applyIndexed_cases`, `applyFailed_cases`: every outcome of a method
  and the database it leaves, whichever statements fail.
-/
namespace Center

open Relational Tx Database

namespace Store

variable {db : Database} {faults : List Bool} {now : Time} {hash : String} {attempts : Int}

/-- The row `StartIngestion` inserts for a new hash. -/
def newDocument (document : Document) (now : Time) : Document :=
  { document with status := .processing, retries := 0, createdAt := now, updatedAt := now }

/-- The intents a worker may write to: those whose claim it still holds. -/
def heldBy (intentID claimedBy : String) (i : Intent) : Bool :=
  i.id = intentID ∧ i.status = .hashing ∧ i.claimedBy = some claimedBy

def startIngestion (now : Time) (document : Document) (intentID claimedBy : String) :
    Store Unit := do
  begin (.driver "begin tx")
  let created ← exec (.driver "insert document_store") (insertDocument (newDocument document now))
  if created = 1 then
    let _ ← exec (.driver "insert outbox") (insertOutbox document.hash now)
  let n ← exec (.driver "update upload_intent to hashed")
    (linkIntents (heldBy intentID claimedBy) document.hash)
  if n = 0 then
    throw .lostClaim
  commit (.driver none)

/-- The compare-and-swap key: attempt `attempts` of a document still in progress. -/
def current (hash : String) (attempts : Int) (d : Document) : Bool :=
  d.hash = hash ∧ d.retries = attempts ∧ d.status = .processing

def applyIndexed (hash : String) (attempts : Int) (now : Time) : Store Bool := do
  let n ← autocommit (.driver "apply indexed")
    (updateDocuments (current hash attempts)
      (fun d => { d with status := .indexed, updatedAt := now }) fun _ => rfl)
  return n = 1

def applyFailed (hash : String) (attempts : Int) (retryable : Bool) (maxAttempts : Int)
    (now : Time) : Store FailedOutcome := do
  begin (.driver "begin tx")
  let retry := retryable ∧ addInt attempts 1 < maxAttempts
  let n ← exec (.driver "apply failed: update document_store")
    (updateDocuments (current hash attempts)
      (fun d => if retry then { d with retries := addInt attempts 1, updatedAt := now }
        else { d with status := .failed, updatedAt := now })
      fun _ => by split <;> rfl)
  if n = 0 then
    return .stale
  if retry then
    let _ ← exec (.driver "apply failed: insert outbox") (insertOutbox hash now)
  commit (.driver "apply failed: commit")
  if retry then
    return .retried
  return .exhausted

/-- `UPDATE document_store SET updated_at = updated_at WHERE hash = ''`. -/
def ping : Store Unit := do
  let _ ← autocommit (.driver "database write probe")
    (updateDocuments (fun d => d.hash = "") id fun _ => rfl)

/-! ### What each method can do -/

/-- The probe sets a column to itself. -/
theorem run_ping : (ping.run faults db).2 = db := by
  refine of_autocommit_map (P := fun db' => db' = db) rfl fun db' n h => ?_
  obtain ⟨rfl, -⟩ := updateDocuments_ok h
  have hsame : db.documents.update (fun d => d.hash = "") id (fun _ => rfl) = db.documents :=
    Table.ext (by simp [Table.update, rewrite])
  rw [hsame]

/-- What a committed `StartIngestion` leaves. -/
def started (db : Database) (now : Time) (document : Document) (intentID claimedBy : String) :
    Database where
  documents := db.documents.insertOrIgnore (newDocument document now)
  outbox :=
    if (db.documents.find? document.hash).isSome then db.outbox
    else enqueued db.outbox document.hash now
  intents := linked db.intents (heldBy intentID claimedBy) document.hash

/-- The second half of `startIngestion`. -/
def linkIntent (hash intentID claimedBy : String) : Store Unit := do
  let n ← exec (.driver "update upload_intent to hashed")
    (linkIntents (heldBy intentID claimedBy) hash)
  if n = 0 then
    throw .lostClaim
  commit (.driver none)

theorem atomic_linkIntent {intentID claimedBy : String} :
    Atomic (linkIntent hash intentID claimedBy) := by
  refine (quiet_exec _).bind_atomic fun n => ?_
  dsimp only
  split
  · exact quiet_throw.bind_atomic fun _ => atomic_commit
  · exact atomic_commit

theorem linkIntent_ok {intentID claimedBy : String} {s s' : Session Database}
    (h : linkIntent hash intentID claimedBy s = (.ok (), s')) :
    s.working.intents.affected (heldBy intentID claimedBy) ≠ 0 ∧
      s'.committed = { s.working with
        intents := linked s.working.intents (heldBy intentID claimedBy) hash } := by
  obtain ⟨n, s₁, h₁, h⟩ := bind_ok.1 h
  obtain ⟨hw, rfl⟩ := linkIntents_ok (exec_ok h₁).2
  dsimp only at h
  split at h
  case isTrue =>
    obtain ⟨_, _, h, -⟩ := bind_ok.1 h
    cases h
  case isFalse hn => exact ⟨hn, (commit_ok h).trans hw⟩

theorem atomic_startIngestion {document : Document} {intentID claimedBy : String} :
    Atomic (startIngestion now document intentID claimedBy) := by
  refine quiet_begin.bind_atomic fun _ => (quiet_exec _).bind_atomic fun created => ?_
  dsimp only
  split
  · exact (quiet_exec _).bind_atomic fun _ => atomic_linkIntent
  · exact atomic_linkIntent

theorem startIngestion_cases (document : Document) (intentID claimedBy : String) :
    let r := (startIngestion now document intentID claimedBy).run faults db
    (∃ e, r = (.error e, db)) ∨
      (db.intents.affected (heldBy intentID claimedBy) ≠ 0 ∧
        r = (.ok (), started db now document intentID claimedBy)) := by
  refine (atomic_startIngestion.run_cases faults db).imp_right ?_
  rintro ⟨_, s, h, hr⟩
  obtain ⟨_, s₁, h₁, h⟩ := bind_ok.1 h
  obtain ⟨created, s₂, h₂, h⟩ := bind_ok.1 h
  obtain ⟨hw₂, rfl⟩ := insertDocument_ok (exec_ok h₂).2
  rw [(begin_ok h₁).2] at hw₂ h
  rw [hr]
  by_cases hd : (db.documents.find? document.hash).isSome
  · rw [if_neg (by simp [newDocument, hd])] at h
    obtain ⟨hn, hs⟩ := linkIntent_ok h
    rw [hw₂] at hn hs
    exact ⟨hn, by simp [hs, started, hd]⟩
  · rw [if_pos (by simp [newDocument, hd])] at h
    obtain ⟨_, s₃, h₃, h⟩ := bind_ok.1 h
    obtain ⟨hn, hs⟩ := linkIntent_ok h
    rw [insertOutbox_ok (exec_ok h₃).2, hw₂] at hn hs
    exact ⟨hn, by simp [hs, started, hd]⟩

/-- Attempt `attempts` of the document ends in `status`. -/
def finished (t : Table Document) (hash : String) (attempts : Int) (status : DocumentStatus)
    (now : Time) : Table Document :=
  t.update (current hash attempts) (fun d => { d with status, updatedAt := now }) fun _ => rfl

/-- The document moves on to attempt `attempts + 1`. -/
def retried (t : Table Document) (hash : String) (attempts : Int) (now : Time) :
    Table Document :=
  t.update (current hash attempts)
    (fun d => { d with retries := addInt attempts 1, updatedAt := now }) fun _ => rfl

theorem applyIndexed_cases (hash : String) (attempts : Int) (now : Time) :
    let r := (applyIndexed hash attempts now).run faults db
    let n := db.documents.affected (current hash attempts)
    (∃ e, r = (.error e, db)) ∨ r = (.ok (n = 1 : Bool),
      { db with documents := finished db.documents hash attempts .indexed now }) := by
  refine (run_autocommit_map _ _ _ faults db).imp_right ?_
  rintro ⟨db', n, h, hr⟩
  obtain ⟨rfl, rfl⟩ := updateDocuments_ok h
  exact hr

theorem atomic_applyFailed {retryable : Bool} {maxAttempts : Int} :
    Atomic (applyFailed hash attempts retryable maxAttempts now) := by
  refine quiet_begin.bind_atomic fun _ => (quiet_exec _).bind_atomic fun n => ?_
  split
  · exact (quiet_pure _).atomic
  · dsimp only
    split
    · exact (quiet_exec _).bind_atomic fun _ => atomic_commit.map _
    · exact atomic_commit.map _

theorem applyFailed_cases (hash : String) (attempts : Int) (retryable : Bool) (maxAttempts : Int)
    (now : Time) :
    let r := (applyFailed hash attempts retryable maxAttempts now).run faults db
    let n := db.documents.affected (current hash attempts)
    (∃ e, r = (.error e, db)) ∨ (n = 0 ∧ r = (.ok .stale, db)) ∨
      (n ≠ 0 ∧ retryable ∧ addInt attempts 1 < maxAttempts ∧ r = (.ok .retried,
        { db with documents := retried db.documents hash attempts now
                  outbox := enqueued db.outbox hash now })) ∨
      (n ≠ 0 ∧ ¬ (retryable ∧ addInt attempts 1 < maxAttempts) ∧ r = (.ok .exhausted,
        { db with documents := finished db.documents hash attempts .failed now })) := by
  refine (atomic_applyFailed.run_cases faults db).imp_right ?_
  rintro ⟨o, s, h, hr⟩
  obtain ⟨_, s₁, h₁, h⟩ := bind_ok.1 h
  obtain ⟨n, s₂, h₂, h⟩ := bind_ok.1 h
  obtain ⟨hc₁, hw₁⟩ := begin_ok h₁
  obtain ⟨hc₂, hs₂⟩ := exec_ok h₂
  obtain ⟨hw₂, rfl⟩ := updateDocuments_ok hs₂
  rw [hw₁] at hw₂ h
  rw [hr]
  split at h
  case isTrue hn =>
    obtain ⟨rfl, rfl⟩ := pure_ok h
    exact .inl ⟨hn, by rw [hc₂, hc₁]⟩
  case isFalse hn =>
    refine .inr ?_
    dsimp only at h
    by_cases hretry : retryable ∧ addInt attempts 1 < maxAttempts
    · rw [if_pos hretry] at h
      obtain ⟨_, s₃, h₃, h⟩ := bind_ok.1 h
      obtain ⟨_, s₄, h₄, h⟩ := bind_ok.1 h
      rw [if_pos hretry] at h
      obtain ⟨rfl, rfl⟩ := pure_ok h
      refine .inl ⟨hn, hretry.1, hretry.2, ?_⟩
      rw [commit_ok h₄, insertOutbox_ok (exec_ok h₃).2, hw₂]
      simp [hretry, retried]
    · rw [if_neg hretry] at h
      obtain ⟨_, s₄, h₄, h⟩ := bind_ok.1 h
      rw [if_neg hretry] at h
      obtain ⟨rfl, rfl⟩ := pure_ok h
      refine .inr ⟨hn, hretry, ?_⟩
      rw [commit_ok h₄, hw₂]
      simp [hretry, finished]

/-! ### Without faults -/

theorem applyIndexed_isOk (hash : String) (attempts : Int) (now : Time) :
    ((applyIndexed hash attempts now).run [] db).1.isOk := by
  unfold run applyIndexed
  rw [bind_of_ok (autocommit_nil rfl)]
  rfl

/-- Without faults the foreign key of the queued row is the only thing left to fail, and the
document it refers to was just updated. -/
theorem applyFailed_isOk (hash : String) (attempts : Int) (retryable : Bool) (maxAttempts : Int)
    (now : Time) : ((applyFailed hash attempts retryable maxAttempts now).run [] db).1.isOk := by
  unfold run applyFailed
  rw [bind_of_ok begin_nil, bind_of_ok (exec_nil rfl)]
  split
  case isTrue => rfl
  case isFalse hn =>
    have hsome : (db.documents.find? hash).isSome := by
      rw [Table.affected_eq (k := hash) (by simp +contextual [current])] at hn
      cases hd : db.documents.find? hash <;> simp_all
    dsimp only
    split
    case isTrue =>
      rw [bind_of_ok (exec_nil (n := 1) (by
        rw [insertOutbox, if_pos (by simpa [Table.find?_update] using hsome)])),
        bind_of_ok commit_nil]
      rfl
    case isFalse =>
      rw [bind_of_ok commit_nil]
      rfl

end Store

end Center

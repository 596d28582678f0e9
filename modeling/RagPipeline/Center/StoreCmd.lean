import RagPipeline.Center.IntentStore
import RagPipeline.Center.OutboxStore

/-!
# The store as the workers see it

The methods of `*sqlite.Store` as commands. SQLite serialises transactions and the pool holds one
connection, so a method call is one step of a run.

## Main results

* `StoreCmd.unchanged_of_error`: a method that returns an error changed nothing.
* `StoreCmd.effect`: everything any method can do to the database.
-/
namespace Center

open Relational Tx Database

inductive StoreCmd where
  | startIngestion (now : Time) (document : Document) (intentID claimedBy : String)
  | applyIndexed (hash : String) (attempts : Int) (now : Time)
  | applyFailed (hash : String) (attempts : Int) (retryable : Bool) (maxAttempts : Int)
      (now : Time)
  | ping
  | fetchCandidates (limit : Nat)
  | claimOutboxMessage (now : Time) (claimedBy : String) (id : Nat)
  | markPublished (id : Nat) (claimedBy : String)
  | recoverStaleOutbox (cutoff : Time) (maxRetries : Int)
  | releaseClaim (id : Nat) (claimedBy : String) (maxRetries : Int)
  | markBlocked (id : Nat) (claimedBy : String)
  | getDocumentByHash (hash : String)
  | createIntent (i : Intent)
  | getIntent (id : String)
  | updateIntentToUploaded (id : String) (uploadedAt : Time)
  | updateIntentToExpired (id : String) (now : Time)
  | updateIntentToHashing (id claimedBy : String) (claimedAt : Time)
  | getIntentsForHashing (limit : Nat)
  | markIntentFailed (id claimedBy : String)
  | releaseIntentClaim (id claimedBy : String) (maxRetries : Int)
  | recoverStaleIntents (cutoff : Time) (maxRetries : Int)

namespace StoreCmd

/-- What a method returns besides its error. -/
def Result : StoreCmd → Type
  | startIngestion .. | ping | createIntent _ => Unit
  | applyIndexed .. | claimOutboxMessage .. | markPublished .. | releaseClaim ..
  | markBlocked .. => Bool
  | applyFailed .. => FailedOutcome
  | fetchCandidates _ => List OutboxMessage
  | getDocumentByHash _ => Option Document
  | getIntent _ => Intent
  | getIntentsForHashing _ => List Intent
  | recoverStaleOutbox .. | updateIntentToUploaded .. | updateIntentToExpired ..
  | updateIntentToHashing .. | markIntentFailed .. | releaseIntentClaim ..
  | recoverStaleIntents .. => Nat

def method : (c : StoreCmd) → Store c.Result
  | startIngestion now document intentID claimedBy =>
    Store.startIngestion now document intentID claimedBy
  | applyIndexed hash attempts now => Store.applyIndexed hash attempts now
  | applyFailed hash attempts retryable maxAttempts now =>
    Store.applyFailed hash attempts retryable maxAttempts now
  | ping => Store.ping
  | fetchCandidates limit => OutboxStore.fetchCandidates limit
  | claimOutboxMessage now claimedBy id => OutboxStore.claimOutboxMessage now claimedBy id
  | markPublished id claimedBy => OutboxStore.markPublished id claimedBy
  | recoverStaleOutbox cutoff maxRetries => OutboxStore.recoverStaleOutbox cutoff maxRetries
  | releaseClaim id claimedBy maxRetries => OutboxStore.releaseClaim id claimedBy maxRetries
  | markBlocked id claimedBy => OutboxStore.markBlocked id claimedBy
  | getDocumentByHash hash => DocumentStore.getDocumentByHash hash
  | createIntent i => IntentStore.createIntent i
  | getIntent id => IntentStore.getIntent id
  | updateIntentToUploaded id uploadedAt => IntentStore.updateIntentToUploaded id uploadedAt
  | updateIntentToExpired id now => IntentStore.updateIntentToExpired id now
  | updateIntentToHashing id claimedBy claimedAt =>
    IntentStore.updateIntentToHashing id claimedBy claimedAt
  | getIntentsForHashing limit => IntentStore.getIntentsForHashing limit
  | markIntentFailed id claimedBy => IntentStore.markIntentFailed id claimedBy
  | releaseIntentClaim id claimedBy maxRetries =>
    IntentStore.releaseIntentClaim id claimedBy maxRetries
  | recoverStaleIntents cutoff maxRetries => IntentStore.recoverStaleIntents cutoff maxRetries

/-- Call the method; `faults` says which of its statements fail. -/
def apply (c : StoreCmd) (faults : List Bool) (db : Database) :
    Except StoreError c.Result × Database :=
  c.method.run faults db

/-! ### What a method can do -/

theorem atomic (c : StoreCmd) : Atomic c.method := by
  cases c with
  | startIngestion => exact Store.atomic_startIngestion
  | applyFailed => exact Store.atomic_applyFailed
  | getIntent => exact IntentStore.quiet_getIntent.atomic
  | fetchCandidates => exact (quiet_query _).atomic
  | getDocumentByHash => exact (quiet_query _).atomic
  | getIntentsForHashing => exact (quiet_query _).atomic
  | applyIndexed | ping | claimOutboxMessage | markPublished | releaseClaim | markBlocked
  | createIntent => exact (atomic_autocommit _).map _
  | recoverStaleOutbox | updateIntentToUploaded | updateIntentToExpired | updateIntentToHashing
  | markIntentFailed | releaseIntentClaim | recoverStaleIntents => exact atomic_autocommit _

theorem unchanged_of_error {c : StoreCmd} {faults : List Bool} {db : Database} {e : StoreError}
    (h : (c.apply faults db).1 = .error e) : (c.apply faults db).2 = db :=
  c.atomic _ _ h

/-- Everything a method can do to the database. The outbox methods rewrite rows that are not
PUBLISHED yet, never their hash, and only `MarkPublished` ends a row in PUBLISHED. -/
inductive Effect (db : Database) : StoreCmd → Database → Prop where
  | unchanged (c : StoreCmd) : Effect db c db
  | started (now : Time) (document : Document) (intentID claimedBy : String)
      (h : db.intents.affected (Store.heldBy intentID claimedBy) ≠ 0) :
      Effect db (.startIngestion now document intentID claimedBy)
        (Store.started db now document intentID claimedBy)
  | indexed (hash : String) (attempts : Int) (now : Time) :
      Effect db (.applyIndexed hash attempts now)
        { db with documents := Store.finished db.documents hash attempts .indexed now }
  | retried (hash : String) (attempts : Int) (maxAttempts : Int) (now : Time)
      (h : db.documents.affected (Store.current hash attempts) ≠ 0)
      (hlt : addInt attempts 1 < maxAttempts) :
      Effect db (.applyFailed hash attempts true maxAttempts now)
        { db with documents := Store.retried db.documents hash attempts now
                  outbox := enqueued db.outbox hash now }
  | exhausted (hash : String) (attempts : Int) (retryable : Bool) (maxAttempts : Int)
      (now : Time) :
      Effect db (.applyFailed hash attempts retryable maxAttempts now)
        { db with documents := Store.finished db.documents hash attempts .failed now }
  | outbox (c : StoreCmd) (p : OutboxMessage → Bool) (f : OutboxMessage → OutboxMessage)
      (hf : ∀ m, (f m).id = m.id) (hash : ∀ m, (f m).hash = m.hash)
      (open_ : ∀ m, p m → m.status ≠ .published)
      (publish : ∀ m, p m → (f m).status = .published →
        ∃ claimedBy, c = .markPublished m.id claimedBy) :
      Effect db c { db with outbox := db.outbox.update p f hf }
  | intents (c : StoreCmd) (t : Table Intent) : Effect db c { db with intents := t }

section Effect

variable {c : StoreCmd} {faults : List Bool} {db : Database} {e : StoreError} {β : Type}

theorem Effect.of_quiet {x : Store β} (hx : Quiet x) : Effect db c (x.run faults db).2 := by
  rw [run_quiet hx]; exact .unchanged c

theorem Effect.of_autocommit {stmt : Statement Database}
    (h : ∀ db' n, stmt db = some (db', n) → Effect db c db') :
    Effect db c ((autocommit e stmt).run faults db).2 :=
  Tx.of_autocommit (.unchanged c) h

theorem Effect.of_autocommit_map {stmt : Statement Database} {g : Nat → β}
    (h : ∀ db' n, stmt db = some (db', n) → Effect db c db') :
    Effect db c ((autocommit e stmt >>= fun n => pure (g n)).run faults db).2 :=
  Tx.of_autocommit_map (.unchanged c) h

theorem Effect.of_updateOutbox {p : OutboxMessage → Bool} {f : OutboxMessage → OutboxMessage}
    {hf : ∀ m, (f m).id = m.id} (hash : ∀ m, (f m).hash = m.hash)
    (open_ : ∀ m, p m → m.status ≠ .published)
    (publish : ∀ m, p m → (f m).status = .published →
      ∃ claimedBy, c = .markPublished m.id claimedBy) (db' : Database) (n : Nat)
    (h : updateOutbox p f hf db = some (db', n)) : Effect db c db' := by
  obtain ⟨rfl, -⟩ := updateOutbox_ok h
  exact .outbox c p f hf hash open_ publish

theorem Effect.of_updateIntents {p : Intent → Bool} {f : Intent → Intent}
    {hf : ∀ i, (f i).id = i.id} (db' : Database) (n : Nat)
    (h : updateIntents p f hf db = some (db', n)) : Effect db c db' := by
  obtain ⟨rfl, -⟩ := updateIntents_ok h
  exact .intents c _

theorem released_not_published (maxRetries : Int) (m : OutboxMessage) :
    (OutboxStore.released maxRetries m).status ≠ .published := by
  unfold OutboxStore.released
  split <;> simp

theorem not_published_of_heldBy {id : Nat} {claimedBy : String} (m : OutboxMessage)
    (h : OutboxStore.heldBy id claimedBy m) : m.status ≠ .published := by
  simp only [OutboxStore.heldBy, decide_eq_true_eq] at h
  simp [h.2.1]

theorem effect (c : StoreCmd) (faults : List Bool) (db : Database) :
    Effect db c (c.apply faults db).2 := by
  cases c with
  | startIngestion now document intentID claimedBy =>
    change Effect db _ ((Store.startIngestion now document intentID claimedBy).run faults db).2
    obtain ⟨_, hr⟩ | ⟨h, hr⟩ := @Store.startIngestion_cases db faults now
      document intentID claimedBy
    · rw [hr]; exact .unchanged _
    · rw [hr]; exact .started now document intentID claimedBy h
  | applyIndexed hash attempts now =>
    change Effect db _ ((Store.applyIndexed hash attempts now).run faults db).2
    obtain ⟨_, hr⟩ | hr := @Store.applyIndexed_cases db faults hash attempts now
    · rw [hr]; exact .unchanged _
    · rw [hr]; exact .indexed hash attempts now
  | applyFailed hash attempts retryable maxAttempts now =>
    change Effect db _
      ((Store.applyFailed hash attempts retryable maxAttempts now).run faults db).2
    obtain ⟨_, hr⟩ | ⟨-, hr⟩ | ⟨h, rfl, hlt, hr⟩ | ⟨-, -, hr⟩ := @Store.applyFailed_cases db faults
      hash attempts retryable maxAttempts now
    · rw [hr]; exact .unchanged _
    · rw [hr]; exact .unchanged _
    · rw [hr]; exact .retried hash attempts maxAttempts now h hlt
    · rw [hr]; exact .exhausted hash attempts retryable maxAttempts now
  | ping =>
    change Effect db _ (Store.ping.run faults db).2
    rw [Store.run_ping]
    exact .unchanged _
  | claimOutboxMessage now claimedBy id =>
    exact .of_autocommit_map (.of_updateOutbox (fun _ => rfl) (by simp_all) (by simp))
  | markPublished id claimedBy =>
    refine .of_autocommit_map (.of_updateOutbox (fun _ => rfl) not_published_of_heldBy ?_)
    intro m hm _
    simp only [OutboxStore.heldBy, decide_eq_true_eq] at hm
    exact ⟨claimedBy, by rw [hm.1]⟩
  | releaseClaim id claimedBy maxRetries =>
    exact .of_autocommit_map (.of_updateOutbox (fun _ => rfl) not_published_of_heldBy
      fun m _ h => absurd h (released_not_published maxRetries m))
  | markBlocked id claimedBy =>
    exact .of_autocommit_map (.of_updateOutbox (fun _ => rfl) not_published_of_heldBy (by simp))
  | recoverStaleOutbox cutoff maxRetries =>
    exact .of_autocommit (.of_updateOutbox (fun _ => rfl) (by simp +contextual)
      fun m _ h => absurd h (released_not_published maxRetries m))
  | fetchCandidates limit =>
    exact .of_quiet (quiet_query _)
  | getDocumentByHash hash =>
    exact .of_quiet (quiet_query _)
  | getIntentsForHashing limit =>
    exact .of_quiet (quiet_query _)
  | getIntent => exact .of_quiet IntentStore.quiet_getIntent
  | createIntent i =>
    refine .of_autocommit_map fun db' n h => ?_
    split at h
    · cases h; exact .intents _ _
    · cases h
  | updateIntentToUploaded | updateIntentToExpired | updateIntentToHashing | markIntentFailed
  | releaseIntentClaim | recoverStaleIntents => exact .of_autocommit .of_updateIntents

end Effect

end StoreCmd

end Center

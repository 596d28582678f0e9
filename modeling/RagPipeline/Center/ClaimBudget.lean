import RagPipeline.Center.Lifecycle
import RagPipeline.Center.RowChange
import RagPipeline.Relational.Tries

/-!
# What a claim costs

Whoever ends a claim, the row counts one more failure or is done: the worker that holds it, the
sweeper that takes it away, or nobody, when the worker has crashed. So the retries of a row bound
how often it was claimed.

## Main definitions

* `claimedIntent`, `claimedRow`: the row that a method call has claimed.
* `Database.intentTries`, `Database.rowTries`: how far a row is.

## Main results

* `covers_intent`, `covers_row`: a method call adds at most the claim it makes.
-/
namespace Center

open Relational Database

/-- `UpdateIntentToHashing` returned no error and some row. -/
def tookIntent : Except StoreError Nat → Bool
  | .ok n => n ≠ 0
  | .error _ => false

/-- `ClaimOutboxMessage` returned true. -/
def tookRow : Except StoreError Bool → Bool
  | .ok claimed => claimed
  | .error _ => false

/-- The intent that is claimed when a call comes to this. -/
def claimedIntent : (c : StoreCmd) → Except StoreError c.Result → Option String
  | .updateIntentToHashing id _ _, r => if tookIntent r then some id else none
  | _, _ => none

/-- The outbox row that is claimed when a call comes to this. -/
def claimedRow : (c : StoreCmd) → Except StoreError c.Result → Option Nat
  | .claimOutboxMessage _ _ id, r => if tookRow r then some id else none
  | _, _ => none

def Intent.tries (i : Intent) : Tries :=
  match i.status with
  | .waiting | .uploaded => .ready i.retries
  | .hashing => .held i.retries
  | .unknown | .hashed | .expired | .failed => .closed

def OutboxMessage.tries (m : OutboxMessage) : Tries :=
  match m.status with
  | .pending => .ready m.retries
  | .claimed => .held m.retries
  | .published | .blocked => .closed

namespace Database

def row? (db : Database) (id : Nat) : Option OutboxMessage :=
  db.outbox.rows.find? fun m => m.id = id

def intentTries (db : Database) (id : String) : Tries :=
  (db.intents.find? id).elim .absent Intent.tries

def rowTries (db : Database) (id : Nat) : Tries := (db.row? id).elim .absent OutboxMessage.tries

end Database

variable {p : Pools} {c : StoreCmd} {faults : List Bool} {db : Database}

/-! ### Intents -/

section Intent

variable {id : String} {i i' : Intent} {maxRetries : Int} {n : Nat}

theorem Intent.tries_released (hs : i.status = .hashing) :
    Tries.Step maxRetries i.tries (IntentStore.released maxRetries i).tries := by
  have hheld : i.tries = .held i.retries := by simp [Intent.tries, hs]
  have hafter : (IntentStore.released maxRetries i).tries = .failed maxRetries i.retries := by
    unfold Intent.tries IntentStore.released Tries.failed
    by_cases hlast : i.retries + 1 ≥ maxRetries <;> simp [hlast]
  rw [hheld, hafter]
  exact .failed _

theorem Intent.tries_claimed {claimedBy : String} {claimedAt : Time} (hs : i.status = .uploaded) :
    i.tries = .ready i.retries ∧
      (IntentStore.claimed claimedBy claimedAt i).tries = .held i.retries := by
  simp [Intent.tries, IntentStore.claimed, hs]

theorem IntentEdit.tries (h : IntentEdit c i i') (hc : c.InPools p) :
    Tries.Step p.hashing i.tries i'.tries := by
  cases h with
  | @uploaded _ _ uploadedAt hi =>
    simp only [IntentStore.inTime, decide_eq_true_eq] at hi
    have hsame : (IntentStore.uploaded uploadedAt i).tries = i.tries := by
      simp [Intent.tries, IntentStore.uploaded, hi.2.1]
    rw [hsame]
    exact .same _
  | claimed hi =>
    obtain ⟨hbefore, hafter⟩ := Intent.tries_claimed (of_decide_eq_true hi).2
    rw [hbefore, hafter]
    exact .taken _
  | released hi =>
    cases hc
    exact Intent.tries_released (heldBy_hashing hi)
  | recovered hi =>
    cases hc
    exact Intent.tries_released (of_decide_eq_true hi).1
  | expired | givenUp | linked => exact .closed _

theorem step_intentTries (hc : c.InPools p) (id : String) :
    Tries.Step p.hashing (db.intentTries id) ((c.apply faults db).2.intentTries id) := by
  unfold intentTries
  cases intentStep c faults db id with
  | same hsame =>
    rw [hsame]
    exact .same _
  | changed hi hi' hedit =>
    rw [hi, hi']
    exact hedit.tries hc
  | created _ _ hnone hnew =>
    rw [hnone, hnew]
    exact .added

theorem IntentStore.updateIntentToHashing_cases (id claimedBy : String) (claimedAt : Time)
    (faults : List Bool) (db : Database) :
    (∃ e, (updateIntentToHashing id claimedBy claimedAt).run faults db = (.error e, db)) ∨
      (updateIntentToHashing id claimedBy claimedAt).run faults db =
        (.ok (db.intents.affected (claimable id)), { db with
          intents := db.intents.update (claimable id) (claimed claimedBy claimedAt)
            fun _ => rfl }) := by
  refine (Tx.run_autocommit _ _ faults db).imp_right ?_
  rintro ⟨db', n, hstmt, hr⟩
  obtain ⟨rfl, rfl⟩ := updateIntents_ok hstmt
  exact hr

/-- A claim has found a row that was ready. -/
theorem intentTries_of_claimed (h : claimedIntent c (c.apply faults db).1 = some id) :
    ∃ failures, db.intentTries id = .ready failures ∧
      (c.apply faults db).2.intentTries id = .held failures := by
  cases c with
  | updateIntentToHashing key claimedBy claimedAt =>
    change (if tookIntent ((IntentStore.updateIntentToHashing key claimedBy claimedAt).run
      faults db).1 then some key else none) = some id at h
    change ∃ failures, _ ∧ ((IntentStore.updateIntentToHashing key claimedBy claimedAt).run
      faults db).2.intentTries id = .held failures
    obtain ⟨e, hr⟩ | hr :=
      IntentStore.updateIntentToHashing_cases key claimedBy claimedAt faults db
    · simp [hr, tookIntent] at h
    rw [hr] at h ⊢
    obtain ⟨hn, rfl⟩ : db.intents.affected (IntentStore.claimable key) ≠ 0 ∧ key = id := by
      simpa [tookIntent] using h
    rw [Table.affected_eq (k := key) fun i hi => (of_decide_eq_true hi).1] at hn
    obtain ⟨i, hi, hsel⟩ : ∃ i, db.intents.find? key = some i ∧ IntentStore.claimable key i := by
      simpa [Option.any_eq_true] using hn
    have hfind := Table.find?_update db.intents (IntentStore.claimable key)
      (IntentStore.claimed claimedBy claimedAt) (fun _ => rfl) key
    rw [hi, Option.map_some, if_pos hsel] at hfind
    obtain ⟨hbefore, hafter⟩ := Intent.tries_claimed (of_decide_eq_true hsel).2
    refine ⟨i.retries, ?_, ?_⟩
    · rw [intentTries, hi]
      exact hbefore
    · exact (congrArg (Option.elim · .absent Intent.tries) hfind).trans hafter
  | _ => cases h

/-- Of the claims of an intent, a method call adds at most the one it makes. -/
theorem covers_intent (h : Tries.Covers p.hashing (db.intentTries id) n) (hc : c.InPools p) :
    Tries.Covers p.hashing ((c.apply faults db).2.intentTries id)
      (n + if claimedIntent c (c.apply faults db).1 = some id then 1 else 0) := by
  split
  case isTrue hclaim =>
    obtain ⟨failures, hbefore, hafter⟩ := intentTries_of_claimed hclaim
    rw [hbefore] at h
    rw [hafter]
    exact h.take
  case isFalse => exact h.step (step_intentTries hc id) p.hashing_pos

end Intent

/-! ### Outbox rows -/

section Row

variable {id : Nat} {m m' : OutboxMessage} {maxRetries : Int} {n : Nat}

theorem OutboxMove.tries (h : OutboxMove maxRetries m m') :
    Tries.Step maxRetries m.tries m'.tries := by
  cases h with
  | claimed claimedBy now hs =>
    have hready : m.tries = .ready m.retries := by simp [OutboxMessage.tries, hs]
    rw [hready]
    exact .taken _
  | finished status hs ht =>
    have hclosed : OutboxMessage.tries { m with status, claimedBy := none, claimedAt := none } =
        .closed := by
      cases status <;> first | rfl | cases ht
    rw [hclosed]
    exact .closed _
  | released hs =>
    have hheld : m.tries = .held m.retries := by simp [OutboxMessage.tries, hs]
    have hafter : (OutboxStore.released maxRetries m).tries = .failed maxRetries m.retries := by
      unfold OutboxMessage.tries OutboxStore.released Tries.failed
      by_cases hlast : m.retries + 1 ≥ maxRetries <;> simp [hlast]
    rw [hheld, hafter]
    exact .failed _

/-- What may happen to the tries of a row besides a claim. -/
def RowTriesStep (maxRetries : Int) (id : Nat) (db db' : Database) : Prop :=
  Tries.Step maxRetries (db.rowTries id) (db'.rowTries id)

theorem row?_update (sel : OutboxMessage → Bool) (f : OutboxMessage → OutboxMessage)
    (hf : ∀ m, (f m).id = m.id) (id : Nat) :
    ({ db with outbox := db.outbox.update sel f hf } : Database).row? id =
      (db.row? id).map fun m => if sel m then f m else m := by
  simp only [row?, AutoTable.rows_update, rewrite, List.find?_map]
  congr 2
  funext m
  by_cases h : sel m <;> simp [h, hf]

/-- A new row has a number that no row had. -/
theorem row?_enqueued {hash : String} {now : Time} {db' : Database}
    (h : db'.outbox = enqueued db.outbox hash now) (id : Nat) :
    db'.row? id = db.row? id ∨
      db.row? id = none ∧ ∃ id', db'.row? id = some (newMessage hash now id') := by
  simp only [row?, h, rows_enqueued, List.find?_append]
  cases db.outbox.rows.find? fun m => m.id = id with
  | some m => exact .inl rfl
  | none =>
    by_cases hid : (newMessage hash now (db.outbox.seq + 1)).id = id
    · exact .inr ⟨rfl, db.outbox.seq + 1, by simp [hid]⟩
    · exact .inl (by simp [hid])

theorem step_rowTries_update {sel : OutboxMessage → Bool} {f : OutboxMessage → OutboxMessage}
    {hf : ∀ m, (f m).id = m.id} (hm : ∀ m, sel m → OutboxMove maxRetries m (f m)) (db' : Database)
    (k : Nat) (h : Database.updateOutbox sel f hf db = some (db', k)) :
    RowTriesStep maxRetries id db db' := by
  obtain ⟨rfl, -⟩ := updateOutbox_ok h
  unfold RowTriesStep rowTries
  rw [row?_update]
  cases db.row? id with
  | none => exact .same _
  | some m =>
    by_cases hs : sel m
    · simpa [hs] using (hm m hs).tries
    · simpa [hs] using .same _

theorem step_rowTries_enqueued {hash : String} {now : Time} {db' : Database}
    (h : db'.outbox = enqueued db.outbox hash now) :
    RowTriesStep maxRetries id db db' := by
  unfold RowTriesStep rowTries
  obtain hsame | ⟨hnone, id', hnew⟩ := row?_enqueued h id
  · rw [hsame]
    exact .same _
  · rw [hnone, hnew]
    exact .added

theorem step_rowTries (hc : c.InPools p) (id : Nat) :
    RowTriesStep p.outbox id db (c.apply faults db).2 := by
  have h₀ : RowTriesStep p.outbox id db db := .same _
  have quiet {α : Type} {x : Store α} (hx : Tx.Quiet x) :
      RowTriesStep p.outbox id db (x.run faults db).2 := by
    rw [Tx.run_quiet hx]
    exact h₀
  cases c with
  | startIngestion now document intentID claimedBy =>
    change RowTriesStep _ _ _
      ((Store.startIngestion now document intentID claimedBy).run faults db).2
    obtain ⟨_, hr⟩ | ⟨-, hr⟩ :=
      @Store.startIngestion_cases db faults now document intentID claimedBy
    · rw [hr]
      exact h₀
    · rw [hr]
      cases hd : db.documents.find? document.hash with
      | none =>
        have hout : (Store.started db now document intentID claimedBy).outbox =
            enqueued db.outbox document.hash now := by
          simp [Store.started, hd]
        exact step_rowTries_enqueued hout
      | some d =>
        have hsame : (Store.started db now document intentID claimedBy).row? id = db.row? id := by
          simp [row?, Store.started, hd]
        unfold RowTriesStep rowTries
        rw [hsame]
        exact .same _
  | applyIndexed hash attempts now =>
    change RowTriesStep _ _ _ ((Store.applyIndexed hash attempts now).run faults db).2
    obtain ⟨_, hr⟩ | hr := @Store.applyIndexed_cases db faults hash attempts now
    · rw [hr]
      exact h₀
    · rw [hr]
      exact h₀
  | applyFailed hash attempts retryable maxAttempts now =>
    change RowTriesStep _ _ _
      ((Store.applyFailed hash attempts retryable maxAttempts now).run faults db).2
    obtain ⟨_, hr⟩ | ⟨-, hr⟩ | ⟨-, -, -, hr⟩ | ⟨-, -, hr⟩ :=
      @Store.applyFailed_cases db faults hash attempts retryable maxAttempts now
    · rw [hr]
      exact h₀
    · rw [hr]
      exact h₀
    · rw [hr]
      exact step_rowTries_enqueued (Eq.refl (enqueued db.outbox hash now))
    · rw [hr]
      exact h₀
  | ping =>
    change RowTriesStep _ _ _ (Store.ping.run faults db).2
    rw [Store.run_ping]
    exact h₀
  | claimOutboxMessage now claimedBy id =>
    refine Tx.of_autocommit_map h₀ (step_rowTries_update fun m hm => .claimed claimedBy now ?_)
    exact (of_decide_eq_true hm).2
  | markPublished id claimedBy =>
    exact Tx.of_autocommit_map h₀ (step_rowTries_update fun m hm =>
      .finished .published (heldBy_claimed hm) rfl)
  | recoverStaleOutbox cutoff maxRetries =>
    cases hc
    exact Tx.of_autocommit h₀ (step_rowTries_update fun m hm => .released (of_decide_eq_true hm).1)
  | releaseClaim id claimedBy maxRetries =>
    cases hc
    exact Tx.of_autocommit_map h₀ (step_rowTries_update fun m hm => .released (heldBy_claimed hm))
  | markBlocked id claimedBy =>
    exact Tx.of_autocommit_map h₀ (step_rowTries_update fun m hm =>
      .finished .blocked (heldBy_claimed hm) rfl)
  | createIntent i =>
    change RowTriesStep _ _ _ ((IntentStore.createIntent i).run faults db).2
    obtain ⟨_, hr⟩ | ⟨-, hr⟩ := IntentStore.createIntent_cases i faults db
    · rw [hr]
      exact h₀
    · rw [hr]
      exact h₀
  | updateIntentToUploaded | updateIntentToExpired | updateIntentToHashing | markIntentFailed
  | releaseIntentClaim | recoverStaleIntents =>
    refine Tx.of_autocommit h₀ fun db' n h => ?_
    obtain ⟨rfl, -⟩ := updateIntents_ok h
    exact h₀
  | getIntent => exact quiet IntentStore.quiet_getIntent
  | fetchCandidates | getDocumentByHash | getIntentsForHashing => exact quiet (Tx.quiet_query _)

theorem OutboxStore.claimOutboxMessage_cases (now : Time) (claimedBy : String) (id : Nat)
    (faults : List Bool) (db : Database) :
    (∃ e, (claimOutboxMessage now claimedBy id).run faults db = (.error e, db)) ∨
      ∃ db', (claimOutboxMessage now claimedBy id).run faults db =
        (.ok (decide (0 < db.outbox.affected fun m => m.id = id ∧ m.status = .pending)), db') ∧
        ∀ m, db.row? id = some m → m.status = .pending → db'.row? id = some
          { m with status := .claimed, claimedBy := some claimedBy, claimedAt := some now } := by
  refine (Tx.run_autocommit_map _ _ _ faults db).imp_right ?_
  rintro ⟨db', n, hstmt, hr⟩
  obtain ⟨rfl, rfl⟩ := updateOutbox_ok hstmt
  refine ⟨_, hr, fun m hm hs => (row?_update _ _ _ id).trans ?_⟩
  have hid : m.id = id := by simpa using List.find?_some hm
  simp [hm, hid, hs]

theorem row?_of_mem (h : m ∈ db.outbox.rows) : db.row? m.id = some m := by
  obtain ⟨m', hm'⟩ : ∃ m', db.row? m.id = some m' := by
    rw [← Option.isSome_iff_exists, row?, List.find?_isSome]
    exact ⟨m, h, by simp⟩
  have hid : m'.id = m.id := by simpa using List.find?_some hm'
  rw [hm', AutoTable.eq_of_key_eq (List.mem_of_find?_eq_some hm') h hid]

/-- A claim has found a row that was ready. -/
theorem rowTries_of_claimed (h : claimedRow c (c.apply faults db).1 = some id) :
    ∃ m ∈ db.outbox.rows, m.id = id ∧ db.rowTries id = .ready m.retries ∧
      (c.apply faults db).2.rowTries id = .held m.retries := by
  cases c with
  | claimOutboxMessage now claimedBy key =>
    change (if tookRow ((OutboxStore.claimOutboxMessage now claimedBy key).run
      faults db).1 then some key else none) = some id at h
    change ∃ m ∈ db.outbox.rows, _ ∧ _ ∧ ((OutboxStore.claimOutboxMessage now claimedBy key).run
      faults db).2.rowTries id = .held m.retries
    obtain ⟨e, hr⟩ | ⟨db', hr, hrow⟩ :=
      OutboxStore.claimOutboxMessage_cases now claimedBy key faults db
    · simp [hr, tookRow] at h
    rw [hr] at h ⊢
    obtain ⟨⟨m, hm, rfl, hs⟩, rfl⟩ :
        (∃ m ∈ db.outbox.rows, m.id = key ∧ m.status = .pending) ∧ key = id := by
      simpa [tookRow, AutoTable.affected, List.countP_pos_iff] using h
    refine ⟨m, hm, rfl, ?_, ?_⟩
    · simp [rowTries, row?_of_mem hm, OutboxMessage.tries, hs]
    · simp [rowTries, hrow m (row?_of_mem hm) hs, OutboxMessage.tries]
  | _ => cases h

/-- Of the claims of an outbox row, a method call adds at most the one it makes. -/
theorem covers_row (h : Tries.Covers p.outbox (db.rowTries id) n) (hc : c.InPools p) :
    Tries.Covers p.outbox ((c.apply faults db).2.rowTries id)
      (n + if claimedRow c (c.apply faults db).1 = some id then 1 else 0) := by
  split
  case isTrue hclaim =>
    obtain ⟨m, -, -, hbefore, hafter⟩ := rowTries_of_claimed hclaim
    rw [hbefore] at h
    rw [hafter]
    exact h.take
  case isFalse => exact h.step (step_rowTries hc id) p.outbox_pos

end Row

end Center

import RagPipeline.Center.TablesAgree

/-!
# What a method does to one row

A method call leaves the intent with a given ID alone, changes it in one way, or creates it. Which
way it is, and what the row looked like before, is read off the method.

## Main definitions

* `IntentEdit`: a row before and after a method that selected it.
* `IntentStep`: what a method call can do to the intent with an ID.

## Main results

* `intentStep`: no call does anything else, whichever statements fail.
* `find?_of_finished`: a document that is done stays as it is.
-/
namespace Center

open Relational Tx Database

/-! ### Intents -/

inductive IntentEdit : StoreCmd → Intent → Intent → Prop where
  | uploaded {i : Intent} {id : String} {uploadedAt : Time}
      (h : IntentStore.inTime id uploadedAt i) :
      IntentEdit (.updateIntentToUploaded id uploadedAt) i (IntentStore.uploaded uploadedAt i)
  | expired {i : Intent} {id : String} {now : Time} (h : IntentStore.late id now i) :
      IntentEdit (.updateIntentToExpired id now) i (IntentStore.expired i)
  | claimed {i : Intent} {id claimedBy : String} {claimedAt : Time}
      (h : IntentStore.claimable id i) :
      IntentEdit (.updateIntentToHashing id claimedBy claimedAt) i
        (IntentStore.claimed claimedBy claimedAt i)
  | givenUp {i : Intent} {id claimedBy : String} (h : Store.heldBy id claimedBy i) :
      IntentEdit (.markIntentFailed id claimedBy) i (IntentStore.givenUp i)
  | released {i : Intent} {id claimedBy : String} {maxRetries : Int}
      (h : Store.heldBy id claimedBy i) :
      IntentEdit (.releaseIntentClaim id claimedBy maxRetries) i
        (IntentStore.released maxRetries i)
  | recovered {i : Intent} {cutoff : Time} {maxRetries : Int} (h : IntentStore.stale cutoff i) :
      IntentEdit (.recoverStaleIntents cutoff maxRetries) i (IntentStore.released maxRetries i)
  | linked {i : Intent} {now : Time} {document : Document} {intentID claimedBy : String}
      (h : Store.heldBy intentID claimedBy i) :
      IntentEdit (.startIngestion now document intentID claimedBy) i
        { i with status := .hashed, hash := some document.hash }

inductive IntentStep (c : StoreCmd) (db : Database) (id : String) (db' : Database) : Prop where
  | same (h : db'.intents.find? id = db.intents.find? id)
  | changed {i i' : Intent} (h : db.intents.find? id = some i) (h' : db'.intents.find? id = some i')
      (hc : IntentEdit c i i')
  | created {i : Intent} (hc : c = .createIntent i) (hid : i.id = id)
      (h : db.intents.find? id = none) (h' : db'.intents.find? id = some (IntentStore.newIntent i))

section Intent

variable {c : StoreCmd} {db : Database} {id : String}

/-- The row a statement selects changes as the method says. -/
theorem IntentStep.update {sel : Intent → Bool} {f : Intent → Intent} (hf : ∀ i, (f i).id = i.id)
    (hc : ∀ i, sel i → IntentEdit c i (f i)) {db' : Database}
    (h : db'.intents = db.intents.update sel f hf) : IntentStep c db id db' := by
  have hfind := Table.find?_update db.intents sel f hf id
  rw [← h] at hfind
  cases hi : db.intents.find? id with
  | none => exact .same (by rw [hfind, hi]; rfl)
  | some i =>
    rw [hi, Option.map_some] at hfind
    by_cases hs : sel i
    · rw [if_pos hs] at hfind
      exact .changed hi hfind (hc i hs)
    · rw [if_neg hs] at hfind
      exact .same (hfind.trans hi.symm)

theorem IntentStep.updateIntents {sel : Intent → Bool} {f : Intent → Intent}
    {hf : ∀ i, (f i).id = i.id} (hc : ∀ i, sel i → IntentEdit c i (f i)) (db' : Database)
    (n : Nat) (h : Database.updateIntents sel f hf db = some (db', n)) :
    IntentStep c db id db' := by
  obtain ⟨rfl, -⟩ := updateIntents_ok h
  exact .update hf hc rfl

theorem intentStep (c : StoreCmd) (faults : List Bool) (db : Database) (id : String) :
    IntentStep c db id (c.apply faults db).2 := by
  have h₀ : IntentStep c db id db := .same rfl
  cases c with
  | startIngestion now document intentID claimedBy =>
    change IntentStep _ db id
      ((Store.startIngestion now document intentID claimedBy).run faults db).2
    obtain ⟨_, hr⟩ | ⟨-, hr⟩ :=
      @Store.startIngestion_cases db faults now document intentID claimedBy
    · rw [hr]
      exact h₀
    · rw [hr]
      exact .update (f := fun i => { i with status := .hashed, hash := some document.hash })
        (fun _ => rfl) (fun i hi => .linked hi) rfl
  | applyIndexed hash attempts now =>
    change IntentStep _ db id ((Store.applyIndexed hash attempts now).run faults db).2
    obtain ⟨_, hr⟩ | hr := @Store.applyIndexed_cases db faults hash attempts now
    · rw [hr]
      exact h₀
    · rw [hr]
      exact .same rfl
  | applyFailed hash attempts retryable maxAttempts now =>
    change IntentStep _ db id
      ((Store.applyFailed hash attempts retryable maxAttempts now).run faults db).2
    obtain ⟨_, hr⟩ | ⟨-, hr⟩ | ⟨-, -, -, hr⟩ | ⟨-, -, hr⟩ :=
      @Store.applyFailed_cases db faults hash attempts retryable maxAttempts now
    · rw [hr]
      exact h₀
    · rw [hr]
      exact h₀
    · rw [hr]
      exact .same rfl
    · rw [hr]
      exact .same rfl
  | ping =>
    change IntentStep _ db id (Store.ping.run faults db).2
    rw [Store.run_ping]
    exact h₀
  | createIntent i =>
    change IntentStep _ db id ((IntentStore.createIntent i).run faults db).2
    obtain ⟨_, hr⟩ | ⟨hnone, hr⟩ := IntentStore.createIntent_cases i faults db
    · rw [hr]
      exact h₀
    · rw [hr]
      by_cases hid : i.id = id
      · have hkey : key (IntentStore.newIntent i) = id := hid
        refine .created rfl hid (hid ▸ hnone) ?_
        rw [Table.find?_insertOrIgnore, if_pos ⟨hkey, hid ▸ hnone⟩]
      · have hkey : key (IntentStore.newIntent i) ≠ id := hid
        refine .same ?_
        rw [Table.find?_insertOrIgnore, if_neg fun h => hkey h.1]
  | updateIntentToUploaded => exact of_autocommit h₀ (.updateIntents fun i hi => .uploaded hi)
  | updateIntentToExpired => exact of_autocommit h₀ (.updateIntents fun i hi => .expired hi)
  | updateIntentToHashing => exact of_autocommit h₀ (.updateIntents fun i hi => .claimed hi)
  | markIntentFailed => exact of_autocommit h₀ (.updateIntents fun i hi => .givenUp hi)
  | releaseIntentClaim => exact of_autocommit h₀ (.updateIntents fun i hi => .released hi)
  | recoverStaleIntents => exact of_autocommit h₀ (.updateIntents fun i hi => .recovered hi)
  | claimOutboxMessage | markPublished | releaseClaim | markBlocked =>
    refine of_autocommit_map h₀ fun db' n h => ?_
    obtain ⟨rfl, -⟩ := updateOutbox_ok h
    exact .same rfl
  | recoverStaleOutbox =>
    refine of_autocommit h₀ fun db' n h => ?_
    obtain ⟨rfl, -⟩ := updateOutbox_ok h
    exact .same rfl
  | getIntent id => exact (run_quiet IntentStore.quiet_getIntent faults db).symm ▸ h₀
  | fetchCandidates limit => exact (run_quiet (quiet_query _) faults db).symm ▸ h₀
  | getDocumentByHash hash => exact (run_quiet (quiet_query _) faults db).symm ▸ h₀
  | getIntentsForHashing limit => exact (run_quiet (quiet_query _) faults db).symm ▸ h₀

/-- Only open rows are edited; one that waits is confirmed in time or expires. -/
theorem IntentEdit.was_open {i i' : Intent} (h : IntentEdit c i i') :
    i.status = .waiting ∧
      ((∃ now, c = .updateIntentToUploaded i.id now ∧ now < i.expiresAt ∧ i'.status = .uploaded) ∨
        i'.status = .expired) ∨ i.status = .uploaded ∨ i.status = .hashing := by
  cases h with
  | @uploaded i id uploadedAt h =>
    simp only [IntentStore.inTime, decide_eq_true_eq] at h
    exact .inl ⟨h.2.1, .inl ⟨uploadedAt, by rw [h.1], h.2.2, rfl⟩⟩
  | expired h =>
    simp only [IntentStore.late, decide_eq_true_eq] at h
    exact .inl ⟨h.2.1, .inr rfl⟩
  | claimed h =>
    simp only [IntentStore.claimable, decide_eq_true_eq] at h
    exact .inr (.inl h.2)
  | givenUp h | released h | linked h =>
    simp only [Store.heldBy, decide_eq_true_eq] at h
    exact .inr (.inr h.2.1)
  | recovered h =>
    simp only [IntentStore.stale, decide_eq_true_eq] at h
    exact .inr (.inr h.1)

/-- An edit that links no document leaves the hash alone. -/
theorem IntentEdit.hash_eq {i i' : Intent} (h : IntentEdit c i i') :
    i'.status = .hashed ∨ i'.hash = i.hash := by
  cases h with
  | linked => exact .inl rfl
  | uploaded | expired | claimed | givenUp | released | recovered => exact .inr rfl

end Intent

/-! ### Documents -/

theorem find?_of_finished {c : StoreCmd} {faults : List Bool} {db : Database} {hash : String}
    {d : Document} (hd : db.documents.find? hash = some d) (hs : d.status ≠ .processing) :
    (c.apply faults db).2.documents.find? hash = some d := by
  have hcurrent (hash' : String) (attempts : Int) : ¬ Store.current hash' attempts d :=
    fun h => hs (current_iff.1 h).2.2
  have heffect := StoreCmd.effect c faults db
  generalize (c.apply faults db).2 = db' at heffect
  cases heffect with
  | unchanged | outbox | intents => exact hd
  | indexed hash' attempts | exhausted hash' attempts =>
    simp [find?_finished, hd, hcurrent hash' attempts]
  | retried hash' attempts => simp [find?_retried, hd, hcurrent hash' attempts]
  | started now document => simp [Store.started, Table.find?_insertOrIgnore, hd]

end Center

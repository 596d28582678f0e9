import RagPipeline.Center.StoreCmd

/-!
# Document and outbox tables agree

Every attempt of a document has exactly one outbox row: the row `StartIngestion` queues with the
document and one more for every retry `ApplyFailed` counts.

## Main definitions

* `Agree`: the count law, one document at a time.
* `Evolves`: what a later database remembers of an earlier one.

## Main results

* `StoreCmd.Effect.agree`, `StoreCmd.Effect.evolves`: the step lemmas.
* `run_agree`, `run_evolves`: the same for whole runs.
-/
namespace Center

open Relational

/-- A document, if there is one, and the number of its outbox rows agree. -/
def AgreeRow (m : MaxAttempts) : Option Document → Nat → Prop
  | none, n => n = 0
  | some d, n => (n : Int) = d.retries + 1 ∧ 0 ≤ d.retries ∧ d.retries < m.val

def Agree (m : MaxAttempts) (db : Database) : Prop :=
  ∀ hash, AgreeRow m (db.documents.find? hash) (rowsOf db.outbox hash)

/-- A later database: documents stay, their retries only grow, a finished one is frozen, and
outbox rows keep their number and hash. -/
structure Evolves (db db' : Database) : Prop where
  documents : ∀ hash d, db.documents.find? hash = some d →
    ∃ d', db'.documents.find? hash = some d' ∧ d.retries ≤ d'.retries ∧
      (d.status ≠ .processing → d' = d)
  outbox : (db.outbox.rows.map fun m => (m.id, m.hash)) <+:
    (db'.outbox.rows.map fun m => (m.id, m.hash))

theorem Evolves.refl (db : Database) : Evolves db db :=
  ⟨fun _ d h => ⟨d, h, Int.le_refl _, fun _ => rfl⟩, List.prefix_refl _⟩

theorem Evolves.trans {a b c : Database} (h₁ : Evolves a b) (h₂ : Evolves b c) : Evolves a c := by
  refine ⟨fun hash d hd => ?_, h₁.outbox.trans h₂.outbox⟩
  obtain ⟨d₁, hd₁, hle₁, hfix₁⟩ := h₁.documents hash d hd
  obtain ⟨d₂, hd₂, hle₂, hfix₂⟩ := h₂.documents hash d₁ hd₁
  refine ⟨d₂, hd₂, Int.le_trans hle₁ hle₂, fun hs => ?_⟩
  have := hfix₁ hs
  subst this
  exact hfix₂ hs

/-- The calls of a run with one bound on attempts. -/
def StoreCmd.Within (m : MaxAttempts) : StoreCmd → Prop
  | .applyFailed _ _ _ maxAttempts _ => maxAttempts = m.val
  | _ => True

section Documents

variable {db : Database} {hash : String} {attempts : Int} {now : Time} {d : Document}

theorem current_iff : Store.current hash attempts d ↔
    d.hash = hash ∧ d.retries = attempts ∧ d.status = .processing := by
  simp [Store.current]

/-- The compare-and-swap matches a row exactly if the document is in progress at this attempt. -/
theorem affected_current : db.documents.affected (Store.current hash attempts) ≠ 0 ↔
    ∃ d, db.documents.find? hash = some d ∧ d.retries = attempts ∧ d.status = .processing := by
  rw [Table.affected_eq (k := hash) fun d h => (current_iff.1 h).1]
  constructor
  · intro h
    obtain ⟨d, hd, hc⟩ : ∃ d, db.documents.find? hash = some d ∧ Store.current hash attempts d := by
      simpa [Option.any_eq_true] using h
    exact ⟨d, hd, (current_iff.1 hc).2⟩
  · rintro ⟨d, hd, hc⟩
    have : Store.current hash attempts d := current_iff.2 ⟨Table.key_of_find? hd, hc⟩
    simp [hd, this]

theorem find?_finished {status : DocumentStatus} (k : String) :
    (Store.finished db.documents hash attempts status now).find? k =
      (db.documents.find? k).map fun d =>
        if Store.current hash attempts d then { d with status, updatedAt := now } else d :=
  Table.find?_update ..

theorem find?_retried (k : String) :
    (Store.retried db.documents hash attempts now).find? k =
      (db.documents.find? k).map fun d =>
        if Store.current hash attempts d then
          { d with retries := addInt attempts 1, updatedAt := now }
        else d :=
  Table.find?_update ..

end Documents

section Step

variable {m : MaxAttempts} {db db' : Database} {c : StoreCmd} {hash : String}

theorem Agree.some {d : Document} (h : Agree m db) (hd : db.documents.find? hash = some d) :
    (rowsOf db.outbox hash : Int) = d.retries + 1 ∧ 0 ≤ d.retries ∧ d.retries < m.val := by
  simpa [AgreeRow, hd] using h hash

theorem Agree.none (h : Agree m db) (hd : db.documents.find? hash = none) :
    rowsOf db.outbox hash = 0 := by
  simpa [AgreeRow, hd] using h hash

@[simp] theorem rowsOf_enqueued (t : AutoTable OutboxMessage) (k : String) (now : Time) :
    rowsOf (Database.enqueued t k now) hash = rowsOf t hash + if k = hash then 1 else 0 := by
  simp [rowsOf, Database.newMessage, List.countP_append, List.countP_cons]

theorem rowsOf_update (t : AutoTable OutboxMessage) (p : OutboxMessage → Bool)
    {f : OutboxMessage → OutboxMessage} (hf : ∀ m, (f m).id = m.id)
    (h : ∀ m, (f m).hash = m.hash) : rowsOf (t.update p f hf) hash = rowsOf t hash :=
  countP_rewrite fun r _ => by simp [h]

/-- Ending an attempt leaves retries and outbox rows alone. -/
theorem agree_finished {attempts : Int} {status : DocumentStatus} {now : Time} {k : String}
    (h : Agree m db) :
    Agree m { db with documents := Store.finished db.documents k attempts status now } := by
  intro hash
  simp only [find?_finished]
  cases hd : db.documents.find? hash with
  | none => exact h.none hd
  | some d =>
    have := h.some hd
    simp only [Option.map_some]
    split <;> exact this

theorem agree_started {now : Time} {document : Document} {intentID claimedBy : String}
    (h : Agree m db) : Agree m (Store.started db now document intentID claimedBy) := by
  intro hash
  simp only [Store.started, Table.find?_insertOrIgnore, key_document, Store.newDocument]
  by_cases hk : document.hash = hash
  · subst hk
    cases hd : db.documents.find? document.hash with
    | some d => simpa [hd, AgreeRow] using h.some hd
    | none =>
      have := m.pos
      simp [AgreeRow, h.none hd]
      omega
  · rw [if_neg fun h => hk h.1]
    split
    · exact h hash
    · simpa [hk] using h hash

theorem agree_retried {attempts : Int} {now : Time} {k : String} (h : Agree m db)
    (hn : db.documents.affected (Store.current k attempts) ≠ 0)
    (hlt : addInt attempts 1 < m.val) :
    Agree m { db with documents := Store.retried db.documents k attempts now
                      outbox := Database.enqueued db.outbox k now } := by
  obtain ⟨d, hd, rfl, hs⟩ := affected_current.1 hn
  have hagree := h.some hd
  have hint := m.int64
  have hadd : addInt d.retries 1 = d.retries + 1 := addInt_of_lt (by omega) (by omega)
  intro hash
  simp only [find?_retried, rowsOf_enqueued]
  by_cases hk : k = hash
  · subst hk
    have hc : Store.current k d.retries d := current_iff.2 ⟨Table.key_of_find? hd, rfl, hs⟩
    simp only [hd, Option.map_some, hc, if_true, AgreeRow]
    omega
  · cases hd' : db.documents.find? hash with
    | none => simpa [hk, AgreeRow] using h.none hd'
    | some d' =>
      have hc : ¬ Store.current k d.retries d' := fun hc =>
        hk ((current_iff.1 hc).1.symm.trans (Table.key_of_find? hd'))
      simpa [hc, hk, AgreeRow] using h.some hd'

/-- Every method of the store keeps the count law. -/
theorem StoreCmd.Effect.agree (he : Effect db c db') (hc : c.Within m) (h : Agree m db) :
    Agree m db' := by
  cases he with
  | unchanged => exact h
  | started => exact agree_started h
  | indexed => exact agree_finished h
  | exhausted => exact agree_finished h
  | retried hash attempts maxAttempts now hn hlt =>
    cases hc
    exact agree_retried h hn hlt
  | outbox _ p f hf hash =>
    intro k
    rw [rowsOf_update _ p hf hash]
    exact h k
  | intents => exact h

theorem prefix_update (t : AutoTable OutboxMessage) (p : OutboxMessage → Bool)
    {f : OutboxMessage → OutboxMessage} (hf : ∀ m, (f m).id = m.id)
    (h : ∀ m, (f m).hash = m.hash) :
    (t.update p f hf).rows.map (fun m => (m.id, m.hash)) =
      t.rows.map fun m => (m.id, m.hash) := by
  simp only [AutoTable.rows_update, rewrite, List.map_map]
  exact List.map_congr_left fun r _ => by by_cases hp : p r <;> simp [hp, hf, h]

/-- Every method of the store only moves the database forward. -/
theorem StoreCmd.Effect.evolves (he : Effect db c db') (hc : c.Within m) (h : Agree m db) :
    Evolves db db' := by
  have finished {k : String} {attempts : Int} {status : DocumentStatus} {now : Time} :
      Evolves db { db with documents := Store.finished db.documents k attempts status now } := by
    refine ⟨fun hash d hd => ?_, List.prefix_refl _⟩
    simp only [find?_finished, hd, Option.map_some]
    refine ⟨_, rfl, ?_, fun hs => ?_⟩
    · split <;> exact Int.le_refl _
    · exact if_neg fun hc => hs (current_iff.1 hc).2.2
  cases he with
  | unchanged => exact .refl db
  | started now document intentID claimedBy hn =>
    refine ⟨fun hash d hd => ⟨d, ?_, Int.le_refl _, fun _ => rfl⟩, ?_⟩
    · simp [Store.started, Table.find?_insertOrIgnore, hd]
    · unfold Store.started
      dsimp only
      split
      · exact List.prefix_refl _
      · simp
  | indexed => exact finished
  | exhausted => exact finished
  | retried k attempts maxAttempts now hn hlt =>
    cases hc
    refine ⟨fun hash d hd => ?_, by simp⟩
    obtain ⟨d₀, hd₀, rfl, -⟩ := affected_current.1 hn
    have hagree := h.some hd₀
    have hint := m.int64
    have hadd : addInt d₀.retries 1 = d₀.retries + 1 := addInt_of_lt (by omega) (by omega)
    simp only [find?_retried, hd, Option.map_some]
    refine ⟨_, rfl, ?_, fun hs => if_neg fun hc => hs (current_iff.1 hc).2.2⟩
    split
    case isTrue hc => have := (current_iff.1 hc).2.1; simp only; omega
    case isFalse => exact Int.le_refl _
  | outbox _ p f hf hash =>
    refine ⟨fun hash d hd => ⟨d, hd, Int.le_refl _, fun _ => rfl⟩, ?_⟩
    exact ⟨[], by rw [List.append_nil, prefix_update _ p hf hash]⟩
  | intents => exact ⟨fun hash d hd => ⟨d, hd, Int.le_refl _, fun _ => rfl⟩, List.prefix_refl _⟩

end Step

/-! ### Runs -/

/-- The caller is told that nothing was done: an error, `ErrLostClaim` among them, or
`FailedStale`. -/
def StoreCmd.Refused : (c : StoreCmd) → Except StoreError c.Result → Prop
  | .applyFailed .., r => (∃ e, r = .error e) ∨ r = Except.ok FailedOutcome.stale
  | _, r => ∃ e, r = .error e

theorem StoreCmd.unchanged_of_refused {c : StoreCmd} {faults : List Bool} {db : Database}
    (h : c.Refused (c.apply faults db).1) : (c.apply faults db).2 = db := by
  cases c with
  | applyFailed k attempts retryable maxAttempts now =>
    change (∃ e, ((Store.applyFailed k attempts retryable maxAttempts now).run faults db).1 =
      .error e) ∨ ((Store.applyFailed k attempts retryable maxAttempts now).run faults db).1 =
        .ok FailedOutcome.stale at h
    change ((Store.applyFailed k attempts retryable maxAttempts now).run faults db).2 = db
    have hr := @Store.applyFailed_cases db faults k attempts retryable
      maxAttempts now
    obtain ⟨_, hr⟩ | ⟨-, hr⟩ | ⟨-, -, -, hr⟩ | ⟨-, -, hr⟩ := hr
    · rw [hr]
    · rw [hr]
    · simp [hr] at h
    · simp [hr] at h
  | _ =>
    obtain ⟨_, h⟩ := h
    exact StoreCmd.unchanged_of_error h

/-- One call of a run: the method with its arguments, and which of its statements fail. -/
structure Call (m : MaxAttempts) where
  cmd : StoreCmd
  within : cmd.Within m
  faults : List Bool

namespace Call

variable {m : MaxAttempts}

def after (call : Call m) (db : Database) : Database := (call.cmd.apply call.faults db).2

def Refused (call : Call m) (db : Database) : Prop :=
  call.cmd.Refused (call.cmd.apply call.faults db).1

end Call

def run {m : MaxAttempts} : Database → List (Call m) → Database
  | db, [] => db
  | db, call :: calls => run (call.after db) calls

section Run

variable {m : MaxAttempts} {db : Database}

theorem run_agree (calls : List (Call m)) (h : Agree m db) : Agree m (run db calls) := by
  induction calls generalizing db with
  | nil => exact h
  | cons call calls ih => exact ih ((StoreCmd.effect _ _ _).agree call.within h)

theorem run_evolves (calls : List (Call m)) (h : Agree m db) : Evolves db (run db calls) := by
  induction calls generalizing db with
  | nil => exact .refl db
  | cons call calls ih =>
    have he := StoreCmd.effect call.cmd call.faults db
    exact (he.evolves call.within h).trans (ih (he.agree call.within h))

theorem agree_start (intents : Table Intent) : Agree m (.start intents) := fun _ => rfl

end Run

theorem tables_agree (m : MaxAttempts) (intents : Table Intent) (calls later : List (Call m)) :
    let db := run (.start intents) calls
    (∀ hash, (db.documents.find? hash).isSome ↔ 0 < rowsOf db.outbox hash) ∧
    (∀ hash d, db.documents.find? hash = some d →
      (rowsOf db.outbox hash : Int) = d.retries + 1 ∧ 0 ≤ d.retries ∧ d.retries < m.val ∧
      ∃ d', (run db later).documents.find? hash = some d' ∧ d.retries ≤ d'.retries) ∧
    ∀ call : Call m, call.Refused db → call.after db = db := by
  intro db
  have hA : Agree m db := run_agree calls (agree_start intents)
  refine ⟨fun hash => ?_, fun hash d hd => ?_, fun call h => StoreCmd.unchanged_of_refused h⟩
  · cases hd : db.documents.find? hash with
    | none => simp [hA.none hd]
    | some d =>
      have := hA.some hd
      simp
      omega
  · obtain ⟨h₁, h₂, h₃⟩ := hA.some hd
    obtain ⟨d', hd', hle, -⟩ := (run_evolves later hA).documents hash d hd
    exact ⟨h₁, h₂, h₃, d', hd', hle⟩

/-- One intent, claimed by worker `w`. -/
def oneIntent : Table Intent :=
  ⟨[⟨"i", "a.txt", some "i", none, 0, 10, some 1, .hashing, some "w", some 2, 0⟩], by decide⟩

def threeAttempts : MaxAttempts := ⟨3, by decide, by decide⟩

/-- An upload is recorded, and its first attempt fails and is retried. -/
def firstRetry : List (Call threeAttempts) :=
  [⟨.startIngestion 3 ⟨"h", "h/h/h", "a.txt", 3, .processing, 0, 0, 0⟩ "i" "w", trivial, []⟩,
    ⟨.applyFailed "h" 0 true 3 4, rfl, []⟩]

theorem tables_agree_firstRetry :
    ((run (.start oneIntent) firstRetry).documents.find? "h").map Document.retries = some 1 ∧
      rowsOf (run (.start oneIntent) firstRetry).outbox "h" = 2 := by
  obtain ⟨d, hd⟩ : ∃ d, (run (.start oneIntent) firstRetry).documents.find? "h" = some d ∧
      d.retries = 1 := ⟨_, rfl, by decide⟩
  obtain ⟨h, -⟩ := (tables_agree threeAttempts oneIntent firstRetry []).2.1 "h" d hd.1
  refine ⟨by rw [hd.1]; simp [hd.2], ?_⟩
  rw [hd.2] at h
  exact_mod_cast h

end Center

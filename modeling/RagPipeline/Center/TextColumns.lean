import RagPipeline.Center.Confirm
import RagPipeline.Center.Lifecycle
import RagPipeline.Wire.SqliteTime

/-!
# Time columns are text

SQLite compares the texts of the time columns; a poll compares the instants that the driver reads
back from them. The conditions of the statements are written here on the texts, as SQLite has them.

## Main definitions

* `StoredIntent`, `StoredOutbox`: the columns that the conditions look at.
* `SetsIntents`, `SetsOutbox`: what a statement with such a condition comes to.
* `PollAnswers`: what a poll at one moment answers.

## Main results

* `textTimes_compare`: the texts are in the order of the instants, so statements and polls agree,
  and the recovery demotes the claims made before its cutoff.
-/
namespace Center

open Interact Method Relational Service Wire

/-- A `TIMESTAMP` column, in bytes. -/
def columnText (t : Time) : List Nat := textBytes (sqliteTime t)

def OutboxStatus.text : OutboxStatus → String
  | pending => "PENDING"
  | claimed => "CLAIMED"
  | published => "PUBLISHED"
  | blocked => "BLOCKED"

structure StoredIntent where
  uuid : String
  status : String
  expiresAt : List Nat
  claimedAt : Option (List Nat)

structure StoredOutbox where
  id : Nat
  status : String
  claimedAt : Option (List Nat)

def Intent.stored (i : Intent) : StoredIntent :=
  ⟨i.id, i.status.text, columnText i.expiresAt, i.claimedAt.map columnText⟩

def OutboxMessage.stored (m : OutboxMessage) : StoredOutbox :=
  ⟨m.id, m.status.text, m.claimedAt.map columnText⟩

namespace Where

/-- `uuid = ? AND status = 'WAITING' AND expires_at > ?`. -/
def updateIntentToUploaded (id : String) (uploadedAt : Time) (r : StoredIntent) : Bool :=
  r.uuid = id ∧ r.status = "WAITING" ∧ columnText uploadedAt < r.expiresAt

/-- `uuid = ? AND status = 'WAITING' AND expires_at <= ?`; texts are totally ordered. -/
def updateIntentToExpired (id : String) (now : Time) (r : StoredIntent) : Bool :=
  r.uuid = id ∧ r.status = "WAITING" ∧ ¬ columnText now < r.expiresAt

/-- `status = 'HASHING' AND claimed_at < ?`; a comparison with NULL selects nothing. -/
def recoverStaleIntents (cutoff : Time) (r : StoredIntent) : Bool :=
  r.status = "HASHING" ∧ r.claimedAt.any (· < columnText cutoff)

/-- `status = 'CLAIMED' AND claimed_at < ?`. -/
def recoverStaleOutbox (cutoff : Time) (r : StoredOutbox) : Bool :=
  r.status = "CLAIMED" ∧ r.claimedAt.any (· < columnText cutoff)

end Where

/-- One request over the database as it is, at one reading of the clock. -/
def momentContract (now : Time) : Contract UploadSig Database where
  inv _ := True
  rely db db' := db' = db
  guard _ _ := True
  exec
    | .store c => fun db r db' => (r, db') = c.apply [] db
    | .now => fun db t db' => t = now ∧ db' = db
    | .presignedUploadURL .. => fun db _ db' => db' = db
    | .uuid => fun db _ db' => db' = db
    | .respond _ => fun db _ db' => db' = db

def PollAnswers (db : Database) (now : Time) (id status : String) : Prop :=
  Ends (momentContract now) (getUploadStatus id) (fun r _ _ => ∃ i, r = .ok (i, status)) () db

section Rows

variable {i : Intent} {m : OutboxMessage} {id : String} {now cutoff : Time}

theorem intentText_eq_iff {s t : IntentState} : s.text = t.text ↔ s = t := by
  cases s <;> cases t <;> decide

theorem where_updateIntentToUploaded (hi : FourDigits i.expiresAt) (hn : FourDigits now) :
    Where.updateIntentToUploaded id now i.stored = IntentStore.inTime id now i := by
  have hstatus : i.status.text = "WAITING" ↔ i.status = .waiting :=
    intentText_eq_iff (t := .waiting)
  simp only [Where.updateIntentToUploaded, Intent.stored, IntentStore.inTime, hstatus, columnText,
    sqliteTime_lt hn hi]

theorem where_updateIntentToExpired (hi : FourDigits i.expiresAt) (hn : FourDigits now) :
    Where.updateIntentToExpired id now i.stored = IntentStore.late id now i := by
  have hstatus : i.status.text = "WAITING" ↔ i.status = .waiting :=
    intentText_eq_iff (t := .waiting)
  have hle : ¬ columnText now < columnText i.expiresAt ↔ i.expiresAt ≤ now := by
    rw [columnText, columnText, sqliteTime_lt hn hi, Int.not_lt]
  simp only [Where.updateIntentToExpired, Intent.stored, IntentStore.late, hstatus, hle]

theorem where_recoverStaleIntents (hc : ∀ t, i.claimedAt = some t → FourDigits t)
    (hn : FourDigits cutoff) :
    Where.recoverStaleIntents cutoff i.stored = IntentStore.stale cutoff i := by
  have hstatus : i.status.text = "HASHING" ↔ i.status = .hashing :=
    intentText_eq_iff (t := .hashing)
  cases hclaimed : i.claimedAt with
  | none => simp [Where.recoverStaleIntents, Intent.stored, IntentStore.stale, hclaimed]
  | some t =>
    simp only [Where.recoverStaleIntents, Intent.stored, IntentStore.stale, hclaimed, hstatus,
      Option.map_some, Option.any_some, columnText, sqliteTime_lt (hc t hclaimed) hn]

theorem where_recoverStaleOutbox (hc : ∀ t, m.claimedAt = some t → FourDigits t)
    (hn : FourDigits cutoff) :
    Where.recoverStaleOutbox cutoff m.stored =
      decide (m.status = .claimed ∧ m.claimedAt.any (· < cutoff)) := by
  have hstatus : m.status.text = "CLAIMED" ↔ m.status = .claimed := by
    cases m.status <;> decide
  cases hclaimed : m.claimedAt with
  | none => simp [Where.recoverStaleOutbox, OutboxMessage.stored, hclaimed]
  | some t =>
    simp only [Where.recoverStaleOutbox, OutboxMessage.stored, hclaimed, hstatus,
      Option.map_some, Option.any_some, columnText, sqliteTime_lt (hc t hclaimed) hn]

end Rows

/-! ### The statements -/

/-- The times of the columns that are compared have years of four digits. -/
structure FourDigitTimes (db : Database) : Prop where
  expiresAt : ∀ i ∈ db.intents.rows, FourDigits i.expiresAt
  claimedAt : ∀ i ∈ db.intents.rows, ∀ t, i.claimedAt = some t → FourDigits t
  outbox : ∀ m ∈ db.outbox.rows, ∀ t, m.claimedAt = some t → FourDigits t

/-- `UPDATE upload_intent SET f WHERE p`: every row that `p` selects is set, no other one, and the
reply is their number. With a fault it may fail instead, and changes nothing. -/
def SetsIntents (p : StoredIntent → Bool) (f : Intent → Intent) (faults : List Bool)
    (db : Database) (r : Except StoreError Nat × Database) : Prop :=
  (faults ≠ [] ∧ ∃ e, r = (.error e, db)) ∨
    r.1 = .ok (db.intents.rows.countP fun i => p i.stored) ∧
      r.2.intents.rows = rewrite (fun i => p i.stored) f db.intents.rows ∧
      r.2.documents = db.documents ∧ r.2.outbox = db.outbox

/-- `UPDATE outbox SET f WHERE p`. -/
def SetsOutbox (p : StoredOutbox → Bool) (f : OutboxMessage → OutboxMessage) (faults : List Bool)
    (db : Database) (r : Except StoreError Nat × Database) : Prop :=
  (faults ≠ [] ∧ ∃ e, r = (.error e, db)) ∨
    r.1 = .ok (db.outbox.rows.countP fun m => p m.stored) ∧
      r.2.outbox.rows = rewrite (fun m => p m.stored) f db.outbox.rows ∧
      r.2.documents = db.documents ∧ r.2.intents = db.intents

section Statements

variable {db : Database} {faults : List Bool} {e : StoreError} {id : String} {now cutoff : Time}
  {maxRetries : Int}

theorem setsIntents {p : StoredIntent → Bool} {q : Intent → Bool} {f : Intent → Intent}
    {hf : ∀ i, (f i).id = i.id} (hpq : ∀ i ∈ db.intents.rows, p i.stored = q i) :
    SetsIntents p f faults db
      ((Tx.autocommit e (Database.updateIntents q f hf) : Store Nat).run faults db) := by
  have hcount : db.intents.affected q = db.intents.rows.countP fun i => p i.stored :=
    List.countP_congr fun i hi => by rw [hpq i hi]
  have hrows : rewrite q f db.intents.rows = rewrite (fun i => p i.stored) f db.intents.rows :=
    rewrite_congr fun i hi => (hpq i hi).symm
  obtain ⟨e', hr⟩ | hr := IntentStore.run_updateIntents e q f hf faults db
  · refine .inl ⟨?_, e', hr⟩
    rintro rfl
    cases (Tx.run_autocommit_nil rfl).symm.trans hr
  · rw [hr]
    exact .inr ⟨congrArg _ hcount, hrows, rfl, rfl⟩

theorem setsOutbox {p : StoredOutbox → Bool} {q : OutboxMessage → Bool}
    {f : OutboxMessage → OutboxMessage} {hf : ∀ m, (f m).id = m.id}
    (hpq : ∀ m ∈ db.outbox.rows, p m.stored = q m) :
    SetsOutbox p f faults db
      ((Tx.autocommit e (Database.updateOutbox q f hf) : Store Nat).run faults db) := by
  have hcount : db.outbox.affected q = db.outbox.rows.countP fun m => p m.stored :=
    List.countP_congr fun m hm => by rw [hpq m hm]
  have hrows : rewrite q f db.outbox.rows = rewrite (fun m => p m.stored) f db.outbox.rows :=
    rewrite_congr fun m hm => (hpq m hm).symm
  obtain ⟨e', hr⟩ | ⟨db', n, hs, hr⟩ :=
    Tx.run_autocommit e (Database.updateOutbox q f hf) faults db
  · refine .inl ⟨?_, e', hr⟩
    rintro rfl
    cases (Tx.run_autocommit_nil rfl).symm.trans hr
  · obtain ⟨rfl, rfl⟩ := Database.updateOutbox_ok hs
    rw [hr]
    exact .inr ⟨congrArg _ hcount, hrows, rfl, rfl⟩

theorem sets_updateIntentToUploaded (h : FourDigitTimes db) (hn : FourDigits now) :
    SetsIntents (Where.updateIntentToUploaded id now) (IntentStore.uploaded now) faults db
      ((StoreCmd.updateIntentToUploaded id now).apply faults db) :=
  setsIntents fun i hi => where_updateIntentToUploaded (h.expiresAt i hi) hn

theorem sets_updateIntentToExpired (h : FourDigitTimes db) (hn : FourDigits now) :
    SetsIntents (Where.updateIntentToExpired id now) IntentStore.expired faults db
      ((StoreCmd.updateIntentToExpired id now).apply faults db) :=
  setsIntents fun i hi => where_updateIntentToExpired (h.expiresAt i hi) hn

theorem sets_recoverStaleIntents (h : FourDigitTimes db) (hc : FourDigits cutoff) :
    SetsIntents (Where.recoverStaleIntents cutoff) (IntentStore.released maxRetries) faults db
      ((StoreCmd.recoverStaleIntents cutoff maxRetries).apply faults db) :=
  setsIntents fun i hi => where_recoverStaleIntents (h.claimedAt i hi) hc

theorem sets_recoverStaleOutbox (h : FourDigitTimes db) (hc : FourDigits cutoff) :
    SetsOutbox (Where.recoverStaleOutbox cutoff) (OutboxStore.released maxRetries) faults db
      ((StoreCmd.recoverStaleOutbox cutoff maxRetries).apply faults db) :=
  setsOutbox fun m hm => where_recoverStaleOutbox (h.outbox m hm) hc

end Statements

/-! ### The poll -/

section Poll

variable {db : Database} {i : Intent} {now : Time} {status text : String}

theorem moment_total (c : UploadCmd) (db : Database) :
    ∃ r db', (momentContract now).exec c db r db' := by
  cases c with
  | store c => exact ⟨_, _, rfl⟩
  | now => exact ⟨now, db, rfl, rfl⟩
  | presignedUploadURL => exact ⟨none, db, rfl⟩
  | uuid => exact ⟨"", db, rfl⟩
  | respond => exact ⟨(), db, rfl⟩

theorem getUploadStatus_ends (hi : db.intents.find? i.id = some i)
    (ht : statusAt now i = .ok (.inl text)) :
    Ends (momentContract now) (getUploadStatus i.id) (fun r _ _ => r = .ok (i, text)) () db := by
  refine Prog.Ends.call (S := UploadSig) (c := .store (.getIntent i.id)) trivial ?_
  intro r db₁ hx
  change (r, db₁) = (StoreCmd.getIntent i.id).apply [] db at hx
  rw [apply_getIntent, hi] at hx
  cases hx
  rintro _ rfl
  refine Prog.Ends.call (S := UploadSig) (c := .now) trivial ?_
  rintro t db₁ ⟨hnow, hdb⟩ db₂ hrest
  change Ends (momentContract now) (statusOf t i >>= fun status => pure (i, status))
    (fun r _ _ => r = .ok (i, text)) () db₂
  rw [hnow, statusOf, ht]
  exact ends_pure rfl

/-- A poll of an intent without a document answers what `statusAt` says. -/
theorem pollAnswers_iff (hi : db.intents.find? i.id = some i)
    (ht : statusAt now i = .ok (.inl text)) : PollAnswers db now i.id status ↔ status = text := by
  have hends := getUploadStatus_ends hi ht
  constructor
  · intro h
    obtain ⟨r, _, ⟨_, hr⟩, hr'⟩ := Prog.ends_meet moment_total (fun _ => rfl) h hends
    cases hr.symm.trans hr'
    rfl
  · rintro rfl
    exact ends_mono hends fun _ _ _ h => ⟨i, h⟩

/-- What a poll answers of an intent that waits. -/
theorem statusAt_waiting (hs : i.status = .waiting) (hh : i.hash = none) :
    statusAt now i = .ok (.inl (if now < i.expiresAt then "WAITING" else "EXPIRED")) := by
  unfold statusAt
  by_cases hnow : now < i.expiresAt
  · simp [hs, hh, hnow, IntentState.text]
  · simp [hs, hnow, IntentState.text]

end Poll

/-! ### What happens to a row -/

/-- A claim made before the cutoff. -/
def StaleClaim {σ : Type} (claimed status : σ) (claimedAt : Option Time) (cutoff : Time) : Prop :=
  status = claimed ∧ ∃ t, claimedAt = some t ∧ t < cutoff

section OneRow

variable {db : Database} {i : Intent} {m : OutboxMessage} {now cutoff : Time} {maxRetries : Int}

theorem SetsIntents.row {p : StoredIntent → Bool} {f : Intent → Intent}
    {r : Except StoreError Nat × Database} (h : SetsIntents p f [] db r)
    (hi : i ∈ db.intents.rows) : (if p i.stored then f i else i) ∈ r.2.intents.rows := by
  obtain ⟨hne, -⟩ | ⟨-, hrows, -⟩ := h
  · cases hne rfl
  · rw [hrows]
    exact mem_rewrite.2 ⟨i, hi, rfl⟩

theorem SetsOutbox.row {p : StoredOutbox → Bool} {f : OutboxMessage → OutboxMessage}
    {r : Except StoreError Nat × Database} (h : SetsOutbox p f [] db r)
    (hm : m ∈ db.outbox.rows) : (if p m.stored then f m else m) ∈ r.2.outbox.rows := by
  obtain ⟨hne, -⟩ | ⟨-, hrows, -⟩ := h
  · cases hne rfl
  · rw [hrows]
    exact mem_rewrite.2 ⟨m, hm, rfl⟩

theorem where_recoverStaleIntents_iff (hc : ∀ t, i.claimedAt = some t → FourDigits t)
    (hn : FourDigits cutoff) : Where.recoverStaleIntents cutoff i.stored ↔
      StaleClaim .hashing i.status i.claimedAt cutoff := by
  rw [where_recoverStaleIntents hc hn]
  simp [IntentStore.stale, StaleClaim, Option.any_eq_true]

theorem where_recoverStaleOutbox_iff (hc : ∀ t, m.claimedAt = some t → FourDigits t)
    (hn : FourDigits cutoff) : Where.recoverStaleOutbox cutoff m.stored ↔
      StaleClaim .claimed m.status m.claimedAt cutoff := by
  rw [where_recoverStaleOutbox hc hn]
  simp [StaleClaim, Option.any_eq_true]

/-- The sweep demotes a claim made before its cutoff, and leaves any other row as it is. -/
theorem recoverStaleIntents_row (h : FourDigitTimes db) (hc : FourDigits cutoff)
    (hi : i ∈ db.intents.rows) :
    ∃ i' ∈ ((StoreCmd.recoverStaleIntents cutoff maxRetries).apply [] db).2.intents.rows,
      i'.id = i.id ∧
      (StaleClaim .hashing i.status i.claimedAt cutoff →
        i' = IntentStore.released maxRetries i ∧ i'.status ≠ .hashing) ∧
      (¬ StaleClaim .hashing i.status i.claimedAt cutoff → i' = i) := by
  refine ⟨_, (sets_recoverStaleIntents h hc).row hi, ?_⟩
  rw [← where_recoverStaleIntents_iff (h.claimedAt i hi) hc]
  by_cases hs : Where.recoverStaleIntents cutoff i.stored
  · rw [if_pos hs]
    refine ⟨rfl, fun _ => ⟨rfl, ?_⟩, fun hn => absurd hs hn⟩
    simp only [IntentStore.released]
    split <;> simp
  · rw [if_neg hs]
    exact ⟨rfl, fun hn => absurd hn hs, fun _ => rfl⟩

theorem recoverStaleOutbox_row (h : FourDigitTimes db) (hc : FourDigits cutoff)
    (hm : m ∈ db.outbox.rows) :
    ∃ m' ∈ ((StoreCmd.recoverStaleOutbox cutoff maxRetries).apply [] db).2.outbox.rows,
      m'.id = m.id ∧
      (StaleClaim .claimed m.status m.claimedAt cutoff →
        m' = OutboxStore.released maxRetries m ∧ m'.status ≠ .claimed) ∧
      (¬ StaleClaim .claimed m.status m.claimedAt cutoff → m' = m) := by
  refine ⟨_, (sets_recoverStaleOutbox h hc).row hm, ?_⟩
  rw [← where_recoverStaleOutbox_iff (h.outbox m hm) hc]
  by_cases hs : Where.recoverStaleOutbox cutoff m.stored
  · rw [if_pos hs]
    refine ⟨rfl, fun _ => ⟨rfl, ?_⟩, fun hn => absurd hs hn⟩
    simp only [OutboxStore.released]
    split <;> simp
  · rw [if_neg hs]
    exact ⟨rfl, fun hn => absurd hn hs, fun _ => rfl⟩

theorem find?_updateIntents {q : Intent → Bool} {f : Intent → Intent} {hf : ∀ i, (f i).id = i.id}
    {e : StoreError} (hi : db.intents.find? i.id = some i) :
    ((Tx.autocommit e (Database.updateIntents q f hf) : Store Nat).run [] db).2.intents.find? i.id =
      some (if q i then f i else i) := by
  rw [Tx.run_autocommit_nil rfl]
  refine (Table.find?_update db.intents q f hf i.id).trans ?_
  rw [hi, Option.map_some]

/-- An intent that waits, in any run: its condition, its row and its poll agree. -/
theorem waiting_row {p : Pools} (hrun : InRun p db) (hi : i ∈ db.intents.rows)
    (hs : i.status = .waiting) (hexpires : FourDigits i.expiresAt) (hnow : FourDigits now) :
    (Where.updateIntentToUploaded i.id now i.stored ↔ PollAnswers db now i.id "WAITING") ∧
    (Where.updateIntentToExpired i.id now i.stored ↔ PollAnswers db now i.id "EXPIRED") ∧
    (((StoreCmd.updateIntentToUploaded i.id now).apply [] db).2.intents.find? i.id =
      some (IntentStore.uploaded now i) ↔ PollAnswers db now i.id "WAITING") ∧
    (((StoreCmd.updateIntentToExpired i.id now).apply [] db).2.intents.find? i.id =
      some (IntentStore.expired i) ↔ PollAnswers db now i.id "EXPIRED") := by
  have hfind : db.intents.find? i.id = some i := Table.find?_eq_some_iff.2 ⟨hi, rfl⟩
  have hnone : i.hash = none := by
    have := ((rowsOk_of_run hrun).intents i hi).hash_iff
    simpa [hs] using this
  have hpoll (status : String) : PollAnswers db now i.id status ↔
      status = if now < i.expiresAt then "WAITING" else "EXPIRED" :=
    pollAnswers_iff hfind (statusAt_waiting hs hnone)
  have huploaded : ((StoreCmd.updateIntentToUploaded i.id now).apply [] db).2.intents.find? i.id =
      some (if IntentStore.inTime i.id now i then IntentStore.uploaded now i else i) :=
    find?_updateIntents hfind
  have hexpired : ((StoreCmd.updateIntentToExpired i.id now).apply [] db).2.intents.find? i.id =
      some (if IntentStore.late i.id now i then IntentStore.expired i else i) :=
    find?_updateIntents hfind
  have hne : i ≠ IntentStore.uploaded now i := by
    intro he
    cases hs.symm.trans (congrArg Intent.status he)
  have hne' : i ≠ IntentStore.expired i := by
    intro he
    cases hs.symm.trans (congrArg Intent.status he)
  rw [where_updateIntentToUploaded hexpires hnow, where_updateIntentToExpired hexpires hnow,
    hpoll, hpoll, huploaded, hexpired]
  by_cases hin : now < i.expiresAt
  · simp [IntentStore.inTime, IntentStore.late, hs, hin, hne']
  · simp [IntentStore.inTime, IntentStore.late, hs, hin, hne, Int.not_lt.1 hin]

end OneRow

/-- Texts of instants with years of four digits are in the order of the instants. So the
statements, which compare the texts, are the methods of the stores, which compare the instants; in
every run the gate and a poll at the same moment agree on an intent that waits; and the recovery
demotes the claims made before its cutoff and no others. -/
theorem textTimes_compare :
    (∀ a b : Time, FourDigits a → FourDigits b →
      (columnText a < columnText b ↔ a < b) ∧ (columnText a = columnText b ↔ a = b)) ∧
    (∀ (p : Pools) (db : Database), InRun p db → ∀ i ∈ db.intents.rows, i.status = .waiting →
      ∀ now, FourDigits i.expiresAt → FourDigits now →
        (Where.updateIntentToUploaded i.id now i.stored ↔ PollAnswers db now i.id "WAITING") ∧
        (Where.updateIntentToExpired i.id now i.stored ↔ PollAnswers db now i.id "EXPIRED") ∧
        (((StoreCmd.updateIntentToUploaded i.id now).apply [] db).2.intents.find? i.id =
          some (IntentStore.uploaded now i) ↔ PollAnswers db now i.id "WAITING") ∧
        (((StoreCmd.updateIntentToExpired i.id now).apply [] db).2.intents.find? i.id =
          some (IntentStore.expired i) ↔ PollAnswers db now i.id "EXPIRED")) ∧
    (∀ db, FourDigitTimes db → ∀ (faults : List Bool) (id : String) (time : Time)
      (maxRetries : Int), FourDigits time →
        SetsIntents (Where.updateIntentToUploaded id time) (IntentStore.uploaded time) faults db
          ((StoreCmd.updateIntentToUploaded id time).apply faults db) ∧
        SetsIntents (Where.updateIntentToExpired id time) IntentStore.expired faults db
          ((StoreCmd.updateIntentToExpired id time).apply faults db) ∧
        SetsIntents (Where.recoverStaleIntents time) (IntentStore.released maxRetries) faults db
          ((StoreCmd.recoverStaleIntents time maxRetries).apply faults db) ∧
        SetsOutbox (Where.recoverStaleOutbox time) (OutboxStore.released maxRetries) faults db
          ((StoreCmd.recoverStaleOutbox time maxRetries).apply faults db)) ∧
    (∀ db, FourDigitTimes db → ∀ (cutoff : Time) (maxRetries : Int), FourDigits cutoff →
      (∀ i ∈ db.intents.rows,
        ∃ i' ∈ ((StoreCmd.recoverStaleIntents cutoff maxRetries).apply [] db).2.intents.rows,
          i'.id = i.id ∧
          (StaleClaim .hashing i.status i.claimedAt cutoff →
            i' = IntentStore.released maxRetries i ∧ i'.status ≠ .hashing) ∧
          (¬ StaleClaim .hashing i.status i.claimedAt cutoff → i' = i)) ∧
      (∀ m ∈ db.outbox.rows,
        ∃ m' ∈ ((StoreCmd.recoverStaleOutbox cutoff maxRetries).apply [] db).2.outbox.rows,
          m'.id = m.id ∧
          (StaleClaim .claimed m.status m.claimedAt cutoff →
            m' = OutboxStore.released maxRetries m ∧ m'.status ≠ .claimed) ∧
          (¬ StaleClaim .claimed m.status m.claimedAt cutoff → m' = m))) := by
  refine ⟨fun a b ha hb => ⟨sqliteTime_lt ha hb, sqliteTime_inj ha hb⟩, ?waiting, ?sets, ?rows⟩
  case waiting => exact fun _ _ hrun _ hi hs _ hexpires hnow => waiting_row hrun hi hs hexpires hnow
  case sets =>
    intro db hdb faults id time maxRetries htime
    exact ⟨sets_updateIntentToUploaded hdb htime, sets_updateIntentToExpired hdb htime,
      sets_recoverStaleIntents hdb htime, sets_recoverStaleOutbox hdb htime⟩
  case rows =>
    intro db hdb cutoff maxRetries hcutoff
    exact ⟨fun i hi => recoverStaleIntents_row hdb hcutoff hi,
      fun m hm => recoverStaleOutbox_row hdb hcutoff hm⟩

def waitingDb : Database := afterAll [.createIntent (UploadWorld.intentAt 0 "u" "a.txt")]

/-- Intent `v` and the message of document `h` are claimed. -/
def claimedDb : Database :=
  afterAll (secondClaim ++ [.claimOutboxMessage 7 "p" 1,
    .createIntent (UploadWorld.intentAt 8 "v" "b.txt"), .updateIntentToUploaded "v" 9,
    .updateIntentToHashing "v" "w" 10])

theorem fourDigitTimes_claimedDb : FourDigitTimes claimedDb where
  expiresAt := by decide +kernel
  claimedAt := by
    have h : ∀ i ∈ claimedDb.intents.rows, i.claimedAt.all (FourDigits ·) := by decide +kernel
    intro i hi t ht
    simpa [ht] using h i hi
  outbox := by
    have h : ∀ m ∈ claimedDb.outbox.rows, m.claimedAt.all (FourDigits ·) := by decide +kernel
    intro m hm t ht
    simpa [ht] using h m hm

/-- The moment an intent created at 0 expires: a poll answers EXPIRED and the statement for expired
intents takes it. And the sweeps at 11 take the claims made at 10 and 7. -/
theorem textTimes_compare_expiry :
    (PollAnswers waitingDb 7200000000000 "u" "EXPIRED" ∧
      ((StoreCmd.updateIntentToExpired "u" 7200000000000).apply [] waitingDb).2.intents.find? "u" =
        some (IntentStore.expired (UploadWorld.intentAt 0 "u" "a.txt"))) ∧
      (∃ i ∈ claimedDb.intents.rows, i.status = .hashing ∧ IntentStore.released 3 i ∈
        ((StoreCmd.recoverStaleIntents 11 3).apply [] claimedDb).2.intents.rows) ∧
      ∃ m ∈ claimedDb.outbox.rows, m.status = .claimed ∧ OutboxStore.released 3 m ∈
        ((StoreCmd.recoverStaleOutbox 11 3).apply [] claimedDb).2.outbox.rows := by
  refine ⟨?expiry, ?sweeps⟩
  case expiry =>
    have hrun : InRun samplePools waitingDb :=
      InRun.step .start (.createIntent (UploadWorld.intentAt 0 "u" "a.txt"))
        ⟨0, "u", "a.txt", rfl⟩ []
    have hi : UploadWorld.intentAt 0 "u" "a.txt" ∈ waitingDb.intents.rows := by decide +kernel
    obtain ⟨-, hexpired, -, hrow⟩ := textTimes_compare.2.1 samplePools _ hrun _ hi rfl
      7200000000000 (by decide +kernel) (by decide +kernel)
    have hpoll := hexpired.1 (by decide +kernel)
    exact ⟨hpoll, hrow.2 hpoll⟩
  case sweeps =>
    obtain ⟨hintents, houtbox⟩ := textTimes_compare.2.2.2 claimedDb fourDigitTimes_claimedDb 11 3
      (by decide +kernel)
    obtain ⟨i, hi, hs, hc⟩ : ∃ i ∈ claimedDb.intents.rows,
        i.status = .hashing ∧ i.claimedAt = some 10 := by decide +kernel
    obtain ⟨m, hm, hs', hc'⟩ : ∃ m ∈ claimedDb.outbox.rows,
        m.status = .claimed ∧ m.claimedAt = some 7 := by decide +kernel
    obtain ⟨i', hi', -, hstale, -⟩ := hintents i hi
    obtain ⟨m', hm', -, hstale', -⟩ := houtbox m hm
    have he := (hstale ⟨hs, 10, hc, by decide⟩).1
    have he' := (hstale' ⟨hs', 7, hc', by decide⟩).1
    exact ⟨⟨i, hi, hs, he ▸ hi'⟩, m, hm, hs', he' ▸ hm'⟩

end Center

import RagPipeline.Center.StoreCmd
import RagPipeline.Center.TablesAgree
import RagPipeline.Center.UploadSystem

/-!
# The life of an intent and of an outbox row

Every method of the store moves a row from one status to another or leaves it alone. A claimed row
says who claimed it and when, every other open row says nothing of the kind, and a row that is
done does not move.

## Main definitions

* `IntentMove`, `OutboxMove`: what can happen to a row.
* `IntentRow`, `OutboxRow`: what holds of a row.
* `InRun`: the databases that methods with fixed settings can reach.

## Main results

* `rowStep`: one method call makes such moves only.
* `claims_found_again`: what holds of every row in every run.
-/
namespace Center

open Relational Database

/-- The retry limits of the two worker pools, as the configuration check lets them through. -/
structure Pools where
  hashing : Int
  outbox : Int
  hashing_pos : 1 ≤ hashing
  outbox_pos : 1 ≤ outbox

def IntentState.terminal : IntentState → Bool
  | hashed | expired | failed => true
  | _ => false

def OutboxStatus.terminal : OutboxStatus → Bool
  | published | blocked => true
  | _ => false

/-! ### Moves -/

inductive IntentMove (maxRetries : Int) (documents : Table Document) : Intent → Intent → Prop where
  | uploaded {i : Intent} (uploadedAt : Time) (h : i.status = .waiting) :
    IntentMove maxRetries documents i (IntentStore.uploaded uploadedAt i)
  | expired {i : Intent} (h : i.status = .waiting) :
    IntentMove maxRetries documents i (IntentStore.expired i)
  | claimed {i : Intent} (claimedBy : String) (claimedAt : Time) (h : i.status = .uploaded) :
    IntentMove maxRetries documents i (IntentStore.claimed claimedBy claimedAt i)
  | givenUp {i : Intent} (h : i.status = .hashing) :
    IntentMove maxRetries documents i (IntentStore.givenUp i)
  | released {i : Intent} (h : i.status = .hashing) :
    IntentMove maxRetries documents i (IntentStore.released maxRetries i)
  | linked {i : Intent} (hash : String) (h : i.status = .hashing)
      (hd : (documents.find? hash).isSome) :
    IntentMove maxRetries documents i { i with status := .hashed, hash := some hash }

inductive OutboxMove (maxRetries : Int) : OutboxMessage → OutboxMessage → Prop where
  | claimed {m : OutboxMessage} (claimedBy : String) (now : Time) (h : m.status = .pending) :
    OutboxMove maxRetries m
      { m with status := .claimed, claimedBy := some claimedBy, claimedAt := some now }
  | finished {m : OutboxMessage} (status : OutboxStatus) (h : m.status = .claimed)
      (ht : status.terminal) :
    OutboxMove maxRetries m { m with status, claimedBy := none, claimedAt := none }
  | released {m : OutboxMessage} (h : m.status = .claimed) :
    OutboxMove maxRetries m (OutboxStore.released maxRetries m)

/-- What one method call does to the rows. -/
structure RowStep (p : Pools) (db db' : Database) : Prop where
  documents : ∀ hash, (db.documents.find? hash).isSome → (db'.documents.find? hash).isSome
  intents : ∀ i' ∈ db'.intents.rows, i' ∈ db.intents.rows ∨
    (∃ now id fileName, i' = UploadWorld.intentAt now id fileName) ∨
    ∃ i ∈ db.intents.rows, IntentMove p.hashing db'.documents i i'
  outbox : ∀ m' ∈ db'.outbox.rows, m' ∈ db.outbox.rows ∨
    (∃ hash now id, m' = newMessage hash now id) ∨
    ∃ m ∈ db.outbox.rows, OutboxMove p.outbox m m'
  intentKept : ∀ i ∈ db.intents.rows, i.status.terminal → i ∈ db'.intents.rows
  outboxKept : ∀ m ∈ db.outbox.rows, m.status.terminal → m ∈ db'.outbox.rows

section Step

variable {p : Pools} {db db' : Database} {n : Int} {documents : Table Document}

theorem IntentMove.not_terminal {i i' : Intent} (h : IntentMove n documents i i') :
    i.status.terminal = false := by
  cases h <;> simp_all [IntentState.terminal]

theorem OutboxMove.not_terminal {m m' : OutboxMessage} (h : OutboxMove n m m') :
    m.status.terminal = false := by
  cases h <;> simp_all [OutboxStatus.terminal]

theorem RowStep.refl (p : Pools) (db : Database) : RowStep p db db :=
  ⟨fun _ h => h, fun _ h => .inl h, fun _ h => .inl h, fun _ h _ => h, fun _ h _ => h⟩

/-- The intents a statement selects make a move. -/
theorem RowStep.updateIntents {sel : Intent → Bool} {f : Intent → Intent}
    {hf : ∀ i, (f i).id = i.id} (hm : ∀ i, sel i → IntentMove p.hashing db.documents i (f i))
    (db' : Database) (k : Nat) (h : Database.updateIntents sel f hf db = some (db', k)) :
    RowStep p db db' := by
  obtain ⟨rfl, -⟩ := updateIntents_ok h
  refine { RowStep.refl p db with
    intents := fun i' hi' => ?intents
    intentKept := fun i hi ht => mem_rewrite.2 ⟨i, hi, if_neg fun hs => ?kept⟩ }
  case intents =>
    obtain ⟨i, hi, rfl⟩ := mem_rewrite.1 hi'
    split
    · exact .inr (.inr ⟨i, hi, hm i ‹_›⟩)
    · exact .inl hi
  case kept =>
    rw [(hm i hs).not_terminal] at ht
    cases ht

/-- The outbox rows a statement selects make a move. -/
theorem RowStep.updateOutbox {sel : OutboxMessage → Bool} {f : OutboxMessage → OutboxMessage}
    {hf : ∀ m, (f m).id = m.id} (hm : ∀ m, sel m → OutboxMove p.outbox m (f m))
    (db' : Database) (k : Nat) (h : Database.updateOutbox sel f hf db = some (db', k)) :
    RowStep p db db' := by
  obtain ⟨rfl, -⟩ := updateOutbox_ok h
  refine { RowStep.refl p db with
    outbox := fun m' hm' => ?outbox
    outboxKept := fun m hmem ht => mem_rewrite.2 ⟨m, hmem, if_neg fun hs => ?kept⟩ }
  case outbox =>
    obtain ⟨m, hmem, rfl⟩ := mem_rewrite.1 hm'
    split
    · exact .inr (.inr ⟨m, hmem, hm m ‹_›⟩)
    · exact .inl hmem
  case kept =>
    rw [(hm m hs).not_terminal] at ht
    cases ht

/-- A document is rewritten, and perhaps queued once more. -/
theorem RowStep.finished (hash : String) (attempts : Int) (status : DocumentStatus) (now : Time) :
    RowStep p db { db with
      documents := Store.finished db.documents hash attempts status now } := by
  refine { RowStep.refl p db with documents := fun k hk => ?_, intents := fun i hi => .inl hi }
  simpa only [find?_finished, Option.isSome_map] using hk

theorem RowStep.retried (hash : String) (attempts : Int) (now : Time) :
    RowStep p db { db with
      documents := Store.retried db.documents hash attempts now
      outbox := enqueued db.outbox hash now } := by
  refine { RowStep.refl p db with
    documents := fun k hk => by simpa only [find?_retried, Option.isSome_map] using hk
    intents := fun i hi => .inl hi
    outbox := fun m hm => ?_
    outboxKept := fun m hm _ => List.mem_append_left _ hm }
  rcases List.mem_append.1 hm with hm | hm
  · exact .inl hm
  · exact .inr (.inl ⟨hash, now, _, List.mem_singleton.1 hm⟩)

theorem RowStep.started (now : Time) (document : Document) (intentID claimedBy : String) :
    RowStep p db (Store.started db now document intentID claimedBy) := by
  have hkeep (hash : String) (hk : (db.documents.find? hash).isSome) :
      ((Store.started db now document intentID claimedBy).documents.find? hash).isSome := by
    simp only [Store.started, Table.find?_insertOrIgnore]
    split <;> first | rfl | exact hk
  have hnew : ((Store.started db now document intentID claimedBy).documents.find?
      document.hash).isSome := by
    simp only [Store.started, Table.find?_insertOrIgnore]
    split
    · rfl
    · rename_i hn
      cases hd : db.documents.find? document.hash with
      | none => exact absurd ⟨rfl, hd⟩ hn
      | some d => rfl
  refine ⟨hkeep, fun i' hi' => ?intents, fun m hm => ?outbox, fun i hi ht => ?kept,
    fun m hm _ => ?outboxKept⟩
  case intents =>
    obtain ⟨i, hi, rfl⟩ := mem_rewrite.1 hi'
    split
    case isTrue hs =>
      simp only [Store.heldBy, decide_eq_true_eq] at hs
      exact .inr (.inr ⟨i, hi, .linked document.hash hs.2.1 hnew⟩)
    case isFalse => exact .inl hi
  case outbox =>
    unfold Store.started at hm
    dsimp only at hm
    split at hm
    · exact .inl hm
    · rcases List.mem_append.1 hm with hm | hm
      · exact .inl hm
      · exact .inr (.inl ⟨_, now, _, List.mem_singleton.1 hm⟩)
  case kept =>
    refine mem_rewrite.2 ⟨i, hi, if_neg fun hs => ?_⟩
    simp only [Store.heldBy, decide_eq_true_eq] at hs
    rw [hs.2.1] at ht
    cases ht
  case outboxKept =>
    unfold Store.started
    dsimp only
    split
    · exact hm
    · exact List.mem_append_left _ hm

end Step

namespace StoreCmd

/-- The settings of the pools are fixed, and intents come from `Service.CreateIntent`. -/
def InPools (p : Pools) : StoreCmd → Prop
  | createIntent i => ∃ now id fileName, i = UploadWorld.intentAt now id fileName
  | releaseIntentClaim _ _ maxRetries | recoverStaleIntents _ maxRetries => maxRetries = p.hashing
  | releaseClaim _ _ maxRetries | recoverStaleOutbox _ maxRetries => maxRetries = p.outbox
  | _ => True

end StoreCmd

section Step

variable {p : Pools} {db : Database}

theorem heldBy_hashing {id claimedBy : String} {i : Intent}
    (h : Store.heldBy id claimedBy i) : i.status = .hashing := by
  simp only [Store.heldBy, decide_eq_true_eq] at h
  exact h.2.1

theorem heldBy_claimed {id : Nat} {claimedBy : String} {m : OutboxMessage}
    (h : OutboxStore.heldBy id claimedBy m) : m.status = .claimed := by
  simp only [OutboxStore.heldBy, decide_eq_true_eq] at h
  exact h.2.1

/-- One method call makes such moves only, whichever statements fail. -/
theorem rowStep (c : StoreCmd) (faults : List Bool) (hc : c.InPools p) :
    RowStep p db (c.apply faults db).2 := by
  have h₀ := RowStep.refl p db
  have quiet {α : Type} {x : Store α} (hx : Tx.Quiet x) : RowStep p db (x.run faults db).2 := by
    rw [Tx.run_quiet hx]
    exact h₀
  cases c with
  | startIngestion now document intentID claimedBy =>
    change RowStep p db ((Store.startIngestion now document intentID claimedBy).run faults db).2
    obtain ⟨_, hr⟩ | ⟨-, hr⟩ :=
      @Store.startIngestion_cases db faults now document intentID claimedBy
    · rw [hr]
      exact h₀
    · rw [hr]
      exact .started now document intentID claimedBy
  | applyIndexed hash attempts now =>
    change RowStep p db ((Store.applyIndexed hash attempts now).run faults db).2
    obtain ⟨_, hr⟩ | hr := @Store.applyIndexed_cases db faults hash attempts now
    · rw [hr]
      exact h₀
    · rw [hr]
      exact .finished hash attempts _ now
  | applyFailed hash attempts retryable maxAttempts now =>
    change RowStep p db
      ((Store.applyFailed hash attempts retryable maxAttempts now).run faults db).2
    obtain ⟨_, hr⟩ | ⟨-, hr⟩ | ⟨-, -, -, hr⟩ | ⟨-, -, hr⟩ :=
      @Store.applyFailed_cases db faults hash attempts retryable maxAttempts now
    · rw [hr]
      exact h₀
    · rw [hr]
      exact h₀
    · rw [hr]
      exact .retried hash attempts now
    · rw [hr]
      exact .finished hash attempts _ now
  | ping =>
    change RowStep p db (Store.ping.run faults db).2
    rw [Store.run_ping]
    exact h₀
  | claimOutboxMessage now claimedBy id =>
    refine Tx.of_autocommit_map h₀ (.updateOutbox fun m hm => .claimed claimedBy now ?_)
    exact (of_decide_eq_true hm).2
  | markPublished id claimedBy =>
    exact Tx.of_autocommit_map h₀ (.updateOutbox fun m hm =>
      .finished .published (heldBy_claimed hm) rfl)
  | recoverStaleOutbox cutoff maxRetries =>
    cases hc
    exact Tx.of_autocommit h₀ (.updateOutbox fun m hm => .released (of_decide_eq_true hm).1)
  | releaseClaim id claimedBy maxRetries =>
    cases hc
    exact Tx.of_autocommit_map h₀ (.updateOutbox fun m hm => .released (heldBy_claimed hm))
  | markBlocked id claimedBy =>
    exact Tx.of_autocommit_map h₀ (.updateOutbox fun m hm =>
      .finished .blocked (heldBy_claimed hm) rfl)
  | createIntent i =>
    obtain ⟨now, id, fileName, rfl⟩ := hc
    change RowStep p db ((IntentStore.createIntent _).run faults db).2
    obtain ⟨_, hr⟩ | ⟨hnone, hr⟩ :=
      IntentStore.createIntent_cases (UploadWorld.intentAt now id fileName) faults db
    · rw [hr]
      exact h₀
    · rw [hr]
      refine { h₀ with
        intents := fun i hi => ?_
        intentKept := fun i hi _ => Table.mem_insertOrIgnore.2 (.inl hi) }
      rcases Table.mem_insertOrIgnore.1 hi with hi | ⟨-, rfl⟩
      · exact .inl hi
      · exact .inr (.inl ⟨now, id, fileName, rfl⟩)
  | updateIntentToUploaded id uploadedAt =>
    exact Tx.of_autocommit h₀ (.updateIntents fun i hi =>
      .uploaded uploadedAt (of_decide_eq_true hi).2.1)
  | updateIntentToExpired id now =>
    exact Tx.of_autocommit h₀ (.updateIntents fun i hi => .expired (of_decide_eq_true hi).2.1)
  | updateIntentToHashing id claimedBy claimedAt =>
    exact Tx.of_autocommit h₀ (.updateIntents fun i hi =>
      .claimed claimedBy claimedAt (of_decide_eq_true hi).2)
  | markIntentFailed id claimedBy =>
    exact Tx.of_autocommit h₀ (.updateIntents fun i hi => .givenUp (heldBy_hashing hi))
  | releaseIntentClaim id claimedBy maxRetries =>
    cases hc
    exact Tx.of_autocommit h₀ (.updateIntents fun i hi => .released (heldBy_hashing hi))
  | recoverStaleIntents cutoff maxRetries =>
    cases hc
    exact Tx.of_autocommit h₀ (.updateIntents fun i hi => .released (of_decide_eq_true hi).1)
  | getIntent => exact quiet IntentStore.quiet_getIntent
  | fetchCandidates | getDocumentByHash | getIntentsForHashing => exact quiet (Tx.quiet_query _)

end Step

/-! ### Rows -/

structure IntentRow (maxRetries : Int) (documents : Table Document) (i : Intent) : Prop where
  hashing : i.status = .hashing →
    i.claimedBy.isSome ∧ i.claimedAt.isSome ∧ i.retries < maxRetries
  unclaimed : i.status = .waiting ∨ i.status = .uploaded ∨ i.status = .expired ∨
    i.status = .failed → i.claimedBy = none ∧ i.claimedAt = none
  uploaded : i.status = .uploaded → i.retries < maxRetries
  hash_iff : i.hash.isSome ↔ i.status = .hashed
  hash : ∀ hash, i.hash = some hash → (documents.find? hash).isSome

structure OutboxRow (maxRetries : Int) (m : OutboxMessage) : Prop where
  claimedBy : m.status = .claimed ↔ m.claimedBy.isSome
  claimedAt : m.claimedBy.isSome ↔ m.claimedAt.isSome
  retries : m.status = .pending ∨ m.status = .claimed → m.retries < maxRetries

/-- Every row is as it should be; a waiting intent has not been tried. -/
structure RowsOk (p : Pools) (db : Database) : Prop where
  intents : ∀ i ∈ db.intents.rows, IntentRow p.hashing db.documents i
  waiting : ∀ i ∈ db.intents.rows, i.status = .waiting → i.retries = 0
  outbox : ∀ m ∈ db.outbox.rows, OutboxRow p.outbox m

section Rows

variable {p : Pools} {db db' : Database} {n : Int} {documents documents' : Table Document}

theorem IntentMove.row {i i' : Intent} (hm : IntentMove n documents' i i')
    (h : IntentRow n documents i) (hw : i.status = .waiting → i.retries < n) :
    IntentRow n documents' i' := by
  have hnone (hs : i.status ≠ .hashed) : i.hash = none := by
    simpa using mt h.hash_iff.1 hs
  have hclear (hs : i.status ≠ .hashed) {hash : String} (he : i.hash = some hash) :
      (documents'.find? hash).isSome := by
    rw [hnone hs] at he
    cases he
  cases hm with
  | uploaded uploadedAt hs =>
    have hunclaimed := h.unclaimed (.inl hs)
    exact ⟨nofun, fun _ => hunclaimed, fun _ => hw hs,
      by simp [IntentStore.uploaded, hnone (by simp [hs])], fun _ => hclear (by simp [hs])⟩
  | expired hs =>
    have hunclaimed := h.unclaimed (.inl hs)
    exact ⟨nofun, fun _ => hunclaimed, nofun,
      by simp [IntentStore.expired, hnone (by simp [hs])], fun _ => hclear (by simp [hs])⟩
  | claimed claimedBy claimedAt hs =>
    refine ⟨fun _ => ⟨rfl, rfl, h.uploaded hs⟩, by simp [IntentStore.claimed], nofun, ?_,
      fun _ => hclear (by simp [hs])⟩
    simp [IntentStore.claimed, hnone (by simp [hs])]
  | givenUp hs =>
    exact ⟨nofun, fun _ => ⟨rfl, rfl⟩, nofun,
      by simp [IntentStore.givenUp, hnone (by simp [hs])], fun _ => hclear (by simp [hs])⟩
  | released hs =>
    have hstatus : (IntentStore.released n i).status ≠ .hashing ∧
        (IntentStore.released n i).status ≠ .hashed := by
      unfold IntentStore.released
      dsimp only
      split <;> simp
    refine ⟨fun h => absurd h hstatus.1, fun _ => ⟨rfl, rfl⟩, fun hu => ?_, ?_,
      fun _ => hclear (by simp [hs])⟩
    · simp only [IntentStore.released] at hu ⊢
      split at hu
      · cases hu
      · omega
    · have : (IntentStore.released n i).hash = none := hnone (by simp [hs])
      simp [this, hstatus.2]
  | linked hash hs hhash =>
    refine ⟨nofun, by simp, nofun, by simp, ?_⟩
    rintro _ ⟨⟩
    exact hhash

theorem OutboxMove.row {m m' : OutboxMessage} (hm : OutboxMove n m m') (h : OutboxRow n m) :
    OutboxRow n m' := by
  cases hm with
  | claimed claimedBy now hs => exact ⟨by simp, by simp, fun _ => h.retries (.inl hs)⟩
  | finished status hs ht => exact ⟨by cases status <;> simp_all [OutboxStatus.terminal], by simp,
      by cases status <;> simp_all [OutboxStatus.terminal]⟩
  | released hs =>
    refine ⟨?_, by simp [OutboxStore.released], fun ho => ?_⟩
    · unfold OutboxStore.released
      dsimp only
      split <;> simp
    · simp only [OutboxStore.released] at ho ⊢
      split at ho
      · simp at ho
      · omega

theorem RowsOk.step (h : RowsOk p db) (hs : RowStep p db db') : RowsOk p db' := by
  have hpos := p.hashing_pos
  have hpos' := p.outbox_pos
  refine ⟨fun i' hi' => ?intents, fun i' hi' hw => ?waiting, fun m' hm' => ?outbox⟩
  case intents =>
    rcases hs.intents i' hi' with hi | ⟨now, id, fileName, rfl⟩ | ⟨i, hi, hm⟩
    · have hrow := h.intents i' hi
      exact { hrow with hash := fun hash he => hs.documents hash (hrow.hash hash he) }
    · exact ⟨nofun, fun _ => ⟨rfl, rfl⟩, nofun, by simp [UploadWorld.intentAt], nofun⟩
    · refine hm.row (h.intents i hi) fun hw => ?_
      rw [h.waiting i hi hw]
      omega
  case waiting =>
    rcases hs.intents i' hi' with hi | ⟨now, id, fileName, rfl⟩ | ⟨i, hi, hm⟩
    · exact h.waiting i' hi hw
    · rfl
    · cases hm with
      | released =>
        simp only [IntentStore.released] at hw
        split at hw <;> cases hw
      | _ => cases hw
  case outbox =>
    rcases hs.outbox m' hm' with hm | ⟨hash, now, id, rfl⟩ | ⟨m, hmem, hm⟩
    · exact h.outbox m' hm
    · refine ⟨by simp [newMessage], by simp [newMessage], fun _ => ?_⟩
      change (0 : Int) < p.outbox
      omega
    · exact hm.row (h.outbox m hmem)

end Rows

/-! ### Runs -/

/-- What method calls in any order can make of empty tables. A crash is a call that is not made,
and a call that fails is one with faults. -/
inductive InRun (p : Pools) : Database → Prop where
  | start : InRun p (.start .empty)
  | step {db : Database} (h : InRun p db) (c : StoreCmd) (hc : c.InPools p)
      (faults : List Bool) : InRun p (c.apply faults db).2

theorem rowsOk_of_run {p : Pools} {db : Database} (h : InRun p db) : RowsOk p db := by
  induction h with
  | start =>
    refine ⟨fun _ hi => ?_, fun _ hi => ?_, fun _ hm => ?_⟩
    · cases hi
    · cases hi
    · cases hm
  | step _ c hc faults ih => exact ih.step (rowStep c faults hc)

/-- In every run a claimed row says who holds it and since when and can be tried again, every
other open row is free, and a row that is done stays as it is. -/
theorem claims_found_again {p : Pools} {db : Database} (h : InRun p db) :
    (∀ i ∈ db.intents.rows, IntentRow p.hashing db.documents i) ∧
    (∀ m ∈ db.outbox.rows, OutboxRow p.outbox m) ∧
    ∀ (c : StoreCmd) (faults : List Bool), c.InPools p →
      (∀ i ∈ db.intents.rows, i.status.terminal → i ∈ (c.apply faults db).2.intents.rows) ∧
      ∀ m ∈ db.outbox.rows, m.status.terminal → m ∈ (c.apply faults db).2.outbox.rows := by
  have hrows := rowsOk_of_run h
  refine ⟨hrows.intents, hrows.outbox, fun c faults hc => ?_⟩
  have hs : RowStep p db (c.apply faults db).2 := rowStep c faults hc
  exact ⟨hs.intentKept, hs.outboxKept⟩

def samplePools : Pools := ⟨3, 3, threeAttempts.pos, threeAttempts.pos⟩

/-- An intent is created, confirmed, claimed by worker `w` and found stale; then it is claimed
again and hashed. -/
def secondClaim : List StoreCmd :=
  [.createIntent (UploadWorld.intentAt 0 "u" "a.txt"), .updateIntentToUploaded "u" 1,
    .updateIntentToHashing "u" "w" 2, .recoverStaleIntents 4 3, .updateIntentToHashing "u" "w" 5,
    .startIngestion 6 ⟨"h", "h/h/h", "a.txt", 3, .processing, 0, 0, 0⟩ "u" "w"]

def afterAll (cmds : List StoreCmd) : Database :=
  cmds.foldl (fun db c => (c.apply [] db).2) (.start .empty)

theorem claims_found_again_secondClaim : ∃ db, InRun samplePools db ∧
    ∃ i ∈ db.intents.rows, i.status = .hashed ∧ i.retries = 1 ∧
      IntentRow 3 db.documents i ∧
      i ∈ ((StoreCmd.recoverStaleIntents 9 3).apply [] db).2.intents.rows := by
  have hrun : InRun samplePools (afterAll secondClaim) := by
    refine .step (.step (.step (.step (.step (.step .start _ ?_ _) _ ?_ _) _ ?_ _) _ ?_ _) _ ?_ _)
      _ ?_ _ <;> first | exact ⟨0, "u", "a.txt", rfl⟩ | exact rfl | trivial
  obtain ⟨hrows, -, hkept⟩ := claims_found_again hrun
  obtain ⟨i, hi, hs, hr⟩ : ∃ i ∈ (afterAll secondClaim).intents.rows,
      i.status = .hashed ∧ i.retries = 1 := by decide +kernel
  exact ⟨_, hrun, i, hi, hs, hr, hrows i hi,
    (hkept (.recoverStaleIntents 9 3) [] rfl).1 i hi (by rw [hs]; rfl)⟩

end Center

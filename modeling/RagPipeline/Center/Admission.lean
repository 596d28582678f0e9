import RagPipeline.Center.UploadSystem

/-!
# What `CreateUpload` lets through

The checks of the upload handler on a decoded request. `unicode.ToLower` is any map on
characters.

## Main definitions

* `ext`, `Handlers.createUpload`: the extension of a file name, and the handler.
* `Inherits`: file names and files are as they were, but for what a method brings in.

## Main results

* `inherits`: every method of the store is like that.
-/
namespace Center

open Relational Tx Database

/-- `filepath.Ext`: from the last dot after the last slash. -/
def ext (path : String) : String :=
  let base := path.toList.reverse.takeWhile (· ≠ '/')
  if '.' ∈ base then String.ofList ('.' :: (base.takeWhile (· ≠ '.')).reverse) else ""

example : ext "a.b/näher.tar.PDF" = ".PDF" := by decide
example : ext "a.pdf/b" = "" := by decide

structure UploadDocumentRequest where
  fileName : String

structure HttpError where
  status : Nat
  text : String
  deriving DecidableEq

structure Handlers where
  allowedExtensions : List String
  /-- `unicode.ToLower`. -/
  lower : Char → Char

namespace Handlers

variable (h : Handlers)

/-- `strings.ToLower`. -/
def toLower (s : String) : String := String.ofList (s.toList.map h.lower)

def extensionAllowed (ext : String) : Bool := ext ∈ h.allowedExtensions.map h.toLower

/-- The checks before an intent is created; `none` is a body that is no JSON for a request. -/
def createUpload : Option UploadDocumentRequest → Except HttpError String
  | none => .error ⟨400, "invalid JSON"⟩
  | some req =>
    if req.fileName = "" then .error ⟨400, "filename is required"⟩
    else
      let ext := h.toLower (ext req.fileName)
      if h.extensionAllowed ext then .ok req.fileName
      else
        .error ⟨400, "unsupported file extension: " ++ if ext = "" then "(none)" else ext⟩

theorem createUpload_ok {request : Option UploadDocumentRequest} {fileName : String} :
    h.createUpload request = .ok fileName ↔ request = some ⟨fileName⟩ ∧ fileName ≠ "" ∧
      h.extensionAllowed (h.toLower (ext fileName)) := by
  cases request with
  | none => simp [createUpload]
  | some req =>
    obtain ⟨name⟩ := req
    simp only [createUpload]
    split_ifs <;> grind

end Handlers

/-! ### File names and files in the database -/

/-- The columns that say which file it is. -/
def SameFile (d d' : Document) : Prop :=
  d'.hash = d.hash ∧ d'.permBucketPath = d.permBucketPath ∧ d'.fileName = d.fileName ∧
    d'.size = d.size

structure Inherits (c : StoreCmd) (db db' : Database) : Prop where
  intents : ∀ i' ∈ db'.intents.rows, (∃ i ∈ db.intents.rows, i'.fileName = i.fileName) ∨
    ∃ i, c = .createIntent i ∧ i'.fileName = i.fileName
  documents : ∀ d' ∈ db'.documents.rows, (∃ d ∈ db.documents.rows, SameFile d d') ∨
    ∃ now d intentID claimedBy, c = .startIngestion now d intentID claimedBy ∧ SameFile d d'

section Step

variable {c : StoreCmd} {db db' : Database}

theorem SameFile.refl (d : Document) : SameFile d d := ⟨rfl, rfl, rfl, rfl⟩

theorem Inherits.refl (c : StoreCmd) (db : Database) : Inherits c db db :=
  ⟨fun i hi => .inl ⟨i, hi, rfl⟩, fun d hd => .inl ⟨d, hd, .refl d⟩⟩

theorem Inherits.updateIntents {sel : Intent → Bool} {f : Intent → Intent}
    {hf : ∀ i, (f i).id = i.id} (hname : ∀ i, (f i).fileName = i.fileName) (db' : Database)
    (n : Nat) (h : Database.updateIntents sel f hf db = some (db', n)) : Inherits c db db' := by
  obtain ⟨rfl, -⟩ := updateIntents_ok h
  refine { Inherits.refl c db with intents := fun i' hi' => .inl ?_ }
  obtain ⟨i, hi, rfl⟩ := mem_rewrite.1 hi'
  refine ⟨i, hi, ?_⟩
  split
  · exact hname i
  · rfl

theorem Inherits.updateDocuments {sel : Document → Bool} {f : Document → Document}
    {hf : ∀ d, (f d).hash = d.hash} (hfile : ∀ d, SameFile d (f d)) {t : AutoTable OutboxMessage} :
    Inherits c db { db with documents := db.documents.update sel f hf, outbox := t } := by
  refine { Inherits.refl c db with documents := fun d' hd' => .inl ?_ }
  obtain ⟨d, hd, rfl⟩ := mem_rewrite.1 hd'
  refine ⟨d, hd, ?_⟩
  split
  · exact hfile d
  · exact .refl d

theorem Inherits.finished (hash : String) (attempts : Int) (status : DocumentStatus) (now : Time) :
    Inherits c db
      { db with documents := Store.finished db.documents hash attempts status now } := by
  refine .updateDocuments ?_
  exact fun _ => ⟨rfl, rfl, rfl, rfl⟩

theorem Inherits.retried (hash : String) (attempts : Int) (now : Time) :
    Inherits c db { db with documents := Store.retried db.documents hash attempts now
                            outbox := enqueued db.outbox hash now } := by
  refine .updateDocuments ?_
  exact fun _ => ⟨rfl, rfl, rfl, rfl⟩

theorem Inherits.updateOutbox {sel : OutboxMessage → Bool} {f : OutboxMessage → OutboxMessage}
    {hf : ∀ m, (f m).id = m.id} (db' : Database) (n : Nat)
    (h : Database.updateOutbox sel f hf db = some (db', n)) : Inherits c db db' := by
  obtain ⟨rfl, -⟩ := updateOutbox_ok h
  exact { Inherits.refl c db with }

theorem Inherits.started (now : Time) (document : Document) (intentID claimedBy : String) :
    Inherits (.startIngestion now document intentID claimedBy) db
      (Store.started db now document intentID claimedBy) where
  intents i' hi' := by
    obtain ⟨i, hi, rfl⟩ := mem_rewrite.1 hi'
    refine .inl ⟨i, hi, ?_⟩
    split <;> rfl
  documents d' hd' := by
    rcases Table.mem_insertOrIgnore.1 hd' with hd | ⟨-, rfl⟩
    · exact .inl ⟨d', hd, .refl d'⟩
    · exact .inr ⟨now, document, intentID, claimedBy, rfl, ⟨rfl, rfl, rfl, rfl⟩⟩

theorem inherits (c : StoreCmd) (faults : List Bool) : Inherits c db (c.apply faults db).2 := by
  have h₀ := Inherits.refl c db
  have quiet {α : Type} {x : Store α} (hx : Quiet x) : Inherits c db (x.run faults db).2 := by
    rw [run_quiet hx]
    exact h₀
  cases c with
  | startIngestion now document intentID claimedBy =>
    change Inherits _ db ((Store.startIngestion now document intentID claimedBy).run faults db).2
    obtain ⟨_, hr⟩ | ⟨-, hr⟩ :=
      @Store.startIngestion_cases db faults now document intentID claimedBy
    · rw [hr]
      exact h₀
    · rw [hr]
      exact .started now document intentID claimedBy
  | applyIndexed hash attempts now =>
    change Inherits _ db ((Store.applyIndexed hash attempts now).run faults db).2
    obtain ⟨_, hr⟩ | hr := @Store.applyIndexed_cases db faults hash attempts now
    · rw [hr]
      exact h₀
    · rw [hr]
      exact .finished hash attempts _ now
  | applyFailed hash attempts retryable maxAttempts now =>
    change Inherits _ db
      ((Store.applyFailed hash attempts retryable maxAttempts now).run faults db).2
    obtain ⟨_, hr⟩ | ⟨-, hr⟩ | ⟨-, -, -, hr⟩ | ⟨-, -, hr⟩ :=
      @Store.applyFailed_cases db faults hash attempts retryable maxAttempts now
    · rw [hr]
      exact h₀
    · rw [hr]
      exact h₀
    · rw [hr]
      exact .retried hash attempts now
    · rw [hr]
      exact .finished hash attempts _ now
  | ping =>
    change Inherits _ db (Store.ping.run faults db).2
    rw [Store.run_ping]
    exact h₀
  | createIntent i =>
    change Inherits _ db ((IntentStore.createIntent i).run faults db).2
    obtain ⟨_, hr⟩ | ⟨-, hr⟩ := IntentStore.createIntent_cases i faults db
    · rw [hr]
      exact h₀
    · rw [hr]
      refine { h₀ with intents := fun i' hi' => ?_ }
      rcases Table.mem_insertOrIgnore.1 hi' with hi | ⟨-, rfl⟩
      · exact .inl ⟨i', hi, rfl⟩
      · exact .inr ⟨i, rfl, rfl⟩
  | updateIntentToUploaded | updateIntentToExpired | updateIntentToHashing | markIntentFailed
  | releaseIntentClaim | recoverStaleIntents =>
    exact of_autocommit h₀ (.updateIntents fun _ => rfl)
  | recoverStaleOutbox => exact of_autocommit h₀ .updateOutbox
  | claimOutboxMessage | markPublished | releaseClaim | markBlocked =>
    exact of_autocommit_map h₀ .updateOutbox
  | getIntent => exact quiet IntentStore.quiet_getIntent
  | fetchCandidates | getDocumentByHash | getIntentsForHashing => exact quiet (quiet_query _)

end Step

end Center

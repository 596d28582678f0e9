import RagPipeline.Center.Admission
import RagPipeline.Center.TablesAgree
import RagPipeline.Events.IngestContract
import RagPipeline.Pipeline.Processes
import RagPipeline.Settings.Reader
import RagPipeline.Settings.Validate

/-!
# From an upload request to the consumer

Clients, hash workers and outbox workers over one database: every entry of the ingest stream is
about a file that the upload handler let in. The status workers are seen through the two methods
they change a document with.

## Main definitions

* `CenterConfig`, `publication`: the center's configuration, and its system.
* `FromUpload`, `Publication`: documents and events that come from an accepted request.

## Main results

* `publications`: every entry is such an event.
* `published_is_read`: which of them the consumer reads.
-/
namespace Pipeline

open Center Events Interact Rag Relational Wire

inductive CenterProcess where
  | hash (p : HashProcess)
  | outboxWorker (id : String)
  | outboxSweeper (n : Nat)
  deriving DecidableEq

structure CenterConfig where
  handlers : Handlers
  hash : HashConfig
  outbox : OutboxConfig
  maxAttempts : MaxAttempts

/-- What `main` passes on; the fault hooks and `unicode.ToLower` are not in the file. -/
structure CenterConfig.From (cfg : CenterConfig) (file : Settings.Go.Config) : Prop where
  allowedExtensions : cfg.handlers.allowedExtensions = file.ingestion.allowedExtensions
  maxAttempts : cfg.maxAttempts.val = file.ingestion.maxAttempts
  hashBatch : (cfg.hash.batchSize : Int) = file.go.hashing.batchSize
  hashRetries : cfg.hash.maxRetries = file.go.hashing.maxRetries
  hashStale : cfg.hash.staleThreshold = file.go.hashing.staleThreshold
  outboxBatch : (cfg.outbox.batchSize : Int) = file.go.outbox.batchSize
  outboxRetries : cfg.outbox.maxRetries = file.go.outbox.maxRetries
  outboxStale : cfg.outbox.staleThreshold = file.go.outbox.staleThreshold
  schemaVersion : cfg.outbox.schemaVersion = file.go.outbox.schemaVersion

/-- The database and the buckets, and what was added to the ingest stream. -/
structure CenterWorld where
  upload : UploadWorld
  entries : List Fields

def CenterWorld.start : CenterWorld := ⟨.start, []⟩

structure CenterChoice where
  hash : HashChoice
  outbox : PipelineChoice

/-- Clients act, time passes, and status workers apply what was reported. -/
inductive CenterEvent where
  | createUpload (id : String) (request : Option UploadDocumentRequest) (faults : List Bool)
  | put (key : String) (data : Bytes)
  | confirmUpload (id : String) (faults : List Bool)
  | expire (id : String) (faults : List Bool)
  | tick (duration : Nat)
  | applyIndexed (hash : String) (attempts : Int) (faults : List Bool)
  | applyFailed (hash : String) (attempts : Int) (retryable : Bool) (faults : List Bool)

section System

variable (cfg : CenterConfig)

def CenterEvent.uploadAfter (g : UploadWorld) : CenterEvent → UploadWorld
  | createUpload id request faults =>
    match cfg.handlers.createUpload request with
    | .ok fileName => (UploadEvent.createIntent id fileName faults).apply g
    | .error _ => g
  | put key data => (UploadEvent.put key data).apply g
  | confirmUpload id faults => (UploadEvent.confirmUpload id faults).apply g
  | expire id faults => (UploadEvent.expire id faults).apply g
  | tick duration => (UploadEvent.tick duration).apply g
  | applyIndexed hash attempts faults =>
    { g with db := ((StoreCmd.applyIndexed hash attempts g.clock).apply faults g.db).2 }
  | applyFailed hash attempts retryable faults =>
    { g with db := ((StoreCmd.applyFailed hash attempts retryable cfg.maxAttempts.val
        g.clock).apply faults g.db).2 }

def publishReply (ch : PipelineChoice) (db : Database) : (c : OutboxCmd) → OutboxSig.Reply c
  | .store c => ch.storeReply c db
  | .xadd _ => if ch.fate = .ok then some () else none
  | .now => ch.time
  | .uuid => ch.text
  | .cancelled | .tick => ch.flag
  | .done => ()

def publishAfter (ch : PipelineChoice) (g : CenterWorld) : OutboxCmd → CenterWorld
  | .store c => { g with upload := { g.upload with db := ch.storeAfter c g.upload.db } }
  | .xadd fields => { g with entries := ch.done g.entries (g.entries ++ [fields]) }
  | _ => g

namespace CenterProcess

def sig : CenterProcess → Signature
  | hash _ => HashSig
  | outboxWorker _ | outboxSweeper _ => OutboxSig

def main : (p : CenterProcess) → Prog p.sig Unit
  | hash p => p.main cfg.hash
  | outboxWorker id => OutboxWorker.run cfg.outbox id
  | outboxSweeper _ => OutboxSweeper.run cfg.outbox

def respond : (p : CenterProcess) → (c : p.sig.Cmd) → CenterChoice → CenterWorld →
    p.sig.Reply c × CenterWorld
  | hash p => fun c ch g =>
    (g.upload.reply c ch.hash, { g with upload := g.upload.after p c ch.hash })
  | outboxWorker _ => fun c ch g =>
    (publishReply ch.outbox g.upload.db c, publishAfter ch.outbox g c)
  | outboxSweeper _ => fun c ch g =>
    (publishReply ch.outbox g.upload.db c, publishAfter ch.outbox g c)

def leave : CenterProcess → CenterWorld → CenterWorld
  | hash p, g => { g with upload := (uploadSystem cfg.hash).leave p g.upload }
  | _, g => g

end CenterProcess

def publication : Actors CenterProcess CenterWorld where
  sig := CenterProcess.sig
  main := CenterProcess.main cfg
  Choice := CenterChoice
  respond := CenterProcess.respond
  enter _ g := g
  leave := CenterProcess.leave cfg
  Env := CenterEvent
  env e g := { g with upload := e.uploadAfter cfg g.upload }

/-- A UUID has characters, and the clock is in the years that Python can hold. -/
def Plausible (ch : CenterChoice) : Prop := ch.outbox.text ≠ "" ∧ InYears ch.outbox.time

instance Plausible.decidable (ch : CenterChoice) : Decidable (Plausible ch) :=
  inferInstanceAs (Decidable (_ ∧ _))

def publicationRules : (publication cfg).Rules where
  start _ _ := True
  call _ _ ch _ := Plausible ch
  env _ _ := True

instance (p : CenterProcess) (g : CenterWorld) : Decidable ((publicationRules cfg).start p g) :=
  .isTrue trivial

instance (p : CenterProcess) (c : ((publication cfg).sig p).Cmd) (ch : (publication cfg).Choice)
    (g : CenterWorld) : Decidable ((publicationRules cfg).call p c ch g) :=
  Plausible.decidable ch

instance (e : (publication cfg).Env) (g : CenterWorld) :
    Decidable ((publicationRules cfg).env e g) :=
  .isTrue trivial

end System

/-! ### What an entry is about -/

/-- The handler accepts a request with this file name. -/
def Admitted (cfg : CenterConfig) (fileName : String) : Prop :=
  ∃ request, cfg.handlers.createUpload request = .ok fileName

/-- A document with the bytes of a file that was let in. -/
def FromUpload (cfg : CenterConfig) (d : Document) : Prop :=
  Admitted cfg d.fileName ∧ ∃ data, d.hash = Sha256.hexSum data ∧ d.size = data.length ∧
    d.permBucketPath = ingestionObjectKey (Sha256.hexSum data)

/-- The event of a document at one of its attempts. -/
def Publication (cfg : CenterConfig) (e : StreamIngestionEvent) : Prop :=
  ∃ d id now, FromUpload cfg d ∧ 0 ≤ d.retries ∧ d.retries < cfg.maxAttempts.val ∧ id ≠ "" ∧
    InYears now ∧ e = OutboxWorker.eventOf cfg.outbox d id now

def Entry (cfg : CenterConfig) (fields : Fields) : Prop :=
  ∃ e, Publication cfg e ∧ e.toEntry = some fields

structure DatabaseOk (cfg : CenterConfig) (db : Database) : Prop where
  agree : Agree cfg.maxAttempts db
  intents : ∀ i ∈ db.intents.rows, Admitted cfg i.fileName
  documents : ∀ d ∈ db.documents.rows, FromUpload cfg d

structure PublicationInv (cfg : CenterConfig) (g : CenterWorld) : Prop where
  db : DatabaseOk cfg g.upload.db
  entries : ∀ fields ∈ g.entries, Entry cfg fields

/-- What may be brought into the database. -/
def Admits (cfg : CenterConfig) : StoreCmd → Prop
  | .createIntent i => Admitted cfg i.fileName
  | .startIngestion _ document _ _ => FromUpload cfg document
  | .applyFailed _ _ _ maxAttempts _ => maxAttempts = cfg.maxAttempts.val
  | _ => True

def hashGuard (cfg : CenterConfig) : HashCmd → Prop
  | .store c => Admits cfg c
  | _ => True

def entryGuard (cfg : CenterConfig) : OutboxCmd → Prop
  | .store c => Admits cfg c
  | .xadd fields => Entry cfg fields
  | _ => True

def publicationGuard (cfg : CenterConfig) : (p : CenterProcess) → p.sig.Cmd → Prop
  | .hash _ => hashGuard cfg
  | .outboxWorker _ => entryGuard cfg
  | .outboxSweeper _ => entryGuard cfg

section Steps

variable {cfg : CenterConfig} {db : Database} {g : CenterWorld}

theorem FromUpload.sameFile {d d' : Document} (h : FromUpload cfg d) (hd : SameFile d d') :
    FromUpload cfg d' := by
  obtain ⟨hname, data, hhash, hsize, hpath⟩ := h
  obtain ⟨ehash, epath, ename, esize⟩ := hd
  exact ⟨ename ▸ hname, data, ehash.trans hhash, esize.trans hsize, epath.trans hpath⟩

theorem DatabaseOk.apply (h : DatabaseOk cfg db) {c : StoreCmd} (hc : Admits cfg c)
    (faults : List Bool) : DatabaseOk cfg (c.apply faults db).2 := by
  have hin : Inherits c db (c.apply faults db).2 := inherits c faults
  refine ⟨(c.effect faults db).agree ?_ h.agree, fun i hi => ?_, fun d hd => ?_⟩
  · cases c <;> first | exact hc | trivial
  · rcases hin.intents i hi with ⟨j, hj, hname⟩ | ⟨j, rfl, hname⟩
    · exact hname ▸ h.intents j hj
    · exact hname ▸ hc
  · rcases hin.documents d hd with ⟨d', hd', hsame⟩ | ⟨_, d', _, _, rfl, hsame⟩
    · exact (h.documents d' hd').sameFile hsame
    · exact FromUpload.sameFile hc hsame

theorem DatabaseOk.storeAfter (h : DatabaseOk cfg db) {c : StoreCmd} (hc : Admits cfg c)
    (ch : PipelineChoice) : DatabaseOk cfg (ch.storeAfter c db) := by
  unfold PipelineChoice.storeAfter PipelineChoice.done
  split
  · exact h
  · exact h.apply hc ch.faults

theorem publish_ok {c : OutboxCmd} {ch : PipelineChoice} (h : PublicationInv cfg g)
    (hc : entryGuard cfg c) : PublicationInv cfg (publishAfter ch g c) := by
  cases c with
  | store c => exact ⟨h.db.storeAfter hc ch, h.entries⟩
  | xadd fields =>
    refine ⟨h.db, fun f hf => ?_⟩
    change f ∈ ch.done g.entries (g.entries ++ [fields]) at hf
    unfold PipelineChoice.done at hf
    split at hf
    · exact h.entries f hf
    · rcases List.mem_append.1 hf with hf | hf
      · exact h.entries f hf
      · exact List.mem_singleton.1 hf ▸ hc
  | _ => exact h

theorem publication_call_ok {p : CenterProcess} {c : p.sig.Cmd} {ch : CenterChoice}
    (h : PublicationInv cfg g) (hc : publicationGuard cfg p c) :
    PublicationInv cfg (p.respond c ch g).2 := by
  cases p with
  | hash p =>
    refine ⟨?_, h.entries⟩
    cases c with
    | store c => exact h.db.apply hc ch.hash.faults
    | _ => exact h.db
  | outboxWorker id => exact publish_ok h hc
  | outboxSweeper n => exact publish_ok h hc

theorem publication_env_ok (e : CenterEvent) (h : PublicationInv cfg g) :
    PublicationInv cfg ((publication cfg).env e g) := by
  refine ⟨?_, h.entries⟩
  change DatabaseOk cfg (e.uploadAfter cfg g.upload).db
  have happly (c : StoreCmd) (hc : Admits cfg c) (faults : List Bool) := h.db.apply hc faults
  cases e with
  | createUpload id request faults =>
    simp only [CenterEvent.uploadAfter]
    split
    case h_1 fileName hname =>
      exact happly (.createIntent (UploadWorld.intentAt g.upload.clock id fileName))
        ⟨request, hname⟩ faults
    case h_2 => exact h.db
  | put key data =>
    simp only [CenterEvent.uploadAfter, UploadEvent.apply]
    split <;> exact h.db
  | confirmUpload id faults => exact happly (.updateIntentToUploaded ..) trivial faults
  | expire id faults => exact happly (.updateIntentToExpired ..) trivial faults
  | tick duration => exact h.db
  | applyIndexed hash attempts faults => exact happly (.applyIndexed ..) trivial faults
  | applyFailed hash attempts retryable faults => exact happly (.applyFailed ..) rfl faults

end Steps

/-! ### The hash worker -/

section HashWorker

variable {cfg : CenterConfig} {p : HashProcess} {id : String} {intent : Intent}
  {s : Unit} {g : CenterWorld} {α : Type}

open Method HashWorker

def hashContract (cfg : CenterConfig) (p : HashProcess) : Contract HashSig CenterWorld where
  inv := PublicationInv cfg
  rely _ _ := True
  guard c _ := hashGuard cfg c
  exec c g r g' := ∃ ch, Plausible ch ∧ CenterProcess.respond (.hash p) c ch g = (r, g')

/-- A command that may be answered in any way. -/
theorem wp_hash_any {c : HashCmd} {f : HashSig.Reply c → HashMethod α}
    {Q : Except HashError α → Unit → CenterWorld → Prop} (hc : hashGuard cfg c)
    (h : ∀ r g, wp (hashContract cfg p) (f r) Q s g) :
    wp (hashContract cfg p) (HashWorker.perform c >>= f) Q s g :=
  wp_call_bind (fun _ => hc) fun r _ g _ _ _ _ => h r g

/-- What an object store call gives, whatever that is. -/
theorem wp_blob_any {text : String} {c : BlobCmd} :
    wp (hashContract cfg p) (blob text c) (fun _ _ _ => True) s g := by
  refine wp_hash_any trivial fun r g => ?_
  cases r with
  | none => exact wp_raise trivial
  | some r => exact wp_pure trivial

theorem wp_hashUploadObject_any {key : String} : wp (hashContract cfg p) (hashUploadObject key)
    (fun r _ _ => ∀ x, r = .ok x → ∃ data, x = (Sha256.hexSum data, (data.length : Int))) s g := by
  refine wp_bind wp_blob_any (fun _ _ _ _ => nofun) fun (data : Bytes) _ _ _ => wp_pure ?_
  rintro x hx
  exact ⟨data, (Except.ok.inj hx).symm⟩

theorem wp_migrate_any {key hash : String} :
    wp (hashContract cfg p) (migrateToIngestion key hash)
      (fun r _ _ => ∀ path, r = .ok path → path = ingestionObjectKey hash) s g := by
  refine wp_bind wp_blob_any (fun _ _ _ _ => nofun) fun _ _ _ _ => ?_
  refine wp_bind wp_blob_any (fun _ _ _ _ => nofun) fun (found : Bool) _ _ _ => ?_
  refine wp_ite (fun _ => wp_raise nofun) fun _ => ?_
  refine wp_bind wp_blob_any (fun _ _ _ _ => nofun) fun _ _ _ _ => wp_pure ?_
  rintro path hpath
  exact (Except.ok.inj hpath).symm

/-- The document has the file name of the intent and the digest of what was read. -/
theorem wp_hashAndRecord_any (h : Admitted cfg intent.fileName) :
    wp (hashContract cfg p) (hashAndRecord id intent) (fun _ _ _ => True) s g := by
  unfold hashAndRecord
  cases intent.tempBucketPath with
  | none => exact wp_raise trivial
  | some path =>
    refine wp_bind wp_blob_any (fun _ _ _ _ => trivial) fun (found : Bool) _ _ _ => ?_
    refine wp_ite (fun _ => wp_raise trivial) fun _ => ?_
    refine wp_bind wp_hashUploadObject_any (fun _ _ _ _ => trivial) fun x _ _ hx => ?_
    obtain ⟨data, rfl⟩ := hx x rfl
    refine wp_bind wp_migrate_any (fun _ _ _ _ => trivial) fun perm _ _ hperm => ?_
    obtain rfl := hperm perm rfl
    refine wp_hash_any trivial fun now g => ?_
    refine wp_hash_any ⟨h, data, rfl, rfl, rfl⟩ fun r g => ?_
    match r with
    | .ok _ => exact wp_pure trivial
    | .error .lostClaim => exact wp_raise trivial
    | .error (.driver _) => exact wp_raise trivial
    | .error (.intentNotFound _) => exact wp_raise trivial

theorem wp_process_any (h : Admitted cfg intent.fileName) :
    wp (hashContract cfg p) (process cfg.hash id intent) (fun _ _ _ => True) s g := by
  refine wp_ite (fun _ => wp_call (fun _ => trivial) fun _ _ _ _ _ _ _ => trivial) fun _ => ?_
  refine wp_tryExcept (wp_hashAndRecord_any h) (fun _ _ _ _ => trivial) fun e _ g _ => ?_
  cases e with
  | lostClaim => exact wp_pure trivial
  | noTempObject => exact wp_hash_any trivial fun _ _ => wp_pure trivial
  | failed text => exact wp_hash_any trivial fun _ _ => wp_pure trivial

theorem wp_passOver_any {intents : List Intent}
    (h : ∀ intent ∈ intents, Admitted cfg intent.fileName) :
    wp (hashContract cfg p) (passOver cfg.hash id intents) (fun _ _ _ => True) s g := by
  induction intents generalizing g s with
  | nil => exact wp_pure trivial
  | cons intent rest ih =>
    obtain ⟨hintent, hrest⟩ := List.forall_mem_cons.1 h
    refine wp_hash_any trivial fun (cancelled : Bool) g => ?_
    refine wp_ite (fun _ => wp_pure trivial) fun _ => ?_
    refine wp_hash_any trivial fun now g => ?_
    refine wp_hash_any trivial fun n g => ?_
    change Except StoreError Nat at n
    cases n with
    | error _ => exact ih hrest
    | ok n =>
      refine wp_ite (fun _ => ih hrest) fun hn => ?_
      exact wp_bind (wp_process_any hintent) (fun _ _ _ _ => trivial) fun _ _ _ _ => ih hrest

theorem wp_pass_any :
    wp (hashContract cfg p) (pass cfg.hash id) (fun _ _ _ => True) s g := by
  refine wp_call_bind (fun _ => trivial) fun fetched g₁ g₂ hi hx _ _ => ?_
  obtain ⟨ch, -, hx⟩ := hx
  change Except StoreError (List Intent) at fetched
  cases fetched with
  | error _ => exact wp_pure trivial
  | ok intents =>
    have hfetched : ((IntentStore.getIntentsForHashing cfg.hash.batchSize).run ch.hash.faults
        g.upload.db).1 = .ok intents := congrArg Prod.fst hx
    exact wp_passOver_any fun intent hmem =>
      hi.db.intents intent (IntentStore.getIntentsForHashing_ok hfetched intent hmem)

theorem wp_hashProcess : Prog.wp (hashContract cfg p) (p.main cfg.hash) (fun _ _ => True) g := by
  cases p with
  | worker id =>
    refine Prog.wp_bind (Prog.wp_mono _ (?_ : wp _ (HashWorker.run cfg.hash id)
      (fun _ _ _ => True) () g) fun _ _ _ _ => Prog.wp_ret trivial)
    refine wp_loop (fun _ _ _ => True) trivial fun _ s g _ => ?_
    refine wp_hash_any trivial fun (ticked : Bool) g => ?_
    refine wp_ite (fun _ => ?_) fun _ => wp_pure trivial
    exact wp_bind wp_pass_any (fun _ _ _ _ => trivial) fun _ _ _ _ => wp_pure trivial
  | sweeper n =>
    refine Prog.wp_bind (Prog.wp_mono _ (?_ : wp _ (HashSweeper.run cfg.hash)
      (fun _ _ _ => True) () g) fun _ _ _ _ => Prog.wp_ret trivial)
    refine wp_loop (fun _ _ _ => True) trivial fun _ s g _ => ?_
    refine wp_hash_any trivial fun (ticked : Bool) g => ?_
    refine wp_ite (fun _ => ?_) fun _ => wp_pure trivial
    refine wp_hash_any trivial fun now g => ?_
    exact wp_hash_any trivial fun _ _ => wp_pure trivial

end HashWorker

/-! ### The outbox worker -/

section OutboxWorker

variable {cfg : CenterConfig} {id : String} {document : Document} {msg : OutboxMessage}
  {g : CenterWorld} {α : Type}

open Prog OutboxWorker

def entryContract (cfg : CenterConfig) : Contract OutboxSig CenterWorld where
  inv := PublicationInv cfg
  rely _ _ := True
  guard c _ := entryGuard cfg c
  exec c g r g' := ∃ ch, Plausible ch ∧
    (publishReply ch.outbox g.upload.db c, publishAfter ch.outbox g c) = (r, g')

theorem wp_entry {c : OutboxCmd} {f : OutboxSig.Reply c → OutboxProg α} {Q : α → CenterWorld → Prop}
    (hc : entryGuard cfg c)
    (h : ∀ ch g', PublicationInv cfg g → Plausible ch →
      wp (entryContract cfg) (f (publishReply ch.outbox g.upload.db c)) Q g') :
    wp (entryContract cfg) (OutboxWorker.perform c >>= f) Q g := by
  refine wp_perform_bind (fun _ => hc) fun r _ g₂ hi hx _ _ => ?_
  obtain ⟨ch, hch, hx⟩ := hx
  cases hx
  exact h ch g₂ hi hch

/-- A command that may be answered in any way. -/
theorem wp_entry_any {c : OutboxCmd} {f : OutboxSig.Reply c → OutboxProg α}
    {Q : α → CenterWorld → Prop} (hc : entryGuard cfg c)
    (h : ∀ r g, wp (entryContract cfg) (f r) Q g) :
    wp (entryContract cfg) (OutboxWorker.perform c >>= f) Q g :=
  wp_entry hc fun _ g _ _ => h _ g

/-- A last command whose answer is not looked at. -/
theorem wp_entry_last {c : OutboxCmd} (hc : entryGuard cfg c) :
    wp (entryContract cfg) (OutboxWorker.perform c >>= fun _ => pure ()) (fun _ _ => True) g :=
  wp_entry_any hc fun _ _ => wp_ret trivial

/-- What is read of a document is published with a fresh ID and the time. -/
theorem wp_publishMessage_any (h : FromUpload cfg document) (h₀ : 0 ≤ document.retries)
    (hlt : document.retries < cfg.maxAttempts.val) :
    wp (entryContract cfg) (publishMessage cfg.outbox document) (fun _ _ => True) g := by
  refine wp_entry trivial fun ch _ _ hch => ?_
  refine wp_entry trivial fun ch' g _ hch' => ?_
  have hpub : Publication cfg (eventOf cfg.outbox document ch'.outbox.text ch.outbox.time) :=
    ⟨document, _, _, h, h₀, hlt, hch'.1, hch.2, rfl⟩
  change wp _ (publishIngestionEvent (eventOf cfg.outbox document ch'.outbox.text
    ch.outbox.time)) _ g
  unfold publishIngestionEvent
  cases hentry : (eventOf cfg.outbox document ch'.outbox.text ch.outbox.time).toEntry with
  | none => exact wp_ret trivial
  | some fields => exact wp_entry ⟨_, hpub, hentry⟩ fun _ _ _ _ => wp_ret trivial

theorem wp_processMessage_any :
    wp (entryContract cfg) (processMessage cfg.outbox id msg) (fun _ _ => True) g := by
  refine wp_entry trivial fun ch g' hi _ => ?_
  cases hfound : publishReply ch.outbox g.upload.db (.store (.getDocumentByHash msg.hash)) with
  | error e => exact wp_entry_last trivial
  | ok found =>
    change Option Document at found
    cases found with
    | none => exact wp_entry_last trivial
    | some document =>
      have hrun : ((DocumentStore.getDocumentByHash msg.hash).run ch.outbox.faults
          g.upload.db).1 = .ok (some document) :=
        congrArg Prod.fst (PipelineChoice.storeReply_eq hfound)
      have hd := DocumentStore.getDocumentByHash_ok hrun
      obtain ⟨-, h₀, hlt⟩ := hi.db.agree.some hd
      have hfile := hi.db.documents document (Table.find?_eq_some_iff.1 hd).1
      refine wp_bind (wp_mono _ (wp_publishMessage_any hfile h₀ hlt) ?_)
      rintro published g - -
      refine wp_ite (fun _ => wp_entry_last trivial) fun _ => ?_
      refine wp_ite (fun _ => ?_) fun _ => ?_
      · exact wp_perform (fun _ => trivial) fun _ _ _ _ _ _ _ => trivial
      exact wp_entry_last trivial

theorem wp_outboxPass_any {messages : List OutboxMessage} :
    wp (entryContract cfg) (passOver cfg.outbox id messages) (fun _ _ => True) g := by
  induction messages generalizing g with
  | nil => exact wp_ret trivial
  | cons msg rest ih =>
    refine wp_entry_any trivial fun (cancelled : Bool) g => ?_
    refine wp_ite (fun _ => wp_ret trivial) fun _ => ?_
    refine wp_entry_any trivial fun now g => ?_
    refine wp_entry_any trivial fun claimed g => ?_
    change Except StoreError Bool at claimed
    cases claimed with
    | error _ => exact ih
    | ok claimed =>
      refine wp_ite (fun _ => ih) fun _ => ?_
      exact wp_seq wp_processMessage_any fun _ _ => ih

theorem wp_outboxProcess : wp (entryContract cfg) (OutboxWorker.run cfg.outbox id)
    (fun _ _ => True) g := by
  refine wp_iterate (fun _ _ => True) trivial fun _ g _ => ?_
  refine wp_entry_any trivial fun (ticked : Bool) g => ?_
  refine wp_ite (fun _ => wp_bind ?_) fun _ => wp_ret trivial
  refine wp_entry_any trivial fun fetched g => ?_
  change Except StoreError (List OutboxMessage) at fetched
  cases fetched with
  | error _ => exact wp_ret (wp_ret trivial)
  | ok messages => exact wp_mono _ wp_outboxPass_any fun _ _ _ _ => wp_ret trivial

theorem wp_sweeperProcess : wp (entryContract cfg) (OutboxSweeper.run cfg.outbox)
    (fun _ _ => True) g := by
  refine wp_iterate (fun _ _ => True) trivial fun _ g _ => ?_
  refine wp_entry_any trivial fun (ticked : Bool) g => ?_
  refine wp_ite (fun _ => ?_) fun _ => wp_ret trivial
  refine wp_entry_any trivial fun now g => ?_
  exact wp_entry_any trivial fun _ _ => wp_ret trivial

end OutboxWorker

def publicationCertificate (cfg : CenterConfig) :
    Actors.Certificate (publication cfg) (publicationRules cfg) where
  inv := PublicationInv cfg
  rely _ _ _ := True
  guard p c _ := publicationGuard cfg p c
  fresh _ _ := True
  rely_refl _ _ := trivial
  rely_trans _ _ _ _ _ _ := trivial
  fresh_rely _ _ _ _ _ _ := trivial
  enter_ok _ _ h _ _ := ⟨h, fun _ _ => trivial⟩
  call_ok _ _ _ _ h hc _ := ⟨publication_call_ok h hc, fun _ _ => trivial⟩
  leave_ok p _ h :=
    ⟨⟨by cases p <;> exact h.db, by cases p <;> exact h.entries⟩, fun _ _ => trivial⟩
  env_ok e _ h _ := ⟨publication_env_ok e h, fun _ => trivial⟩
  main_ok p _ _ _ _ _ _ := match p with
    | .hash _ => wp_hashProcess
    | .outboxWorker _ => wp_outboxProcess
    | .outboxSweeper _ => wp_sweeperProcess

theorem publicationInv_start {cfg : CenterConfig} : PublicationInv cfg .start where
  db := ⟨agree_start _, (fun _ h => nomatch h), (fun _ h => nomatch h)⟩
  entries _ h := by cases h

/-- Every entry of the stream is about a file that was let in. -/
theorem publications {cfg : CenterConfig} {run : (publication cfg).Config}
    (h : (publication cfg).Reachable (publicationRules cfg) .start run) :
    ∀ fields ∈ run.shared.entries, Entry cfg fields :=
  ((publicationCertificate cfg).sound publicationInv_start (fun _ => trivial) h).entries

/-! ### What the consumer makes of it -/

section Read

variable {cfg : CenterConfig} {e : StreamIngestionEvent} {fields : Fields}

theorem Publication.filled (h : Publication cfg e) : e.Filled := by
  obtain ⟨d, id, now, ⟨⟨request, hname⟩, data, hhash, hsize, hpath⟩, -, -, hid, hnow, rfl⟩ := h
  exact {
    id := hid
    hash := fun he => Sha256.hexSum_ne_empty data (hhash.symm.trans he)
    filename := ((cfg.handlers.createUpload_ok).1 hname).2.1
    bucketPath := fun he => ingestionObjectKey_ne_empty _ (hpath.symm.trans he)
    size := hsize.symm.subst (Int.natCast_nonneg _)
    createdAt := hnow }

/-- The consumer takes the version it knows, a payload within its bound and an attempt number
within its bound, and nothing else can go wrong. -/
theorem accepted_publication (h : Publication cfg e) (hentry : e.toEntry = some fields) :
    StreamConsumer.accepted (some fields) =
      if cfg.outbox.schemaVersion = 1 ∧ e.attempts ≤ maxInteger ∧
          e.envelope + strLength goEscaped (ofString e.filename) ≤ maxPayloadBytes
      then some e.received else none := by
  obtain ⟨payload, hp, rfl⟩ := Option.map_eq_some_iff.1 hentry
  have hparse := parse_marshal h.filled hp
  have hlength := StreamIngestionEvent.length_marshal hp
  rw [length_goQuote] at hlength
  obtain ⟨d, id, now, -, h₀, -, -, -, he⟩ := h
  have hversion : e.schemaVersion = cfg.outbox.schemaVersion := he ▸ rfl
  have hattempts : 0 ≤ e.attempts := he ▸ h₀
  rw [hversion] at hparse
  simp only [StreamConsumer.accepted, Option.bind_some, ingestEventType, hlength, hparse]
  by_cases hv : cfg.outbox.schemaVersion = 1 <;> by_cases hle : e.attempts ≤ maxInteger <;>
    by_cases hroom : e.envelope + strLength goEscaped (ofString e.filename) ≤ maxPayloadBytes <;>
    simp [hv, hle, hroom, hattempts, Except.toOption]

end Read

/-- An accepted upload's event is read exactly if the file has `schema_version = 1`, the attempt
number is within 32 bits and the file name leaves the payload within its bound; every other event
is acknowledged and dropped. -/
theorem published_is_read {file : Settings.Go.Config} {cfg : CenterConfig} (hcfg : cfg.From file)
    {run : (publication cfg).Config}
    (h : (publication cfg).Reachable (publicationRules cfg) .start run)
    {fields : Fields} (hf : fields ∈ run.shared.entries) (id : EntryId) :
    ∃ e : StreamIngestionEvent, e.toEntry = some fields ∧ Admitted cfg e.filename ∧
      e.attempts < file.ingestion.maxAttempts ∧
      (StreamConsumer.parse id (some fields) = pure (some e.received) ↔
        file.go.outbox.schemaVersion = 1 ∧ e.attempts ≤ maxInteger ∧
          e.envelope + strLength goEscaped (ofString e.filename) ≤ maxPayloadBytes) ∧
      (StreamConsumer.parse id (some fields) = pure (some e.received) ∨
        StreamConsumer.parse id (some fields) = do StreamConsumer.ack id; return none) := by
  obtain ⟨e, hpub, hentry⟩ := publications h fields hf
  have haccepted := accepted_publication hpub hentry
  obtain ⟨d, _, _, ⟨hname, -⟩, -, hlt, -, -, he⟩ := hpub
  refine ⟨e, hentry, he ▸ hname, hcfg.maxAttempts ▸ he ▸ hlt, ?_, ?_⟩
  · rw [StreamConsumer.parse_eq_pure, haccepted, ← hcfg.schemaVersion]
    split <;> simp_all
  · rw [StreamConsumer.parse_eq_pure, StreamConsumer.parse, haccepted]
    split
    · exact .inl rfl
    · exact .inr rfl

/-! ### One upload under the repository's file -/

/-- The configuration that the file sets. -/
def shipped (schemaVersion : Int) : CenterConfig where
  handlers := ⟨[".pdf", ".txt", ".md"], Char.toLower⟩
  hash := ⟨20, 3, threeAttempts.pos, 300000000000, false⟩
  outbox := ⟨100, 3, 1800000000000, schemaVersion, false⟩
  maxAttempts := threeAttempts

/-- The file with another version for the events. -/
def versioned (schemaVersion : Int) : Settings.Table :=
  Settings.configToml.put ["go", "outbox", "schema_version"] (.int schemaVersion)

def answered (flag : Bool) : CenterChoice where
  hash := ⟨.ok, [], 0, flag⟩
  outbox := ⟨.ok, .other [], ⟨false, false⟩, .driver none, [], fun _ => false, fun _ => 0,
    ⟨.ok, .unavailable [], [], [], 0⟩, 0, flag, "e"⟩

/-- A client uploads `abc` as `a.PDF`; one worker stores it and another publishes it. -/
def oneUpload (cfg : CenterConfig) : List (publication cfg).Step :=
  [.env (.createUpload "u" (some ⟨"a.PDF"⟩) []), .env (.put "u" [97, 98, 99]),
    .env (.confirmUpload "u" []), .start (.hash (.worker "w")), .unfold (.hash (.worker "w"))] ++
  ([true, true, false] ++ List.replicate 9 true).map
    (fun flag => .call (.hash (.worker "w")) (answered flag)) ++
  [.start (.outboxWorker "o"), .unfold (.outboxWorker "o")] ++
  ([true, true, false] ++ List.replicate 6 true).map
    (fun flag => .call (.outboxWorker "o") (answered flag))

def readings (g : CenterWorld) : List Bool :=
  g.entries.map fun fields => (StreamConsumer.accepted (some fields)).isSome

def fileOf (schemaVersion : Int) : Settings.Go.Config :=
  (Settings.Go.decode (versioned schemaVersion)).value

theorem shipped_from (v : Int) (hv : v = 1 ∨ v = 2) : (shipped v).From (fileOf v) := by
  rcases hv with rfl | rfl <;> constructor <;> decide +kernel

theorem oneUpload_allowed (v : Int) (hv : v = 1 ∨ v = 2) :
    (publicationRules (shipped v)).AllowsAll ((publication (shipped v)).init .start)
      (oneUpload (shipped v)) := by
  rcases hv with rfl | rfl <;> decide +kernel

theorem oneUpload_entry {v : Int} {b : Bool} (hv : v = 1 ∨ v = 2)
    (h : (publication (shipped v)).leaves .start (oneUpload (shipped v)) readings = some [b]) :
    ∃ run, (publication (shipped v)).Reachable (publicationRules (shipped v)) .start run ∧
      ∃ fields ∈ run.shared.entries, (StreamConsumer.accepted (some fields)).isSome = b := by
  obtain ⟨run, hreach, hrun⟩ := Actors.Reachable.of_leaves (oneUpload_allowed v hv) h
  obtain ⟨fields, hentries, hread⟩ := List.map_eq_singleton_iff.1 hrun
  exact ⟨run, hreach, fields, hentries ▸ List.mem_singleton_self fields, hread⟩

theorem published_is_read_shipped : ∃ run,
    (publication (shipped 1)).Reachable (publicationRules (shipped 1)) .start run ∧
    ∃ fields ∈ run.shared.entries, ∃ event,
      StreamConsumer.parse 1 (some fields) = pure (some event) := by
  have hleaves : (publication (shipped 1)).leaves .start (oneUpload (shipped 1)) readings =
      some [true] := by decide +kernel
  obtain ⟨run, hreach, fields, hf, hread⟩ := oneUpload_entry (.inl rfl) hleaves
  obtain ⟨e, -, -, -, -, hparse | hdropped⟩ :=
    published_is_read (shipped_from 1 (.inl rfl)) hreach hf 1
  · exact ⟨run, hreach, fields, hf, _, hparse⟩
  · obtain ⟨event, haccepted⟩ := Option.isSome_iff_exists.1 hread
    exact ⟨run, hreach, fields, hf, event, StreamConsumer.parse_eq_pure.2 haccepted⟩

/-- A file that both services accept, under which the consumer drops what the center accepted. -/
theorem accepted_upload_dropped :
    Settings.Go.load (versioned 2) = .ok (fileOf 2) ∧
    (∃ service, Settings.Python.load (versioned 2) = .ok service) ∧
    (shipped 2).From (fileOf 2) ∧
    ∃ run, (publication (shipped 2)).Reachable (publicationRules (shipped 2)) .start run ∧
      ∃ fields ∈ run.shared.entries,
        StreamConsumer.parse 1 (some fields) = do StreamConsumer.ack 1; return none := by
  refine ⟨?_, ?_, shipped_from 2 (.inr rfl), ?_⟩
  · have hproblems : Settings.Go.problems (versioned 2) = [] := by decide +kernel
    rw [Settings.Go.load, if_pos hproblems, fileOf]
  · have hproblems : (Settings.Python.build (versioned 2)).2 = [] := by decide +kernel
    exact ⟨_, Settings.Python.load_of_silent hproblems⟩
  · have hleaves : (publication (shipped 2)).leaves .start (oneUpload (shipped 2)) readings =
        some [false] := by decide +kernel
    obtain ⟨run, hreach, fields, hf, hread⟩ := oneUpload_entry (.inr rfl) hleaves
    have hnone : StreamConsumer.accepted (some fields) = none := by
      simpa using hread
    exact ⟨run, hreach, fields, hf, by rw [StreamConsumer.parse, hnone]⟩

end Pipeline

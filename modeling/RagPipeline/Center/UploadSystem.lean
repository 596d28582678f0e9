import RagPipeline.Center.HashWorker
import RagPipeline.Interact.Actors

/-!
# Uploads and hash workers

Any number of hash workers and sweepers over one database and two buckets, with clients that
create intents, put objects through presigned URLs and confirm. Two conditions on a run are
stated on its steps: failed attempts stay retryable, and no put comes between a read and its copy.

## Main definitions

* `UploadWorld`, `uploadSystem`: what is shared, and who acts on it.
* `Care`, `uploadRules`: the two conditions.
-/
namespace Center

open Interact Relational Wire

inductive HashProcess where
  /-- A worker is its ID: each goroutine draws its own. -/
  | worker (id : String)
  | sweeper (n : Nat)
  deriving DecidableEq

/-- An object that was read and not copied since, by the digest of what was read. -/
structure Reading where
  process : HashProcess
  key : String
  digest : String
  deriving DecidableEq

/-- The database and the buckets; the intents that were confirmed while their object was there;
who has seen the object of an intent since claiming it; and what was read and not yet copied. -/
structure UploadWorld where
  db : Database
  buckets : Buckets
  clock : Time
  confirmed : List String
  seen : List (HashProcess × String)
  reading : List Reading

def UploadWorld.start : UploadWorld :=
  ⟨.start .empty, ⟨fun _ => none, fun _ => none⟩, 0, [], [], []⟩

structure HashChoice where
  fate : Fate
  faults : List Bool
  time : Time
  flag : Bool

namespace UploadWorld

/-- An UPLOADED intent that is claimed has to be looked for anew. -/
def seenAfter (p : HashProcess) (c : HashCmd) (ch : HashChoice) (g : UploadWorld) :
    List (HashProcess × String) :=
  match c with
  | .store (.updateIntentToHashing id _ _) =>
    if (g.db.intents.find? id).any fun i => i.status = .uploaded then
      g.seen.filter (· ≠ (p, id))
    else g.seen
  | .blob (.statUpload key) =>
    if ch.fate = .ok ∧ (g.buckets.upload key).isSome then (p, key) :: g.seen else g.seen
  | _ => g.seen

def readingAfter (p : HashProcess) (c : HashCmd) (ch : HashChoice) (g : UploadWorld) :
    List Reading :=
  match c with
  | .blob (.getUpload key) =>
    match ch.fate, g.buckets.upload key with
    | .ok, some data => ⟨p, key, Sha256.hexSum data⟩ :: g.reading.filter (·.process ≠ p)
    | _, _ => g.reading
  | .blob (.copyToIngestion ..) => g.reading.filter (·.process ≠ p)
  | _ => g.reading

def reply (c : HashCmd) (ch : HashChoice) (g : UploadWorld) : HashSig.Reply c :=
  match c with
  | .store c => (c.apply ch.faults g.db).1
  | .blob c => (c.respond ch.fate g.buckets).1
  | .now => ch.time
  | .cancelled | .tick => ch.flag
  | .done => ()

def after (p : HashProcess) (c : HashCmd) (ch : HashChoice) (g : UploadWorld) : UploadWorld where
  db := match c with
    | .store c => (c.apply ch.faults g.db).2
    | _ => g.db
  buckets := match c with
    | .blob c => (c.respond ch.fate g.buckets).2
    | _ => g.buckets
  clock := g.clock
  confirmed := g.confirmed
  seen := g.seenAfter p c ch
  reading := g.readingAfter p c ch

/-- What `CreateIntent` inserts at `now`: the object path is the ID, and the URL is good for two
hours. -/
def intentAt (now : Time) (id fileName : String) : Intent where
  id
  fileName
  tempBucketPath := some id
  hash := none
  createdAt := now
  expiresAt := now + 7200000000000
  uploadedAt := none
  status := .waiting
  claimedBy := none
  claimedAt := none
  retries := 0

/-- The URL of some intent lets an object be put here now. -/
def presigned (g : UploadWorld) (key : String) : Bool :=
  g.db.intents.rows.any fun i => i.tempBucketPath = some key ∧ g.clock ≤ i.expiresAt

/-- The confirm that turns an intent to UPLOADED finds its object in the bucket. -/
def confirmedAfter (g : UploadWorld) (id : String) (faults : List Bool) : List String :=
  match ((StoreCmd.updateIntentToUploaded id g.clock).apply faults g.db).1 with
  | .ok (n : Nat) => if n ≠ 0 ∧ (g.buckets.upload id).isSome then id :: g.confirmed else g.confirmed
  | .error _ => g.confirmed

end UploadWorld

inductive UploadEvent where
  | tick (duration : Nat)
  | createIntent (id fileName : String) (faults : List Bool)
  | put (key : String) (data : Bytes)
  | confirmUpload (id : String) (faults : List Bool)
  | expire (id : String) (faults : List Bool)

def UploadEvent.apply : UploadEvent → UploadWorld → UploadWorld
  | tick duration, g => { g with clock := g.clock + duration }
  | createIntent id fileName faults, g =>
    { g with
      db := ((StoreCmd.createIntent (UploadWorld.intentAt g.clock id fileName)).apply
        faults g.db).2 }
  | put key data, g =>
    if g.presigned key then
      { g with buckets := { g.buckets with upload := Function.update g.buckets.upload key data } }
    else g
  | confirmUpload id faults, g =>
    { g with
      db := ((StoreCmd.updateIntentToUploaded id g.clock).apply faults g.db).2
      confirmed := g.confirmedAfter id faults }
  | expire id faults, g =>
    { g with db := ((StoreCmd.updateIntentToExpired id g.clock).apply faults g.db).2 }

def HashProcess.main (cfg : HashConfig) : HashProcess → Prog HashSig Unit
  | worker id => (HashWorker.run cfg id ()).bind fun _ => .ret ()
  | sweeper _ => (HashSweeper.run cfg ()).bind fun _ => .ret ()

theorem HashProcess.issues_main {cfg : HashConfig} (p : HashProcess) :
    Prog.Issues (hashCommands cfg) (p.main cfg) := by
  cases p with
  | worker id => exact Prog.issues_bind (HashWorker.issues_run ()) fun _ => trivial
  | sweeper n => exact Prog.issues_bind (HashSweeper.issues_run ()) fun _ => trivial

def uploadSystem (cfg : HashConfig) : Actors HashProcess UploadWorld where
  sig _ := HashSig
  main p := p.main cfg
  Choice := HashChoice
  respond p c ch g := (g.reply c ch, g.after p c ch)
  enter _ g := g
  leave p g := { g with reading := g.reading.filter (·.process ≠ p) }
  Env := UploadEvent
  env := UploadEvent.apply

/-- The object of the intent is still needed: some worker will look for it. -/
def Owed (g : UploadWorld) (i : Intent) : Bool :=
  i.id ∈ g.confirmed ∧ (i.status = .uploaded ∨ i.status = .hashing ∧
    i.claimedBy.all fun id => (HashProcess.worker id, i.id) ∉ g.seen)

inductive Care where
  /-- No object is removed while it is needed, and no attempt is handed back without its object. -/
  | retryable
  /-- No put changes an object between its read and its copy. -/
  | addressed
  deriving DecidableEq

/-- The attempt at this intent can be handed back: the next one finds the object, or there is no
next one. -/
def Returnable (cfg : HashConfig) (g : UploadWorld) (i : Intent) : Bool :=
  i.id ∈ g.confirmed → i.retries + 1 < cfg.maxRetries → (g.buckets.upload i.id).isSome

def uploadRules (cfg : HashConfig) : Care → (uploadSystem cfg).Rules
  | .retryable => {
      start := fun _ _ => True
      call := fun _ c ch g => match (c : HashCmd) with
        | .blob (.removeUpload key) => HashChoice.fate ch ≠ .refused →
            ∀ i ∈ g.db.intents.rows, i.id = key → ¬ Owed g i
        | .store (.releaseIntentClaim id claimedBy _) =>
            ∀ i ∈ g.db.intents.rows, Store.heldBy id claimedBy i → Returnable cfg g i
        | .store (.recoverStaleIntents cutoff _) =>
            ∀ i ∈ g.db.intents.rows, IntentStore.stale cutoff i → Returnable cfg g i
        | _ => True
      env := fun _ _ => True }
  | .addressed => {
      start := fun _ _ => True
      call := fun _ _ _ _ => True
      env := fun e g => match (e : UploadEvent) with
        | .put key data => ∀ r ∈ g.reading, r.key = key → Sha256.hexSum data = r.digest
        | _ => True }

section Decidable

variable {cfg : HashConfig} {care : Care}

instance (p : HashProcess) (g : UploadWorld) : Decidable ((uploadRules cfg care).start p g) :=
  match care with
  | .retryable | .addressed => .isTrue trivial

instance (p : HashProcess) (c : ((uploadSystem cfg).sig p).Cmd) (ch : (uploadSystem cfg).Choice)
    (g : UploadWorld) : Decidable ((uploadRules cfg care).call p c ch g) := by
  change HashCmd at c
  cases care with
  | addressed => exact .isTrue trivial
  | retryable =>
    cases c with
    | store c => cases c <;> first | exact .isTrue trivial | exact List.decidableBAll _ _
    | blob c =>
      cases c <;> first | exact .isTrue trivial | exact inferInstanceAs (Decidable (_ → _))
    | _ => exact .isTrue trivial

instance (e : (uploadSystem cfg).Env) (g : UploadWorld) :
    Decidable ((uploadRules cfg care).env e g) := by
  change UploadEvent at e
  cases care with
  | retryable => exact .isTrue trivial
  | addressed => cases e <;> first | exact .isTrue trivial | exact List.decidableBAll _ _

end Decidable

end Center

import RagPipeline.Center.Buckets
import RagPipeline.Center.StoreCmd
import RagPipeline.Interact.Method

/-!
# The hash worker and its sweeper

`hashing.Worker` and `hashing.Sweeper` with the object store client they call, method by method.
A context is seen through `cancelled` and `tick`: a call under a context that ends is a call that
returns an error.

## Main definitions

* `HashWorker.hashAndRecord`: one attempt at an intent.
* `HashWorker.run`, `HashSweeper.run`: the two loops.
-/
namespace Center

open Interact Method Wire

structure HashConfig where
  batchSize : Nat
  /-- Attempts before an intent is marked FAILED, at least one as the configuration check has it. -/
  maxRetries : Int
  maxRetries_pos : 1 ≤ maxRetries
  staleThreshold : Int
  /-- The fault hook `hash-hang`. -/
  hangAfterClaim : Bool

inductive HashCmd where
  | store (c : StoreCmd)
  | blob (c : BlobCmd)
  | now
  /-- `ctx.Err() != nil`. -/
  | cancelled
  /-- Wait for the ticker or the context; false is the context. -/
  | tick
  | done

def HashSig : Signature where
  Cmd := HashCmd
  Reply
    | .store c => Except StoreError c.Result
    | .blob c => Option c.Reply
    | .now => Time
    | .cancelled | .tick => Bool
    | .done => Unit

/-- What `process` tells apart. -/
inductive HashError where
  | lostClaim
  | noTempObject
  /-- Any other error, by the text it is wrapped in. -/
  | failed (text : String)
  deriving DecidableEq

abbrev HashMethod := Method HashSig Unit HashError

namespace HashWorker

def perform (c : HashCmd) : HashMethod (HashSig.Reply c) := call (S := HashSig) c

/-- An object store call whose error is wrapped. -/
def blob (text : String) (c : BlobCmd) : HashMethod c.Reply := do
  match ← perform (.blob c) with
  | some r => return r
  | none => raise (.failed text)

def existsInUploadBucket (objectName : String) : HashMethod Bool :=
  blob "check temp object" (.statUpload objectName)

/-- The digest and the size of what one read of the object gives. -/
def hashUploadObject (objectName : String) : HashMethod (String × Int) := do
  let data ← blob "hash temp object" (.getUpload objectName)
  return (Sha256.hexSum data, data.length)

/-- Copy, look whether the copy landed, remove the original. -/
def migrateToIngestion (uploadObjectName sha256Hash : String) : HashMethod String := do
  let destKey := ingestionObjectKey sha256Hash
  blob "move to ingestion bucket" (.copyToIngestion uploadObjectName destKey)
  let found ← blob "move to ingestion bucket" (.statIngestion destKey)
  if !found then
    raise (.failed "move to ingestion bucket")
  blob "move to ingestion bucket" (.removeUpload uploadObjectName)
  return destKey

variable (cfg : HashConfig) (id : String)

/-- The document of an intent; the columns that are left out are the store's to fill. -/
def documentOf (intent : Intent) (hash : String) (size : Int) (permPath : String) : Document where
  hash
  permBucketPath := permPath
  fileName := intent.fileName
  size
  status := .processing
  retries := 0
  createdAt := 0
  updatedAt := 0

def startIngestion (document : Document) (intentID : String) : HashMethod Unit := do
  let now ← perform .now
  match ← perform (.store (.startIngestion now document intentID id)) with
  | .ok _ => return ()
  | .error .lostClaim => raise .lostClaim
  | .error _ => raise (.failed "")

def hashAndRecord (intent : Intent) : HashMethod Unit := do
  match intent.tempBucketPath with
  | none => raise .noTempObject
  | some tempPath =>
    let found ← existsInUploadBucket tempPath
    if !found then
      raise .noTempObject
    let (hash, size) ← hashUploadObject tempPath
    let permPath ← migrateToIngestion tempPath hash
    startIngestion id (documentOf intent hash size permPath) intent.id

def markFailed (intentID : String) : HashMethod Unit := do
  let _ ← perform (.store (.markIntentFailed intentID id))

def releaseClaim (intentID : String) : HashMethod Unit := do
  let _ ← perform (.store (.releaseIntentClaim intentID id cfg.maxRetries))

/-- One claimed intent to an outcome. -/
def process (intent : Intent) : HashMethod Unit :=
  if cfg.hangAfterClaim then
    perform .done
  else
    tryExcept (hashAndRecord id intent) fun
      | .lostClaim => pure ()
      | .noTempObject => markFailed id intent.id
      | .failed _ => releaseClaim cfg id intent.id

/-- Claim and process what a fetch brought. -/
def passOver : List Intent → HashMethod Unit
  | [] => pure ()
  | intent :: rest => do
    let cancelled : Bool ← perform .cancelled
    if cancelled then
      return ()
    let now ← perform .now
    let n : Except StoreError Nat ← perform (.store (.updateIntentToHashing intent.id id now))
    match n with
    | .error _ => passOver rest
    | .ok n =>
      if n = 0 then
        passOver rest
      else
        process cfg id intent
        passOver rest

def pass : HashMethod Unit := do
  let fetched : Except StoreError (List Intent) ←
    perform (.store (.getIntentsForHashing cfg.batchSize))
  match fetched with
  | .error _ => return ()
  | .ok intents => passOver cfg id intents

def run : HashMethod Unit := loop () fun _ => do
  let ticked : Bool ← perform .tick
  if ticked then
    pass cfg id
    return .inl ()
  else
    return .inr ()

end HashWorker

namespace HashSweeper

open HashWorker

def run (cfg : HashConfig) : HashMethod Unit := loop () fun _ => do
  let ticked : Bool ← perform .tick
  if ticked then
    let now : Time ← perform .now
    let _ ← perform (.store (.recoverStaleIntents (now - cfg.staleThreshold) cfg.maxRetries))
    return .inl ()
  else
    return .inr ()

end HashSweeper

/-! ### What they ask of the store -/

/-- The commands of the workers and sweepers of one configuration. -/
def hashCommands (cfg : HashConfig) : HashCmd → Prop
  | .store (.getIntentsForHashing _) | .store (.updateIntentToHashing ..)
  | .store (.markIntentFailed ..) | .store (.startIngestion ..) => True
  | .store (.releaseIntentClaim _ _ maxRetries) => maxRetries = cfg.maxRetries
  | .store (.recoverStaleIntents _ maxRetries) => maxRetries = cfg.maxRetries
  | .store _ => False
  | _ => True

section Commands

variable {cfg : HashConfig} {id : String} {intent : Intent}

open HashWorker

theorem issues_blob {text : String} {c : BlobCmd} : Issues (hashCommands cfg) (blob text c) := by
  refine issues_call_bind trivial fun r => ?_
  cases r with
  | none => exact issues_raise
  | some r => exact issues_pure

theorem issues_migrateToIngestion {key hash : String} :
    Issues (hashCommands cfg) (migrateToIngestion key hash) := by
  refine issues_bind issues_blob fun _ => issues_bind issues_blob fun found => ?_
  refine issues_ite (fun _ => trivial) ?_
  exact issues_bind issues_blob fun _ => issues_pure

theorem issues_hashAndRecord : Issues (hashCommands cfg) (hashAndRecord id intent) := by
  unfold hashAndRecord
  cases intent.tempBucketPath with
  | none => exact issues_raise
  | some path =>
    refine issues_bind issues_blob fun found => issues_ite (fun _ => trivial) ?_
    refine issues_bind (issues_bind issues_blob fun _ => issues_pure) fun x => ?_
    refine issues_bind issues_migrateToIngestion fun perm => ?_
    refine issues_call_bind trivial fun now => issues_call_bind trivial fun r => ?_
    match r with
    | .ok _ => exact issues_pure
    | .error .lostClaim => exact issues_raise
    | .error (.driver _) => exact issues_raise
    | .error (.intentNotFound _) => exact issues_raise

theorem issues_process : Issues (hashCommands cfg) (process cfg id intent) := by
  refine issues_ite (issues_call trivial) (issues_tryExcept issues_hashAndRecord fun e => ?_)
  cases e with
  | lostClaim => exact issues_pure
  | noTempObject => exact issues_call_bind trivial fun _ => issues_pure
  | failed text => exact issues_call_bind rfl fun _ => issues_pure

theorem issues_passOver {intents : List Intent} :
    Issues (hashCommands cfg) (passOver cfg id intents) := by
  induction intents with
  | nil => exact issues_pure
  | cons intent rest ih =>
    refine issues_call_bind trivial fun (cancelled : Bool) => issues_ite issues_pure ?_
    refine issues_call_bind trivial fun now => issues_call_bind trivial fun n => ?_
    change Except StoreError Nat at n
    cases n with
    | error _ => exact ih
    | ok n => exact issues_ite ih (issues_bind issues_process fun _ => ih)

theorem HashWorker.issues_run : Issues (hashCommands cfg) (HashWorker.run cfg id) := by
  refine issues_loop fun _ => issues_call_bind trivial fun (ticked : Bool) =>
    issues_ite ?_ issues_pure
  refine issues_bind (issues_call_bind trivial fun fetched => ?_) fun _ => issues_pure
  change Except StoreError (List Intent) at fetched
  cases fetched with
  | error _ => exact issues_pure
  | ok intents => exact issues_passOver

theorem HashSweeper.issues_run : Issues (hashCommands cfg) (HashSweeper.run cfg) := by
  refine issues_loop fun _ => issues_call_bind trivial fun (ticked : Bool) =>
    issues_ite ?_ issues_pure
  refine issues_call_bind trivial fun now => ?_
  exact issues_call_bind rfl fun _ => issues_pure

end Commands

end Center

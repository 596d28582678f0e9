import RagPipeline.Center.Admission
import RagPipeline.Interact.Method

/-!
# The upload service

`upload.Service` and the handlers over it, method by method. Each request reads the clock once:
`ConfirmUpload` before its first statement, `GetUploadStatus` after it has read the intent.

## Main definitions

* `Service.createIntent`, `Service.confirmUpload`, `Service.getUploadStatus`.
* `Service.statusAt`: what a poll answers of a row that it has read, up to the document.
-/
namespace Center

open Interact Method

def IntentState.text : IntentState → String
  | unknown => "UNKNOWN"
  | waiting => "WAITING"
  | uploaded => "UPLOADED"
  | hashing => "HASHING"
  | hashed => "HASHED"
  | expired => "EXPIRED"
  | failed => "FAILED"

def DocumentStatus.text : DocumentStatus → String
  | processing => "PROCESSING"
  | indexed => "INDEXED"
  | failed => "FAILED"

structure UploadDocumentResponse where
  id : String
  fileName : String
  uploadURL : String
  status : String
  createdAt : Time
  expiresAt : Time

structure ConfirmUploadResponse where
  id : String
  fileName : String
  status : String
  uploadedAt : Option Time

structure UploadStatusResponse where
  id : String
  fileName : String
  status : String
  uploadedAt : Option Time

inductive UploadResponse where
  | created (body : UploadDocumentResponse)
  | confirmed (body : ConfirmUploadResponse)
  | status (body : UploadStatusResponse)
  | error (e : HttpError)

inductive UploadCmd where
  | store (c : StoreCmd)
  | presignedUploadURL (objectPath : String) (expirationDuration : Int)
  | now
  | uuid
  | respond (r : UploadResponse)

def UploadSig : Signature where
  Cmd := UploadCmd
  Reply
    | .store c => Except StoreError c.Result
    | .presignedUploadURL .. => Option String
    | .now => Time
    | .uuid => String
    | .respond _ => Unit

/-- The errors a handler tells apart; some come with the intent. -/
inductive UploadError where
  | intentExpired (intent : Intent)
  | intentFailed (intent : Intent)
  | intentNotFound (id : String)
  | intentUnknown
  /-- Any other error, by the text it is wrapped in. -/
  | failed (text : String)

abbrev UploadMethod := Method UploadSig Unit UploadError

namespace Service

def perform (c : UploadCmd) : UploadMethod (UploadSig.Reply c) := call (S := UploadSig) c

/-- A method of the store whose error is wrapped. -/
def store (text : String) (c : StoreCmd) : UploadMethod c.Result := do
  let r : Except StoreError c.Result ← perform (.store c)
  match r with
  | .ok r => return r
  | .error _ => raise (.failed text)

/-- `errors.Is(err, ErrIntentNotFound)` goes through as it is. -/
def getIntent (id : String) : UploadMethod Intent := do
  let r : Except StoreError Intent ← perform (.store (.getIntent id))
  match r with
  | .ok intent => return intent
  | .error (.intentNotFound id) => raise (.intentNotFound id)
  | .error _ => raise (.failed "get upload_intent")

def expirationDuration : Int := 7200000000000

def createIntent (fileName : String) : UploadMethod (Intent × String) := do
  let now : Time ← perform .now
  let id : String ← perform .uuid
  let url : Option String ← perform (.presignedUploadURL id expirationDuration)
  match url with
  | none => raise (.failed "failed to create url")
  | some uploadURL =>
    let intent := UploadWorld.intentAt now id fileName
    store "create upload intent" (.createIntent intent)
    return (intent, uploadURL)

/-- The cases in which `resolveLostGate` does not go on to expire the intent. -/
def verdict (intent : Intent) : Option (Except UploadError Intent) :=
  match intent.status with
  | .expired => some (.error (.intentExpired intent))
  | .unknown => some (.error .intentUnknown)
  | .hashed | .hashing | .uploaded => some (.ok intent)
  | .failed => some (.error (.intentFailed intent))
  | .waiting => none

/-- One call of `resolveLostGate`; `inl` is the call it makes of itself. -/
def lostGateRound (id : String) (now : Time) : UploadMethod (Unit ⊕ Intent) := do
  let intent ← getIntent id
  match verdict intent with
  | some (.ok intent) => return .inr intent
  | some (.error e) => raise e
  | none =>
    let rows : Nat ← store "update upload_intent to expired" (.updateIntentToExpired id now)
    if rows = 0 then
      return .inl ()
    else
      raise (.intentExpired { intent with status := .expired })

def resolveLostGate (id : String) (now : Time) : UploadMethod Intent :=
  loop () fun _ => lostGateRound id now

def confirmUpload (id : String) : UploadMethod Intent := do
  let now : Time ← perform .now
  let rows : Nat ← store "update upload_intent to uploaded" (.updateIntentToUploaded id now)
  if rows = 0 then
    resolveLostGate id now
  else
    let intent ← getIntent id
    return { intent with status := .uploaded, uploadedAt := some now }

/-- What a poll that reads the clock after the row makes of it: a status, or the document to ask. -/
def statusAt (now : Time) (intent : Intent) : Except UploadError (String ⊕ String) :=
  if intent.status = .waiting ∧ ¬ now < intent.expiresAt then .ok (.inl IntentState.expired.text)
  else match intent.hash with
    | some hash => .ok (.inr hash)
    | none =>
      if intent.status = .hashed ∨ intent.status = .hashing then
        .ok (.inl DocumentStatus.processing.text)
      else if intent.status = .unknown then .error .intentUnknown
      else .ok (.inl intent.status.text)

/-- The foreign key keeps the document from missing. -/
def getDocumentStatus (hash : String) : UploadMethod String := do
  let found : Option Document ← store "get document" (.getDocumentByHash hash)
  match found with
  | none => raise (.failed "links to missing document")
  | some document => return document.status.text

def statusOf (now : Time) (intent : Intent) : UploadMethod String :=
  match statusAt now intent with
  | .error e => raise e
  | .ok (.inl status) => pure status
  | .ok (.inr hash) => getDocumentStatus hash

def getUploadStatus (id : String) : UploadMethod (Intent × String) := do
  let intent ← getIntent id
  let now : Time ← perform .now
  let status ← statusOf now intent
  return (intent, status)

end Service

namespace Handlers

open Service

def internalError : HttpError := ⟨500, "internal error"⟩

def createUploadHandler (h : Handlers) (request : Option UploadDocumentRequest) :
    UploadMethod UploadResponse :=
  match h.createUpload request with
  | .error e => pure (.error e)
  | .ok fileName =>
    tryExcept (do
      let (intent, uploadURL) ← createIntent fileName
      return .created ⟨intent.id, intent.fileName, uploadURL, intent.status.text,
        intent.createdAt, intent.expiresAt⟩)
      fun _ => pure (.error internalError)

def confirmError : UploadError → HttpError
  | .intentExpired _ => ⟨410, "upload intent expired"⟩
  | .intentFailed _ => ⟨409, "upload intent failed"⟩
  | .intentNotFound _ => ⟨404, "upload intent not found"⟩
  | .intentUnknown => ⟨500, "upload intent in unknown state"⟩
  | .failed _ => internalError

def confirmUploadHandler (id : String) : UploadMethod UploadResponse :=
  if id = "" then pure (.error ⟨400, "id is required"⟩)
  else
    tryExcept (do
      let intent ← confirmUpload id
      return .confirmed ⟨intent.id, intent.fileName, intent.status.text, intent.uploadedAt⟩)
      fun e => pure (.error (confirmError e))

def statusError : UploadError → HttpError
  | .intentNotFound _ => ⟨404, "upload intent not found"⟩
  | .intentUnknown => ⟨500, "upload intent in unknown state"⟩
  | _ => internalError

def getUploadStatusHandler (id : String) : UploadMethod UploadResponse :=
  if id = "" then pure (.error ⟨400, "id is required"⟩)
  else
    tryExcept (do
      let (intent, status) ← getUploadStatus id
      return .status ⟨intent.id, intent.fileName, status, intent.uploadedAt⟩)
      fun e => pure (.error (statusError e))

end Handlers

inductive UploadRequest where
  | createUpload (body : Option UploadDocumentRequest)
  | confirmUpload (id : String)
  | getUploadStatus (id : String)

/-- One request from its first line to its response. -/
def Handlers.serve (h : Handlers) (r : UploadRequest) : UploadMethod Unit := do
  let response ← match r with
    | .createUpload body => h.createUploadHandler body
    | .confirmUpload id => confirmUploadHandler id
    | .getUploadStatus id => getUploadStatusHandler id
  Service.perform (.respond response)

end Center

import RagPipeline.Interact.Method
import RagPipeline.Rag.Job
import Mathlib.Data.List.Range

/-!
# The ingest service

`IngestService.process` and the reset tool, with every call to the registry, the blob store, the
embedder, the vector index and the clocks as a command. The parsers, the text splitter and
`uuid5` are parameters.

## Main definitions

* `JobSig`: the external calls.
* `IngestService.process`, `resetIndex`: what makes them.
-/
namespace Rag

open Events Wire Interact Method

/-- A float is its bits. -/
abbrev Vector := List UInt64

/-- A point as the vector index stores it: payload and vector under an ID. -/
structure StoredPoint where
  id : PyStr
  vector : Vector
  hash : PyStr
  filename : PyStr
  chunkIndex : Nat
  text : PyStr
  deriving DecidableEq

/-- A row of `indexed_documents`. -/
structure IndexedDocument where
  hash : PyStr
  filename : PyStr
  objectPath : PyStr
  chunkCount : Nat
  indexedAt : Int
  deriving DecidableEq

/-- What an external call raises: `DependencyUnavailable` with its text, or something else. -/
inductive CallError where
  | unavailable (text : PyStr)
  | raised (e : JobError)

inductive JobCmd where
  | exists (hash : PyStr)
  | get (key : PyStr) (maxBytes : Int)
  | embed (texts : List PyStr)
  | deleteByHash (hash : PyStr)
  | upsert (batch : List StoredPoint)
  | register (document : IndexedDocument)
  | monotonic
  | now
  | collectionExists
  | countPoints
  | countRows
  | clearRows
  | clearPoints

def JobSig : Signature where
  Cmd := JobCmd
  Reply
    | .exists _ | .collectionExists => Except CallError Bool
    | .get .. => Except CallError (List UInt8)
    | .embed _ => Except CallError (List Vector)
    | .deleteByHash _ | .upsert _ | .register _ | .clearRows | .clearPoints => Except CallError Unit
    | .countPoints | .countRows => Except CallError Nat
    | .monotonic => Micros
    | .now => Int

abbrev Job := Method JobSig Unit CallError

/-- A batch size, as the configuration check lets it through. -/
structure BatchSize where
  val : Nat
  pos : 0 < val

/-- `xs[start : start + size] for start in range(0, len(xs), size)`. -/
def slices {α : Type} (size : BatchSize) (xs : List α) : List (List α) :=
  (List.range' 0 ((xs.length + size.val - 1) / size.val) size.val).map fun start =>
    (xs.drop start).take size.val

theorem flatten_slices_aux {α : Type} (size : Nat) (xs : List α) (start n : Nat) :
    ((List.range' start n size).map fun start => (xs.drop start).take size).flatten =
      (xs.drop start).take (n * size) := by
  induction n generalizing start with
  | zero => simp
  | succ n ih =>
    rw [List.range'_succ, List.map_cons, List.flatten_cons, ih, Nat.add_mul, Nat.one_mul,
      Nat.add_comm (n * size), List.take_add, List.drop_drop]

@[simp] theorem flatten_slices {α : Type} (size : BatchSize) (xs : List α) :
    (slices size xs).flatten = xs := by
  have h : xs.length ≤ (xs.length + size.val - 1) / size.val * size.val := by
    have hlt := Nat.lt_div_mul_add (a := xs.length + size.val - 1) size.pos
    have := size.pos
    omega
  rw [slices, flatten_slices_aux, List.drop_zero, List.take_of_length_le h]

/-- `str.isspace` on one code point. -/
def isSpace (c : CodePoint) : Bool :=
  c.val ∈ [9, 10, 11, 12, 13, 28, 29, 30, 31, 32, 0x85, 0xA0, 0x1680, 0x2028, 0x2029, 0x202F,
    0x205F, 0x3000] ∨ 0x2000 ≤ c.val ∧ c.val ≤ 0x200A

/-- `not text.strip()`. -/
def blank (text : PyStr) : Bool := text.all isSpace

/-- `os.path.splitext(filename)[1]`: from the last dot of the last component on, unless nothing
but dots stands before it. -/
def splitext (filename : PyStr) : PyStr :=
  let base := (filename.reverse.takeWhile fun c => c.val ≠ 0x2F).reverse
  let stem := base.dropWhile fun c => c.val = 0x2E
  if stem.any fun c => c.val = 0x2E then
    ⟨0x2E, by decide⟩ :: (stem.reverse.takeWhile fun c => c.val ≠ 0x2E).reverse
  else []

/-- `str.lower` where it matters: the letters of the extensions that are looked for. -/
def lower (s : PyStr) : PyStr :=
  s.map fun c => if h : 0x41 ≤ c.val ∧ c.val ≤ 0x5A then ⟨c.val + 32, by omega⟩ else c

def extension (filename : PyStr) : PyStr := lower (splitext filename)

/-- The service with its settings, and the code it is given. -/
structure IngestService where
  chunkSize : Int
  chunkOverlap : Int
  embedBatchSize : BatchSize
  maxFileBytes : Int
  upsertBatch : BatchSize
  parserFor : PyStr → Except JobError (List UInt8 → Except JobError PyStr)
  /-- `RecursiveCharacterTextSplitter`, for Markdown or by default. -/
  splitText : Bool → Int → Int → PyStr → Except JobError (List PyStr)

namespace IngestService

variable (uuid5 : PyStr → PyStr) (service : IngestService)

def raiseJob {α : Type} (e : JobError) : Job α := raise (.raised e)

def ofJob {α : Type} (x : Except JobError α) : Job α := ofExcept (x.mapError .raised)

def perform (c : JobCmd) : Job (JobSig.Reply c) := call (S := JobSig) c

/-- `chunking.split`. -/
def split (text ext : PyStr) : Except JobError (List PyStr) :=
  (service.splitText (lower ext = ofString ".md") service.chunkSize service.chunkOverlap text).map
    fun chunks => chunks.filter fun chunk => !blank chunk

/-- The name a point's ID is made from. -/
def pointName (hash : PyStr) (chunkIndex : Nat) : PyStr :=
  hash ++ ofString ":" ++ ofString (toString chunkIndex)

def pointId (hash : PyStr) (chunkIndex : Nat) : PyStr := uuid5 (pointName hash chunkIndex)

/-- The points of a document. -/
def pointsOf (event : IngestEvent) (chunks : List PyStr) (vectors : List Vector) :
    List StoredPoint :=
  (chunks.zip vectors).mapIdx fun i (chunk, vector) =>
    ⟨pointId uuid5 event.hash i, vector, event.hash, event.filename, i, chunk⟩

/-- `deadline.check`. -/
def check (deadline : Micros) : Job Unit := do
  let now : Micros ← perform .monotonic
  if now ≥ deadline then
    raiseJob (.transient .jobTimeout (some (ofString "job deadline passed")))

def embedAll (deadline : Micros) : List (List PyStr) → Job (List Vector)
  | [] => return []
  | texts :: rest => do
    check deadline
    let vectors ← ofExcept (← perform (.embed texts))
    return vectors ++ (← embedAll deadline rest)

/-- `index.upsert`: one request for each batch. -/
def upsertAll : List (List StoredPoint) → Job Unit
  | [] => pure ()
  | batch :: rest => do
    ofExcept (← perform (.upsert batch))
    upsertAll rest

/-- Embed the chunks and replace the points of the document by them. -/
def store (event : IngestEvent) (deadline : Micros) (chunks : List PyStr) :
    Job (List StoredPoint) := do
  let vectors ← embedAll deadline (slices service.embedBatchSize chunks)
  check deadline
  if chunks.length ≠ vectors.length then
    raiseJob (.other (ofString "ValueError"))
  let points := pointsOf uuid5 event chunks vectors
  ofExcept (← perform (.deleteByHash event.hash))
  upsertAll (slices service.upsertBatch points)
  return points

def tooLarge : JobError :=
  .permanent .unsupportedType (some (ofString
    ("file too large (over " ++ toString service.maxFileBytes ++ " bytes)")))

def noText : JobError := .permanent .emptyText (some (ofString "no extractable text"))

/-- The chunks of a document that was fetched. -/
def chunksOf (event : IngestEvent) (parse : List UInt8 → Except JobError PyStr)
    (data : List UInt8) : Except JobError (List PyStr) := do
  let text ← parse data
  if blank text then
    throw noText
  let chunks ← split service text (extension event.filename)
  if chunks = [] then
    throw noText
  return chunks

def work (event : IngestEvent) (deadline : Micros) : Job Outcome := do
  if ← ofExcept (← perform (.exists event.hash)) then
    return .indexed none
  let parse ← ofJob (service.parserFor event.filename)
  if event.size > service.maxFileBytes then
    raiseJob (tooLarge service)
  check deadline
  let data ← ofExcept (← perform (.get event.bucketPath service.maxFileBytes))
  check deadline
  let chunks ← ofJob (chunksOf service event parse data)
  let points ← tryExcept (store uuid5 service event deadline chunks) fun
    | .unavailable text => raiseJob (.transient .dependencyUnavailable (some text))
    | e => raise e
  let now ← perform .now
  ofExcept (← perform (.register
    ⟨event.hash, event.filename, event.bucketPath, points.length, now⟩))
  return .indexed (some points.length)

/-- What a caller sees raised. -/
def CallError.toJobError : CallError → JobError
  | .unavailable _ => .other (ofString "DependencyUnavailable")
  | .raised e => e

def process (event : IngestEvent) (deadline : Micros) :
    Prog JobSig (Except JobError Outcome) :=
  (work uuid5 service event deadline ()).bind fun (r, _) => .ret (r.mapError CallError.toJobError)

end IngestService

/-- `reset_index.run`: rows first, then points. -/
def resetIndex (yes : Bool) : Job Nat := do
  let found ← ofExcept (← IngestService.perform .collectionExists)
  let _ ← if found then ofExcept (← IngestService.perform .countPoints) else pure 0
  let _ ← ofExcept (← IngestService.perform .countRows)
  if !yes then
    return 1
  ofExcept (← IngestService.perform .clearRows)
  if found then
    ofExcept (← IngestService.perform .clearPoints)
  return 0

end Rag

import RagPipeline.Wire.Json
import RagPipeline.Wire.Timestamp

/-!
# The ingest event

Go writes it (`events.StreamIngestionEvent`, `Producer.PublishIngestionEvent`), Python reads it
(`IngestEvent.parse`). Error messages are kept without the echo of the offending value.

## Main results

* `StreamIngestionEvent.carried_toEntry`, `IngestEvent.carried_of_parse`: Python reads the hash
  and the attempt number that Go wrote.
-/
namespace Events

open Wire

/-- The fields of a stream entry that the two services look at. -/
structure Fields where
  eventType : Option String
  payload : Option RawText

structure StreamIngestionEvent where
  id : String
  hash : String
  filename : String
  bucketPath : String
  size : Int
  attempts : Int
  createdAt : Int
  schemaVersion : Int

def text (s : String) : Json := .str (ofString s)
def int (n : Int) : Json := .num (.int n)

namespace StreamIngestionEvent

/-- `json.Marshal`; it fails on a year JSON timestamps cannot hold. -/
def marshal (e : StreamIngestionEvent) : Option RawText :=
  (goTimestamp e.createdAt).map fun createdAt =>
    let document := Json.obj [
      (ofString "id", text e.id), (ofString "hash", text e.hash),
      (ofString "filename", text e.filename), (ofString "bucket_path", text e.bucketPath),
      (ofString "size", int e.size), (ofString "attempts", int e.attempts),
      (ofString "created_at", text createdAt), (ofString "schema_version", int e.schemaVersion)]
    ⟨document.textLength goEscaped, some document⟩

/-- The entry `PublishIngestionEvent` adds. -/
def toEntry (e : StreamIngestionEvent) : Option Fields :=
  e.marshal.map fun payload => ⟨some "IngestionRequest", some payload⟩

end StreamIngestionEvent

def ingestEventType : String := "IngestionRequest"
def schemaVersion : Int := 1

/-- Integer fields are bounded to the int32 range on both sides. -/
def maxInteger : Int := 2 ^ 31 - 1

structure InvalidEvent where
  field : Option String
  message : String
  deriving DecidableEq, Repr

/-- The ingest event as Python holds it. -/
structure IngestEvent where
  id : PyStr
  hash : PyStr
  filename : PyStr
  bucketPath : PyStr
  size : Int
  attempts : Int
  createdAt : Int
  schemaVersion : Int
  deriving DecidableEq

def isInt : Json → Option Int
  | .num (.int n) => some n
  | _ => none

def checkAttempts (j : Json) : Except InvalidEvent Int :=
  match isInt j with
  | some n => if 0 ≤ n ∧ n ≤ maxInteger then .ok n else .error error
  | none => .error error
where
  error := ⟨some "attempts", "attempts must be an integer between 0 and 2147483647"⟩

namespace IngestEvent

def parseCreatedAt : Json → Except InvalidEvent Int
  | .str s => match parseTimestamp s with
    | .ok t => .ok t
    | .error .shape => .error shape
    | .error .date => .error ⟨some "created_at", "created_at is not a valid timestamp"⟩
  | _ => .error shape
where
  shape := ⟨some "created_at", "created_at must be RFC 3339 UTC with a Z suffix"⟩

def fieldOf (document : List (PyStr × Json)) (name : String) : Except InvalidEvent Json :=
  match member? document name with
  | some j => .ok j
  | none => .error ⟨some name, name ++ " is required"⟩

def textOf (document : List (PyStr × Json)) (name : String) : Except InvalidEvent PyStr := do
  match ← fieldOf document name with
  | .str s =>
    if s = [] then .error ⟨some name, name ++ " must be a non-empty string"⟩
    else if isUnicode s then .ok s
    else .error ⟨some name, name ++ " must be valid unicode text"⟩
  | _ => .error ⟨some name, name ++ " must be a non-empty string"⟩

def checkVersion (j : Json) : Except InvalidEvent Int :=
  if isInt j = some Events.schemaVersion then .ok Events.schemaVersion
  else .error ⟨some "schema_version", "unsupported schema_version"⟩

def checkSize (j : Json) : Except InvalidEvent Int :=
  match isInt j with
  | some n => if 0 ≤ n then .ok n else .error error
  | none => .error error
where
  error := ⟨some "size", "size must be a non-negative integer"⟩

def parseDocument (document : List (PyStr × Json)) : Except InvalidEvent IngestEvent := do
  let version ← checkVersion (← fieldOf document "schema_version")
  let size ← checkSize (← fieldOf document "size")
  return {
    id := ← textOf document "id"
    hash := ← textOf document "hash"
    filename := ← textOf document "filename"
    bucketPath := ← textOf document "bucket_path"
    size
    attempts := ← checkAttempts (← fieldOf document "attempts")
    createdAt := ← parseCreatedAt (← fieldOf document "created_at")
    schemaVersion := version }

def parse (raw : RawText) : Except InvalidEvent IngestEvent :=
  match raw.json with
  | none => .error ⟨none, "payload is not valid JSON"⟩
  | some (.obj document) => parseDocument document
  | some _ => .error ⟨none, "payload must be a JSON object"⟩

end IngestEvent

/-! ### Hash and attempt number -/

/-- The hash and the attempt number an entry of either stream carries. -/
def Fields.carried (fields : Fields) : Option (PyStr × Int) :=
  match fields.payload.bind RawText.json with
  | some (.obj document) =>
    match member? document "hash", member? document "attempts" with
    | some (.str hash), some (.num (.int attempts)) => some (hash, attempts)
    | _, _ => none
  | _ => none

theorem Fields.carried_eq {fields : Fields} {document : List (PyStr × Json)} {hash : PyStr}
    {attempts : Int} (hd : fields.payload.bind RawText.json = some (.obj document))
    (hh : member? document "hash" = some (.str hash))
    (ha : member? document "attempts" = some (int attempts)) :
    fields.carried = some (hash, attempts) := by
  unfold carried
  rw [hd]
  simp only [hh, ha, int]

theorem StreamIngestionEvent.carried_toEntry {e : StreamIngestionEvent} {fields : Fields}
    (h : e.toEntry = some fields) : fields.carried = some (ofString e.hash, e.attempts) := by
  obtain ⟨raw, hraw, rfl⟩ := Option.map_eq_some_iff.1 h
  obtain ⟨createdAt, -, rfl⟩ := Option.map_eq_some_iff.1 hraw
  exact Fields.carried_eq rfl (by simp [text]) (by simp)

namespace IngestEvent

theorem bind_ok {ε α β : Type} {x : Except ε α} {f : α → Except ε β} {b : β}
    (h : x >>= f = .ok b) : ∃ a, x = .ok a ∧ f a = .ok b := by
  cases x with
  | error e => cases h
  | ok a => exact ⟨a, rfl, h⟩

theorem fieldOf_ok {document : List (PyStr × Json)} {name : String} {j : Json}
    (h : fieldOf document name = .ok j) : member? document name = some j := by
  unfold fieldOf at h
  split at h
  · cases h; assumption
  · cases h

theorem textOf_ok {document : List (PyStr × Json)} {name : String} {s : PyStr}
    (h : textOf document name = .ok s) : member? document name = some (.str s) := by
  obtain ⟨j, hj, h⟩ := bind_ok h
  rw [fieldOf_ok hj]
  split at h
  · split_ifs at h
    cases h
    rfl
  · cases h

theorem checkAttempts_ok {j : Json} {n : Int} (h : checkAttempts j = .ok n) : j = int n := by
  unfold checkAttempts at h
  split at h
  case h_1 m hm =>
    split at h
    · cases h
      unfold isInt at hm
      split at hm
      · cases hm; rfl
      · cases hm
    · cases h
  case h_2 => cases h

/-- What is parsed is what the document says. -/
theorem parseDocument_ok {document : List (PyStr × Json)} {event : IngestEvent}
    (h : parseDocument document = .ok event) :
    member? document "hash" = some (.str event.hash) ∧
      member? document "attempts" = some (int event.attempts) := by
  obtain ⟨_, -, h⟩ := bind_ok h
  obtain ⟨_, -, h⟩ := bind_ok h
  obtain ⟨_, -, h⟩ := bind_ok h
  obtain ⟨_, -, h⟩ := bind_ok h
  obtain ⟨_, -, h⟩ := bind_ok h
  obtain ⟨hash, hhash, h⟩ := bind_ok h
  obtain ⟨_, -, h⟩ := bind_ok h
  obtain ⟨_, -, h⟩ := bind_ok h
  obtain ⟨j, hj, h⟩ := bind_ok h
  obtain ⟨attempts, hattempts, h⟩ := bind_ok h
  obtain ⟨_, -, h⟩ := bind_ok h
  obtain ⟨_, -, h⟩ := bind_ok h
  cases h
  exact ⟨textOf_ok hhash, checkAttempts_ok hattempts ▸ fieldOf_ok hj⟩

theorem carried_of_parse {fields : Fields} {raw : RawText} {event : IngestEvent}
    (hraw : fields.payload = some raw) (h : parse raw = .ok event) :
    fields.carried = some (event.hash, event.attempts) := by
  unfold parse at h
  split at h
  case h_2 document hd =>
    obtain ⟨hh, ha⟩ := parseDocument_ok h
    exact Fields.carried_eq (by rw [hraw]; exact hd) hh ha
  all_goals cases h

end IngestEvent

end Events

import RagPipeline.Events.IngestEvent
import RagPipeline.Wire.Escaping
import RagPipeline.Wire.TimestampText

/-!
# The ingest event across the language boundary

## Main results

* `ingest_event_survives`: Python's strict parser takes every well-formed event of the center's
  and holds the same values, the creation time to the microsecond.
* `parse_marshal`: exactly which events it takes, and what is wrong with the others.
-/
namespace Events

open Wire

namespace IngestEvent

variable {document : List (PyStr × Json)} {name : String}

theorem fieldOf_member {j : Json} (h : member? document name = some j) :
    fieldOf document name = .ok j := by
  simp [fieldOf, h]

theorem textOf_text {s : String} (h : member? document name = some (text s)) (hs : s ≠ "") :
    textOf document name = .ok (ofString s) := by
  simp [textOf, fieldOf_member h, text, hs, bind, Except.bind]

theorem checkVersion_int (n : Int) : checkVersion (int n) =
    if n = 1 then .ok 1 else .error ⟨some "schema_version", "unsupported schema_version"⟩ := by
  simp [checkVersion, isInt, int, Events.schemaVersion]

end IngestEvent

theorem checkAttempts_int (n : Int) : checkAttempts (int n) =
    if 0 ≤ n ∧ n ≤ maxInteger then .ok n else .error checkAttempts.error := rfl

open IngestEvent

/-- The event Python holds for one of the center's. -/
def StreamIngestionEvent.received (e : StreamIngestionEvent) : IngestEvent where
  id := ofString e.id
  hash := ofString e.hash
  filename := ofString e.filename
  bucketPath := ofString e.bucketPath
  size := e.size
  attempts := e.attempts
  createdAt := e.createdAt / 1000 * 1000
  schemaVersion := e.schemaVersion

/-- What the center can be relied on to fill in. -/
structure StreamIngestionEvent.Filled (e : StreamIngestionEvent) : Prop where
  id : e.id ≠ ""
  hash : e.hash ≠ ""
  filename : e.filename ≠ ""
  bucketPath : e.bucketPath ≠ ""
  size : 0 ≤ e.size
  createdAt : InYears e.createdAt

theorem StreamIngestionEvent.marshal_of_inYears {e : StreamIngestionEvent}
    (h : InYears e.createdAt) : ∃ payload, e.marshal = some payload := by
  obtain ⟨createdAt, htext, -⟩ := parseTimestamp_goTimestamp h
  exact ⟨_, by rw [marshal, htext]; rfl⟩

/-- The strict parser takes the version and the attempt number it knows, and nothing else can go
wrong. -/
theorem parse_marshal {e : StreamIngestionEvent} {payload : RawText} (h : e.Filled)
    (hp : e.marshal = some payload) :
    IngestEvent.parse payload =
      if e.schemaVersion ≠ 1 then .error ⟨some "schema_version", "unsupported schema_version"⟩
      else if 0 ≤ e.attempts ∧ e.attempts ≤ maxInteger then .ok e.received
      else .error checkAttempts.error := by
  obtain ⟨createdAt, htext, hparse⟩ := parseTimestamp_goTimestamp h.createdAt
  rw [StreamIngestionEvent.marshal, htext] at hp
  cases hp
  obtain ⟨document, hd⟩ : ∃ document, document = [
      (ofString "id", text e.id), (ofString "hash", text e.hash),
      (ofString "filename", text e.filename), (ofString "bucket_path", text e.bucketPath),
      (ofString "size", int e.size), (ofString "attempts", int e.attempts),
      (ofString "created_at", text createdAt), (ofString "schema_version", int e.schemaVersion)] :=
    ⟨_, rfl⟩
  have hversion := @fieldOf_member document "schema_version" (int e.schemaVersion) (by simp [hd])
  have hsize := @fieldOf_member document "size" (int e.size) (by simp [hd])
  have hid := @textOf_text document "id" e.id (by simp [hd]) h.id
  have hhash := @textOf_text document "hash" e.hash (by simp [hd]) h.hash
  have hfilename := @textOf_text document "filename" e.filename (by simp [hd]) h.filename
  have hpath := @textOf_text document "bucket_path" e.bucketPath (by simp [hd]) h.bucketPath
  have hattempts := @fieldOf_member document "attempts" (int e.attempts) (by simp [hd])
  have hcreated := @fieldOf_member document "created_at" (text createdAt) (by simp [hd])
  have hparsed : parseCreatedAt (text createdAt) = .ok (e.createdAt / 1000 * 1000) := by
    simp [parseCreatedAt, text, hparse]
  have hnonneg : checkSize (int e.size) = .ok e.size := by
    simp [checkSize, isInt, int, h.size]
  change IngestEvent.parse ⟨_, some (.obj _)⟩ = _
  rw [← hd]
  simp only [IngestEvent.parse, parseDocument, hversion, hsize, hid, hhash, hfilename, hpath,
    hattempts, hcreated, hparsed, hnonneg, bind, Except.bind, checkVersion_int, checkAttempts_int]
  by_cases hv : e.schemaVersion = 1
  · simp only [hv, if_true, ne_eq, not_true_eq_false, if_false]
    split_ifs
    · rw [StreamIngestionEvent.received, hv]
      rfl
    · rfl
  · simp [hv]

/-- Characters of the payload besides those of the file name. -/
def StreamIngestionEvent.envelope (e : StreamIngestionEvent) : Nat :=
  94 + strLength goEscaped (ofString e.id) + strLength goEscaped (ofString e.hash) +
    strLength goEscaped (ofString e.bucketPath) + intLength e.size + intLength e.attempts +
    strLength goEscaped (ofString ((goTimestamp e.createdAt).getD "")) + intLength e.schemaVersion

theorem StreamIngestionEvent.length_marshal {e : StreamIngestionEvent} {payload : RawText}
    (hp : e.marshal = some payload) :
    payload.length = e.envelope + (goQuote (ofString e.filename)).length := by
  rw [length_goQuote]
  obtain ⟨createdAt, htext, rfl⟩ := Option.map_eq_some_iff.1 hp
  have hkeys : ["id", "hash", "filename", "bucket_path", "size", "attempts", "created_at",
      "schema_version"].map (fun key => strLength goEscaped (ofString key)) =
      [4, 6, 10, 13, 6, 10, 12, 16] := by decide
  simp only [List.map_cons, List.map_nil, List.cons.injEq] at hkeys
  simp only [Json.textLength, Json.textLength.membersLength, text, int, envelope, htext,
    Option.getD_some, List.length_cons, List.length_nil, hkeys]
  omega

/-- Python reads every well-formed event as the center wrote it, the creation time truncated to
microseconds, and reads its texts back from the quoted form the center puts them in. -/
theorem ingest_event_survives {e : StreamIngestionEvent} (hid : e.id ≠ "") (hhash : e.hash ≠ "")
    (hfilename : e.filename ≠ "") (hpath : e.bucketPath ≠ "") (hsize : 0 ≤ e.size)
    (hattempts : 0 ≤ e.attempts ∧ e.attempts ≤ maxInteger) (hversion : e.schemaVersion = 1)
    (hyears : InYears e.createdAt) :
    ∃ payload event, e.marshal = some payload ∧ IngestEvent.parse payload = .ok event ∧
      event.id = ofString e.id ∧ event.hash = ofString e.hash ∧
      event.filename = ofString e.filename ∧ event.bucketPath = ofString e.bucketPath ∧
      event.size = e.size ∧ event.attempts = e.attempts ∧
      event.schemaVersion = e.schemaVersion ∧ event.createdAt = e.createdAt / 1000 * 1000 ∧
      ∀ s ∈ [e.id, e.hash, e.filename, e.bucketPath],
        unquote pyLone (goQuote (ofString s)) = some (ofString s) := by
  obtain ⟨payload, hp⟩ := StreamIngestionEvent.marshal_of_inYears hyears
  have hparse := parse_marshal ⟨hid, hhash, hfilename, hpath, hsize, hyears⟩ hp
  rw [if_neg (not_not.2 hversion), if_pos hattempts] at hparse
  exact ⟨payload, e.received, hp, hparse, rfl, rfl, rfl, rfl, rfl, rfl, rfl, rfl,
    fun s _ => unquote_goQuote faithful_pyLone (isUnicode_ofString s)⟩

/-- With a name that has HTML characters and a time with all nine digits. -/
def sampleIngestion : StreamIngestionEvent where
  id := "e"
  hash := "h"
  filename := "<näher> & 😀.pdf"
  bucketPath := "aa/bb/h"
  size := 3
  attempts := 2147483647
  createdAt := 1791972000123456789
  schemaVersion := 1

theorem ingest_event_survives_sample : ∃ payload event,
    sampleIngestion.marshal = some payload ∧ IngestEvent.parse payload = .ok event ∧
      event.filename = ofString "<näher> & 😀.pdf" ∧ event.createdAt = 1791972000123456000 := by
  obtain ⟨payload, event, hp, hparse, -, -, hf, -, -, -, -, hc, -⟩ :=
    @ingest_event_survives sampleIngestion (by decide) (by decide) (by decide) (by decide)
      (by decide) (by decide) rfl (by decide +kernel)
  exact ⟨payload, event, hp, hparse, hf, hc⟩

end Events

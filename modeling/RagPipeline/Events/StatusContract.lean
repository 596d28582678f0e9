import RagPipeline.Events.StatusEvent
import RagPipeline.Wire.Schema
import RagPipeline.Wire.TimestampText

/-!
# The status event across the language boundary

The public constructor takes texts for the two enumerations and a `datetime` of any time zone;
whatever it accepts is written without failing, satisfies the contract's schema and is read by
the center as the same event.

## Main definitions

* `StatusEvent.new`: the constructor with its coercions, `StatusEvent.toJson?`: the writer.
* `statusEventSchema`: `contracts/events/status_event.schema.json`.
* `decodeEvent`: `DecodeStatus` with the creation time.

## Main results

* `status_event_survives`: the round trip.
-/
namespace Events

open Wire

/-! ### The constructor -/

inductive UtcOffset where
  /-- `utcoffset()` is `None`. -/
  | naive
  | fixed (micros : Int)
  /-- `utcoffset()` raises. -/
  | broken

/-- A `datetime`: its wall clock, in microseconds as if it were UTC. -/
structure Datetime where
  wall : Int
  offset : UtcOffset
  inYears : InYears (wall * 1000)

/-- `astimezone(UTC)`, as nanoseconds from 1970. -/
def Datetime.toUtc (d : Datetime) : Except InvalidEvent Int :=
  match d.offset with
  | .naive => .error ⟨some "created_at", "created_at must be timezone-aware"⟩
  | .fixed micros =>
    let instant := (d.wall - micros) * 1000
    if InYears instant then .ok instant else .error unconvertible
  | .broken => .error unconvertible
where
  unconvertible := ⟨some "created_at", "created_at cannot be converted to UTC"⟩

/-- The arguments of the constructor; its enumerations may be given by their texts. -/
structure StatusArgs where
  hash : PyStr
  status : PyStr
  attempts : Int
  retryable : Option Bool
  reason : Option PyStr
  detail : Option PyStr
  chunkCount : Option Int
  id : PyStr
  createdAt : Datetime

/-- `_coerce`. -/
def coerce {α : Type} (all : List α) (value : α → String) (name : String) (text : PyStr) :
    Except InvalidEvent α :=
  match all.find? fun a => ofString (value a) = text with
  | some a => .ok a
  | none => .error ⟨some name, "unknown " ++ name⟩

def coerceReason : Option PyStr → Except InvalidEvent (Option Reason)
  | none => .ok none
  | some text => (coerce Reason.all Reason.value "reason" text).map some

def check (ok : Bool) (field message : String) : Except InvalidEvent Unit :=
  if ok then .ok () else .error ⟨some field, message⟩

/-- `__post_init__`; `init` makes its remaining checks. -/
def StatusEvent.new (args : StatusArgs) : Except InvalidEvent StatusEvent := do
  check (args.hash ≠ []) "hash" "hash is required"
  let status ← coerce Status.all Status.value "status" args.status
  let reason ← coerceReason args.reason
  check (0 ≤ args.attempts ∧ args.attempts ≤ maxInteger) "attempts"
    "attempts must be an integer between 0 and 2147483647"
  check (args.id ≠ []) "id" "id must be a non-empty string"
  let createdAt ← args.createdAt.toUtc
  init args.hash status args.attempts args.retryable reason args.detail args.chunkCount args.id
    createdAt

/-- `to_json`; it fails where `created_at` cannot be printed. -/
def StatusEvent.toJson? (s : StatusEvent) : Option RawText :=
  (pyTimestamp s.createdAt).map fun _ => s.toJson

/-! ### The schema -/

def matchesCreatedAt (s : PyStr) : Bool :=
  match parseTimestamp s with
  | .error .shape => false
  | _ => true

def statusEventSchema : Schema where
  record := {
    required := ["id", "hash", "status", "attempts", "created_at", "schema_version"]
    properties := [
      ("id", [.type .string, .minLength 1]),
      ("hash", [.type .string, .minLength 1]),
      ("status", [.enum ["INDEXED", "FAILED"]]),
      ("attempts", [.type .integer, .minimum 0, .maximum 2147483647]),
      ("retryable", [.type .boolean]),
      ("reason", [.enum ["UNSUPPORTED_TYPE", "EMPTY_TEXT", "CORRUPT_FILE",
        "DEPENDENCY_UNAVAILABLE", "JOB_TIMEOUT", "POISON_MESSAGE", "INTERNAL"]]),
      ("detail", [.type .string]),
      ("chunk_count", [.type .integer, .minimum 0, .maximum 2147483647]),
      ("created_at", [.type .string, .pattern matchesCreatedAt]),
      ("schema_version", [.const 1])] }
  conditional := some
    (⟨["status"], [("status", [.enum ["FAILED"]])]⟩, ⟨["retryable", "reason"], []⟩)

/-! ### The center's reader -/

/-- The zero `time.Time`: the first of January of the year 1. -/
def zeroTime : Int := -62135596800 * 10 ^ 9

/-- `fieldReader.timestamp`: what cannot be parsed counts as absent. -/
def FieldReader.timestamp (members : List (PyStr × Json)) (key : String) : Int :=
  match raw members key with
  | some (.str s) => (parseRFC3339 s).getD zeroTime
  | _ => zeroTime

structure DecodedEvent extends DecodedStatus where
  createdAt : Int

def createdAtOf (payload : RawText) : Int :=
  match payload.json with
  | some (.obj fields) => FieldReader.timestamp fields "created_at"
  | _ => zeroTime

/-- `DecodeStatus`. -/
def decodeEvent (payload : RawText) : Except InvalidEvent DecodedEvent :=
  (decodeStatus payload).map fun d => { d with createdAt := createdAtOf payload }

/-! ### What the constructor accepts -/

theorem Datetime.toUtc_ok {d : Datetime} {instant : Int} (h : d.toUtc = .ok instant) :
    InYears instant ∧ ∃ micros, d.offset = .fixed micros ∧ instant = (d.wall - micros) * 1000 := by
  unfold toUtc at h
  split at h
  case h_1 => cases h
  case h_2 micros ho =>
    dsimp only at h
    split_ifs at h with hy
    cases h
    exact ⟨hy, micros, ho, rfl⟩
  case h_3 => cases h

theorem StatusEvent.init_createdAt {hash : PyStr} {status : Status} {attempts : Int}
    {retryable : Option Bool} {reason : Option Reason} {detail : Option PyStr}
    {chunkCount : Option Int} {id : PyStr} {createdAt : Int} {s : StatusEvent}
    (h : init hash status attempts retryable reason detail chunkCount id createdAt = .ok s) :
    s.createdAt = createdAt := by
  unfold init at h
  dsimp only at h
  split_ifs at h
  cases h
  rfl

/-- An accepted event holds the instant of its argument. -/
theorem StatusEvent.new_createdAt {args : StatusArgs} {s : StatusEvent} (h : new args = .ok s) :
    args.createdAt.toUtc = .ok s.createdAt := by
  unfold new at h
  obtain ⟨-, -, h⟩ := IngestEvent.bind_ok h
  obtain ⟨status, -, h⟩ := IngestEvent.bind_ok h
  obtain ⟨reason, -, h⟩ := IngestEvent.bind_ok h
  obtain ⟨-, -, h⟩ := IngestEvent.bind_ok h
  obtain ⟨-, -, h⟩ := IngestEvent.bind_ok h
  obtain ⟨createdAt, hc, h⟩ := IngestEvent.bind_ok h
  rw [hc, StatusEvent.init_createdAt h]

/-! ### The round trip -/

theorem valid_status (status : Status) :
    (Keyword.enum ["INDEXED", "FAILED"]).valid (text status.value) := by
  cases status <;> simp [text, Status.value]

theorem valid_reason (reason : Reason) :
    (Keyword.enum ["UNSUPPORTED_TYPE", "EMPTY_TEXT", "CORRUPT_FILE", "DEPENDENCY_UNAVAILABLE",
      "JOB_TIMEOUT", "POISON_MESSAGE", "INTERNAL"]).valid (text reason.value) := by
  cases reason <;> simp [text, Reason.value]

/-- Integer fields are in the range of the schema. -/
theorem valid_count {n : Int} (h : 0 ≤ n ∧ n ≤ maxInteger) :
    ([.type .integer, .minimum 0, .maximum 2147483647] : List Keyword).all fun k =>
      k.valid (int n) := by
  unfold maxInteger at h
  simpa [int] using h

theorem valid_nonempty {s : PyStr} (h : s ≠ []) :
    ([.type .string, .minLength 1] : List Keyword).all fun k => k.valid (.str s) := by
  have : 1 ≤ s.length := List.length_pos_iff.2 h
  simpa using this

theorem valid_createdAt {s : String} {instant : Int}
    (h : parseTimestamp (ofString s) = .ok instant) :
    ([.type .string, .pattern matchesCreatedAt] : List Keyword).all fun k => k.valid (text s) := by
  simp [text, matchesCreatedAt, h]

/-- What is written satisfies the schema. -/
theorem StatusEvent.valid_toDict {s : StatusEvent} (h : InYears s.createdAt) :
    statusEventSchema.valid (.obj s.toDict) := by
  obtain ⟨createdAt, htext, hparse, -⟩ := parseRFC3339_pyTimestamp h
  have hreason : (s.reason.map fun r => text r.value).all fun j =>
      (Keyword.enum ["UNSUPPORTED_TYPE", "EMPTY_TEXT", "CORRUPT_FILE", "DEPENDENCY_UNAVAILABLE",
        "JOB_TIMEOUT", "POISON_MESSAGE", "INTERNAL"]).valid j := by
    cases s.reason with
    | none => rfl
    | some r => exact valid_reason r
  have hchunk : (s.chunkCount.map int).all fun j =>
      ([.type .integer, .minimum 0, .maximum 2147483647] : List Keyword).all fun k =>
        k.valid j := by
    cases hn : s.chunkCount with
    | none => rfl
    | some n => exact valid_count (s.chunkCount_range n hn)
  have hretryable : (s.retryable.map Json.bool).all fun j =>
      (Keyword.type .boolean).valid j := by cases s.retryable <;> rfl
  have hdetail : (s.detail.map Json.str).all fun j => (Keyword.type .string).valid j := by
    cases s.detail <;> rfl
  have hcomplete : (Keyword.enum ["FAILED"]).valid (text s.status.value) = false ∨
      s.retryable.isSome ∧ s.reason.isSome := by
    cases hs : s.status with
    | indexed => exact .inl (by decide)
    | failed => exact .inr (s.failed_complete hs)
  have hid := valid_nonempty s.id_ne
  have hhash := valid_nonempty s.hash_ne
  have hattempts := valid_count s.attempts_range
  have hcreated := valid_createdAt hparse
  have hstatus := valid_status s.status
  have hversion : (Keyword.const 1).valid (int schemaVersion) := by decide
  have hall := And.intro hid (And.intro hhash (And.intro hstatus (And.intro hattempts
    (And.intro hretryable (And.intro hreason (And.intro hdetail (And.intro hchunk
      (And.intro hcreated (And.intro hversion hcomplete)))))))))
  simpa [statusEventSchema, Schema.valid, Record.valid, StatusEvent.toDict, htext, and_assoc]
    using hall

theorem FieldReader.timestamp_of_text {members : List (PyStr × Json)} {key text : String}
    {instant : Int} (h : member? members key = some (Events.text text))
    (ht : parseRFC3339 (ofString text) = some instant) :
    FieldReader.timestamp members key = instant := by
  simp [FieldReader.timestamp, FieldReader.raw, h, Events.text, ht]

/-- An event the constructor accepts is written, valid under the schema, and accepted by the
center as the same event. -/
theorem status_event_survives {args : StatusArgs} {s : StatusEvent}
    (h : StatusEvent.new args = .ok s) (hhash : isUnicode s.hash) (hid : isUnicode s.id) :
    ∃ payload document decoded, s.toJson? = some payload ∧ payload.json = some document ∧
      statusEventSchema.valid document ∧ decodeEvent payload = .ok decoded ∧
      ofString decoded.id = s.id ∧ ofString decoded.hash = s.hash ∧
      decoded.status = s.status ∧ decoded.attempts = s.attempts ∧
      decoded.retryable = s.retryable ∧ decoded.reason = s.reason ∧
      decoded.chunkCount = s.chunkCount ∧
      decoded.createdAt = s.createdAt ∧ args.createdAt.toUtc = .ok s.createdAt ∧
      (s.detail = none → decoded.detail = "") ∧
      ∀ detail ∈ s.detail, isUnicode detail → ofString decoded.detail = detail := by
  have hutc := StatusEvent.new_createdAt h
  obtain ⟨hyears, micros, -, hwhole⟩ := Datetime.toUtc_ok hutc
  obtain ⟨createdAt, htext, -, hread⟩ := parseRFC3339_pyTimestamp hyears
  have hmicros : s.createdAt / 1000 * 1000 = s.createdAt := by omega
  have hmember : member? s.toDict "created_at" = some (text createdAt) := by
    simp [StatusEvent.toDict, htext]
  have hcreated : createdAtOf s.toJson = s.createdAt := by
    rw [← hmicros]
    exact FieldReader.timestamp_of_text hmember hread
  refine ⟨s.toJson, .obj s.toDict, { s.decoded with createdAt := createdAtOf s.toJson },
    by rw [StatusEvent.toJson?, htext]; rfl, rfl, StatusEvent.valid_toDict hyears,
    by rw [decodeEvent, decodeStatus_toJson]; rfl, ofString_toGo hid, ofString_toGo hhash,
    rfl, rfl, rfl, rfl, rfl, hcreated, hutc, ?_, ?_⟩
  · intro hnone
    simp [StatusEvent.decoded, hnone]
  · rintro detail hd hu
    rw [Option.mem_def] at hd
    simpa [StatusEvent.decoded, hd] using ofString_toGo hu

/-- A failure reported with an offset of two hours, its status given as a text. -/
def sampleArgs : StatusArgs where
  hash := ofString "h"
  status := ofString "FAILED"
  attempts := 2
  retryable := some true
  reason := some (ofString "INTERNAL")
  detail := some (ofString "näher <b>")
  chunkCount := none
  id := ofString "s"
  createdAt := ⟨1791972000123456, .fixed 7200000000, by decide +kernel⟩

theorem new_sampleArgs : ∃ s, StatusEvent.new sampleArgs = .ok s ∧ isUnicode s.hash ∧
    isUnicode s.id := by
  have hrun : (StatusEvent.new sampleArgs).toOption.any fun s =>
      isUnicode s.hash ∧ isUnicode s.id := by decide +kernel
  obtain ⟨s, hs, hu⟩ := Option.any_eq_true _ _ |>.1 hrun
  cases h : StatusEvent.new sampleArgs with
  | error e =>
    rw [h] at hs
    cases hs
  | ok t =>
    rw [h] at hs
    cases Option.some.inj hs
    exact ⟨s, rfl, of_decide_eq_true hu⟩

theorem status_event_survives_sample : ∃ s payload decoded,
    StatusEvent.new sampleArgs = .ok s ∧ s.toJson? = some payload ∧
      decodeEvent payload = .ok decoded ∧ ofString decoded.hash = s.hash ∧
      decoded.createdAt = s.createdAt := by
  obtain ⟨s, hs, hhash, hid⟩ := new_sampleArgs
  obtain ⟨payload, _, decoded, hp, -, -, hd, -, hh, -, -, -, -, -, hc, -⟩ :=
    status_event_survives hs hhash hid
  exact ⟨s, payload, decoded, hs, hp, hd, hh, hc⟩

end Events

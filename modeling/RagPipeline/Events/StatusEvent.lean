import RagPipeline.Events.IngestEvent

/-!
# The status event

Python builds and writes it (`StatusEvent`), Go reads it (`DecodeStatus`). A value of
`StatusEvent` has passed `__post_init__`. Go keeps `created_at` for its logs only, so it is not
part of what is decoded here.

## Main results

* `decodeStatus_toJson`: Go reads every event of Python's, with the same hash, status, attempt
  number, `retryable` and `reason`.
-/
namespace Events

open Wire

inductive Status where
  | indexed
  | failed
  deriving DecidableEq, Repr

inductive Reason where
  | unsupportedType
  | emptyText
  | corruptFile
  | dependencyUnavailable
  | jobTimeout
  | poisonMessage
  | internal
  deriving DecidableEq, Repr

def Status.value : Status → String
  | indexed => "INDEXED"
  | failed => "FAILED"

def Reason.value : Reason → String
  | unsupportedType => "UNSUPPORTED_TYPE"
  | emptyText => "EMPTY_TEXT"
  | corruptFile => "CORRUPT_FILE"
  | dependencyUnavailable => "DEPENDENCY_UNAVAILABLE"
  | jobTimeout => "JOB_TIMEOUT"
  | poisonMessage => "POISON_MESSAGE"
  | internal => "INTERNAL"

def Status.all : List Status := [indexed, failed]

def Reason.all : List Reason :=
  [unsupportedType, emptyText, corruptFile, dependencyUnavailable, jobTimeout, poisonMessage,
    internal]

def statusEventType : String := "IngestionStatus"
def maxDetailLength : Nat := 500

/-- One report on one ingestion attempt, as `__post_init__` lets it through. -/
structure StatusEvent where
  hash : PyStr
  status : Status
  attempts : Int
  retryable : Option Bool
  reason : Option Reason
  detail : Option PyStr
  chunkCount : Option Int
  id : PyStr
  createdAt : Int
  hash_ne : hash ≠ []
  attempts_range : 0 ≤ attempts ∧ attempts ≤ maxInteger
  id_ne : id ≠ []
  detail_le : ∀ d ∈ detail, d.length ≤ maxDetailLength
  chunkCount_range : ∀ n ∈ chunkCount, 0 ≤ n ∧ n ≤ maxInteger
  failed_complete : status = .failed → retryable.isSome ∧ reason.isSome

namespace StatusEvent

/-- The constructor; the types of the arguments stand for the checks on types. -/
def init (hash : PyStr) (status : Status) (attempts : Int) (retryable : Option Bool)
    (reason : Option Reason) (detail : Option PyStr) (chunkCount : Option Int) (id : PyStr)
    (createdAt : Int) : Except InvalidEvent StatusEvent :=
  let cut := detail.map fun d => d.take maxDetailLength
  if hash_ne : hash = [] then .error ⟨some "hash", "hash is required"⟩
  else if attempts_range : ¬ (0 ≤ attempts ∧ attempts ≤ maxInteger) then
    .error ⟨some "attempts", "attempts must be an integer between 0 and 2147483647"⟩
  else if id_ne : id = [] then .error ⟨some "id", "id must be a non-empty string"⟩
  else if chunkCount_range : ¬ ∀ n ∈ chunkCount, 0 ≤ n ∧ n ≤ maxInteger then
    .error ⟨some "chunk_count", "chunk_count must be an integer between 0 and 2147483647"⟩
  else if retryable_some : status = .failed ∧ ¬ retryable.isSome then
    .error ⟨some "retryable", "retryable must be true or false when status is FAILED"⟩
  else if reason_some : status = .failed ∧ ¬ reason.isSome then
    .error ⟨some "reason", "reason is required when status is FAILED"⟩
  else .ok {
    hash, status, attempts, retryable, reason, detail := cut, chunkCount, id, createdAt
    hash_ne, id_ne
    attempts_range := not_not.1 attempts_range
    detail_le := by
      intro d hd
      obtain ⟨d', -, rfl⟩ := Option.map_eq_some_iff.1 hd
      exact List.length_take_le ..
    chunkCount_range := not_not.1 chunkCount_range
    failed_complete := fun h =>
      ⟨not_not.1 fun hn => retryable_some ⟨h, hn⟩, not_not.1 fun hn => reason_some ⟨h, hn⟩⟩ }

def indexed (hash : PyStr) (attempts : Int) (chunkCount : Option Int) (id : PyStr)
    (createdAt : Int) : Except InvalidEvent StatusEvent :=
  init hash .indexed attempts none none none chunkCount id createdAt

def failed (hash : PyStr) (attempts : Int) (retryable : Bool) (reason : Reason)
    (detail : Option PyStr) (id : PyStr) (createdAt : Int) : Except InvalidEvent StatusEvent :=
  init hash .failed attempts (some retryable) (some reason) detail none id createdAt

def toDict (s : StatusEvent) : List (PyStr × Json) :=
  [(ofString "id", .str s.id), (ofString "hash", .str s.hash),
    (ofString "status", text s.status.value), (ofString "attempts", int s.attempts)] ++
  optional "retryable" Json.bool s.retryable ++
  optional "reason" (fun r => text r.value) s.reason ++
  optional "detail" Json.str s.detail ++
  optional "chunk_count" int s.chunkCount ++
  -- `datetime` holds the years 1 to 9999 only
  [(ofString "created_at", text ((pyTimestamp s.createdAt).getD "")),
    (ofString "schema_version", int schemaVersion)]

def toJson (s : StatusEvent) : RawText :=
  ⟨(Json.obj s.toDict).textLength pyEscaped, some (.obj s.toDict)⟩

def toEntry (s : StatusEvent) : Fields := ⟨some statusEventType, some s.toJson⟩

theorem init_ok {hash : PyStr} {status : Status} {attempts : Int} {retryable : Option Bool}
    {reason : Option Reason} {detail : Option PyStr} {chunkCount : Option Int} {id : PyStr}
    {createdAt : Int} {s : StatusEvent}
    (h : init hash status attempts retryable reason detail chunkCount id createdAt = .ok s) :
    s.hash = hash ∧ s.status = status ∧ s.attempts = attempts ∧ s.retryable = retryable ∧
      s.reason = reason := by
  unfold init at h
  dsimp only at h
  split_ifs at h
  cases h
  exact ⟨rfl, rfl, rfl, rfl, rfl⟩

theorem carried_toEntry (s : StatusEvent) : s.toEntry.carried = some (s.hash, s.attempts) :=
  Fields.carried_eq rfl (by simp [toDict]) (by simp [toDict])

end StatusEvent

/-! ### Go's reader -/

/-- The status event as Go holds it. -/
structure DecodedStatus where
  id : String
  hash : String
  status : Status
  attempts : Int
  retryable : Option Bool
  reason : Option Reason
  detail : String
  chunkCount : Option Int
  deriving DecidableEq

namespace FieldReader

variable (members : List (PyStr × Json))

/-- A present field; `null` counts as absent. -/
def raw (key : String) : Option Json :=
  match member? members key with
  | some .null => none
  | j => j

def fail {α : Type} (key : String) : Except InvalidEvent α :=
  .error ⟨some key, "field " ++ key⟩

def str (key : String) : Except InvalidEvent String :=
  match raw members key with
  | none => .ok ""
  | some (.str s) => .ok (toGo s)
  | some _ => fail key

def boolean (key : String) : Except InvalidEvent (Option Bool) :=
  match raw members key with
  | none => .ok none
  | some (.bool b) => .ok (some b)
  | some _ => fail key

/-- `strconv.ParseFloat`, then an integer within the int32 range. -/
def integer (key : String) : Except InvalidEvent (Option Int) :=
  match raw members key with
  | none => .ok none
  | some (.num n) =>
    match float64 n.value with
    | some f => if f ≠ ⌊f⌋ ∨ |f| > maxInteger then fail key else .ok (some ⌊f⌋)
    | none => fail key
  | some _ => fail key

end FieldReader

open FieldReader in
def decodeStatusFields (fields : List (PyStr × Json)) : Except InvalidEvent DecodedStatus := do
  let id ← str fields "id"
  let hash ← str fields "hash"
  let status ← str fields "status"
  let reason ← str fields "reason"
  let detail ← str fields "detail"
  let retryable ← boolean fields "retryable"
  let chunkCount ← integer fields "chunk_count"
  let attempts ← integer fields "attempts"
  let version ← integer fields "schema_version"
  if version ≠ some schemaVersion then .error ⟨some "schema_version", "unsupported schema_version"⟩
  else if hash = "" then .error ⟨some "hash", "hash is required"⟩
  else if status = "" then .error ⟨some "status", "status is required"⟩
  else match attempts with
  | none => .error ⟨some "attempts", "attempts must be present and >= 0"⟩
  | some n =>
    let known := Reason.all.find? fun r => r.value = reason
    if n < 0 then .error ⟨some "attempts", "attempts must be present and >= 0"⟩
    else if chunkCount.any (· < 0) then .error ⟨some "chunk_count", "chunk_count must be >= 0"⟩
    else if reason ≠ "" ∧ known = none then .error ⟨some "reason", "unknown reason"⟩
    else match Status.all.find? fun s => s.value = status with
    | some .indexed => .ok ⟨id, hash, .indexed, n, retryable, known, detail, chunkCount⟩
    | some .failed =>
      if retryable = none then
        .error ⟨some "retryable", "retryable is required when status is FAILED"⟩
      else if reason = "" then
        .error ⟨some "reason", "reason is required when status is FAILED"⟩
      else .ok ⟨id, hash, .failed, n, retryable, known, detail, chunkCount⟩
    | none => .error ⟨some "status", "unknown status"⟩

def decodeStatus (payload : RawText) : Except InvalidEvent DecodedStatus :=
  match payload.json with
  | some (.obj fields) => decodeStatusFields fields
  | some .null => .error ⟨none, "payload must be a JSON object"⟩
  | _ => .error ⟨none, "malformed json"⟩

/-! ### Go reads what Python writes -/

section Decode

variable {members : List (PyStr × Json)} {key : String}

theorem FieldReader.str_of_str {s : PyStr} (h : member? members key = some (.str s)) :
    FieldReader.str members key = .ok (toGo s) := by
  simp [FieldReader.str, FieldReader.raw, h]

theorem FieldReader.str_of_optional {o : Option PyStr}
    (h : member? members key = o.map Json.str) :
    FieldReader.str members key = .ok ((o.map toGo).getD "") := by
  cases o <;> simp [FieldReader.str, FieldReader.raw, h]

theorem FieldReader.boolean_of_optional {o : Option Bool}
    (h : member? members key = o.map Json.bool) : FieldReader.boolean members key = .ok o := by
  cases o <;> simp [FieldReader.boolean, FieldReader.raw, h]

theorem FieldReader.integer_of_optional {o : Option Int} (h : member? members key = o.map int)
    (hr : ∀ n ∈ o, 0 ≤ n ∧ n ≤ maxInteger) : FieldReader.integer members key = .ok o := by
  cases o with
  | none => simp [FieldReader.integer, FieldReader.raw, h]
  | some n =>
    obtain ⟨h₀, h₁⟩ := hr n rfl
    have hf := float64_intCast (n := n) (by unfold maxInteger at h₁; omega)
    have hq : |(n : ℚ)| ≤ (maxInteger : ℚ) := by
      rw [abs_of_nonneg (by exact_mod_cast h₀)]
      exact_mod_cast h₁
    simp [FieldReader.integer, FieldReader.raw, h, int, Number.value, hf, hq]

/-- What Go reads for an optional reason. -/
def reasonText (o : Option Reason) : String := (o.map Reason.value).getD ""

theorem FieldReader.str_of_reason {o : Option Reason}
    (h : member? members key = o.map fun r => text r.value) :
    FieldReader.str members key = .ok (reasonText o) := by
  have hvalue : member? members key = (o.map fun r => ofString r.value).map Json.str := by
    rw [h]
    cases o <;> rfl
  rw [FieldReader.str_of_optional hvalue]
  simp [reasonText, Function.comp_def]

theorem reason_find (o : Option Reason) :
    Reason.all.find? (fun r => r.value = reasonText o) = o := by
  rcases o with _ | r
  · decide
  · cases r <;> decide

theorem reasonText_eq_empty {o : Option Reason} : reasonText o = "" ↔ o = none := by
  rcases o with _ | r
  · simp [reasonText]
  · cases r <;> simp [reasonText, Reason.value]

theorem status_find (s : Status) : Status.all.find? (fun x => x.value = s.value) = some s := by
  cases s <;> decide

/-- The event as it arrives in Go. -/
def StatusEvent.decoded (s : StatusEvent) : DecodedStatus :=
  ⟨toGo s.id, toGo s.hash, s.status, s.attempts, s.retryable, s.reason,
    (s.detail.map toGo).getD "", s.chunkCount⟩

theorem decodeStatus_toJson (s : StatusEvent) : decodeStatus s.toJson = .ok s.decoded := by
  unfold StatusEvent.decoded
  have hid : FieldReader.str s.toDict "id" = .ok (toGo s.id) :=
    FieldReader.str_of_str (by simp [StatusEvent.toDict])
  have hhash : FieldReader.str s.toDict "hash" = .ok (toGo s.hash) :=
    FieldReader.str_of_str (by simp [StatusEvent.toDict])
  have hstatus : FieldReader.str s.toDict "status" = .ok (toGo (ofString s.status.value)) :=
    FieldReader.str_of_str (by simp [StatusEvent.toDict, text])
  have hreason : FieldReader.str s.toDict "reason" = .ok (reasonText s.reason) :=
    FieldReader.str_of_reason (by simp [StatusEvent.toDict])
  have hdetail : FieldReader.str s.toDict "detail" = .ok ((s.detail.map toGo).getD "") :=
    FieldReader.str_of_optional (by simp [StatusEvent.toDict])
  have hretryable : FieldReader.boolean s.toDict "retryable" = .ok s.retryable :=
    FieldReader.boolean_of_optional (by simp [StatusEvent.toDict])
  have hchunk : FieldReader.integer s.toDict "chunk_count" = .ok s.chunkCount :=
    FieldReader.integer_of_optional (by simp [StatusEvent.toDict]) s.chunkCount_range
  have hattempts : FieldReader.integer s.toDict "attempts" = .ok (some s.attempts) :=
    FieldReader.integer_of_optional (by simp [StatusEvent.toDict])
      (by rintro _ ⟨⟩; exact s.attempts_range)
  have hversion : FieldReader.integer s.toDict "schema_version" = .ok (some schemaVersion) :=
    FieldReader.integer_of_optional (by simp [StatusEvent.toDict]) (by rintro _ ⟨⟩; decide)
  have hnonneg : ¬ s.attempts < 0 := by have := s.attempts_range.1; omega
  have hcount : s.chunkCount.any (· < 0) = false := by
    rw [Option.any_eq_false]
    intro n hn
    have := (s.chunkCount_range n hn).1
    simpa using this
  have hvalue : s.status.value ≠ "" := by cases s.status <;> decide
  simp only [decodeStatus, StatusEvent.toJson, decodeStatusFields, hid, hhash, hstatus, hreason,
    hdetail, hretryable, hchunk, hattempts, hversion, bind, Except.bind, toGo_ofString,
    toGo_eq_empty, s.hash_ne, hvalue, hnonneg, hcount, reason_find, reasonText_eq_empty,
    status_find]
  -- an unknown reason is the only way left to refuse, and none that Python writes is unknown
  cases hs : s.status with
  | indexed => simp [reasonText_eq_empty]
  | failed =>
    obtain ⟨hr, hn⟩ := s.failed_complete hs
    simp [Option.isSome_iff_ne_none.1 hr, Option.isSome_iff_ne_none.1 hn]

end Decode

end Events

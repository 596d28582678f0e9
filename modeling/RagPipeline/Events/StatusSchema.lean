import RagPipeline.Events.StatusContract
import RagPipeline.Events.StatusReading

/-!
# Go reads the whole contract

Every document the schema admits is accepted, whoever wrote it: the schema's integers are integers
however they are written, its `null`s are excluded by the types, and a `created_at` that is no date
is not looked at. What comes out are the values of the document, with one reservation for the
hash: Go holds Unicode text, and reads a lone surrogate as U+FFFD.

## Main definitions

* `SameValues`, `SameHash`: the decoded event holds the values of the document.

## Main results

* `decodeEvent_of_valid`: a valid document is accepted, with its values.
-/
namespace Events

open Wire FieldReader

/-- The integer read for a member is its exact value. -/
def SameCount : Option Json → Option Int → Prop
  | none, none => True
  | some (.num n), some m => n.value = m
  | _, _ => False

structure SameValues (fields : List (PyStr × Json)) (d : DecodedStatus) : Prop where
  status : member? fields "status" = some (text d.status.value)
  attempts : SameCount (member? fields "attempts") (some d.attempts)
  retryable : member? fields "retryable" = d.retryable.map Json.bool
  reason : member? fields "reason" = d.reason.map fun r => text r.value
  chunkCount : SameCount (member? fields "chunk_count") d.chunkCount

def SameHash (fields : List (PyStr × Json)) (d : DecodedStatus) : Prop :=
  member? fields "hash" = some (.str (ofString d.hash))

section Members

variable {fields : List (PyStr × Json)} {key : String}

theorem raw_of_count {n : Number} (h : member? fields key = some (.num n)) :
    raw fields key = some (.num n) := by
  simp [raw, h]

theorem gives_of_count {m : Int} (h : SameCount (member? fields key) (some m))
    (hm : 0 ≤ m ∧ m ≤ maxInteger) : Gives fields key m := by
  cases hj : member? fields key with
  | none => simp [hj, SameCount] at h
  | some j =>
    cases j with
    | num n =>
      rw [hj] at h
      have hv : n.value = m := h
      refine ⟨abs_le.2 ⟨by omega, hm.2⟩, n, raw_of_count hj, ?_⟩
      rw [hv]
      exact .refl m
    | _ => simp [hj, SameCount] at h

theorem integer_of_count {o : Option Int} (h : SameCount (member? fields key) o)
    (ho : ∀ m ∈ o, 0 ≤ m ∧ m ≤ maxInteger) : integer fields key = .ok o := by
  cases o with
  | none =>
    cases hj : member? fields key with
    | none => simp [integer_none, raw, hj]
    | some j => cases j <;> simp [hj, SameCount] at h
  | some m => exact integer_some.2 (gives_of_count h (ho m rfl))

end Members

/-! ### A valid document -/

/-- The keywords of an integer field. -/
def counter : List Keyword := [.type .integer, .minimum 0, .maximum 2147483647]

/-- A valid integer field holds an integer in range, however it is written. -/
theorem count_of_valid {j : Json} (h : ∀ k ∈ counter, k.valid j) :
    ∃ m : Int, SameCount (some j) (some m) ∧ 0 ≤ m ∧ m ≤ maxInteger := by
  have htype := h (.type .integer) (by simp [counter])
  have hmin := h (.minimum 0) (by simp [counter])
  have hmax := h (.maximum 2147483647) (by simp [counter])
  cases j with
  | num n =>
    simp only [Keyword.valid, JsonType.holds, decide_eq_true_eq] at htype hmin hmax
    rw [htype] at hmin hmax
    refine ⟨⌊n.value⌋, htype, by exact_mod_cast hmin, ?_⟩
    unfold maxInteger
    exact_mod_cast hmax
  | _ => simp [Keyword.valid, JsonType.holds] at htype

section Members

variable {r : Record} {fields : List (PyStr × Json)} {name : String}

theorem text_member (h : r.valid fields) (hr : name ∈ r.required)
    (hp : (name, [.type .string, .minLength 1]) ∈ r.properties) :
    ∃ s : PyStr, member? fields name = some (.str s) ∧ s ≠ [] := by
  obtain ⟨j, hj, hk⟩ := Record.exists_member h hr hp
  obtain ⟨s, rfl⟩ := valid_type_string.1 (hk (.type .string) (by simp))
  have hlen := valid_minLength.1 (hk (.minLength 1) (by simp))
  exact ⟨s, hj, List.ne_nil_of_length_pos hlen⟩

theorem count_member (h : r.valid fields) (hr : name ∈ r.required)
    (hp : (name, counter) ∈ r.properties) :
    ∃ m : Int, SameCount (member? fields name) (some m) ∧ 0 ≤ m ∧ m ≤ maxInteger := by
  obtain ⟨j, hj, hk⟩ := Record.exists_member h hr hp
  rw [hj]
  exact count_of_valid hk

theorem version_member (h : r.valid fields) (hr : name ∈ r.required)
    (hp : (name, [.const 1]) ∈ r.properties) :
    SameCount (member? fields name) (some schemaVersion) := by
  obtain ⟨j, hj, hk⟩ := Record.exists_member h hr hp
  obtain ⟨n, rfl, hv⟩ := valid_const_iff.1 (hk _ (List.mem_singleton_self _))
  rw [hj]
  exact hv

theorem status_member (h : r.valid fields) (hr : name ∈ r.required)
    (hp : (name, [.enum ["INDEXED", "FAILED"]]) ∈ r.properties) :
    ∃ s : Status, member? fields name = some (text s.value) := by
  obtain ⟨j, hj, hk⟩ := Record.exists_member h hr hp
  obtain ⟨v, hv, rfl⟩ := valid_enum_iff.1 (hk _ (List.mem_singleton_self _))
  simp only [List.mem_cons, List.not_mem_nil, or_false] at hv
  obtain rfl | rfl := hv
  · exact ⟨.indexed, hj⟩
  · exact ⟨.failed, hj⟩

/-- A member that may be absent. -/
theorem optional_member {keywords : List Keyword} {α : Type} {f : α → Json} (h : r.valid fields)
    (hp : (name, keywords) ∈ r.properties)
    (hf : ∀ j, (∀ k ∈ keywords, k.valid j) → ∃ a, j = f a) :
    ∃ o : Option α, member? fields name = o.map f := by
  cases hj : member? fields name with
  | none => exact ⟨none, rfl⟩
  | some j =>
    obtain ⟨a, rfl⟩ := hf j (Record.valid_member h hp hj)
    exact ⟨some a, rfl⟩

theorem optional_count (h : r.valid fields) (hp : (name, counter) ∈ r.properties) :
    ∃ o : Option Int, SameCount (member? fields name) o ∧ ∀ m ∈ o, 0 ≤ m ∧ m ≤ maxInteger := by
  cases hj : member? fields name with
  | none => exact ⟨none, trivial, nofun⟩
  | some j =>
    obtain ⟨m, hm, hr⟩ := count_of_valid (Record.valid_member h hp hj)
    exact ⟨some m, hm, by simpa using hr⟩

end Members

def reasons : List String := ["UNSUPPORTED_TYPE", "EMPTY_TEXT", "CORRUPT_FILE",
  "DEPENDENCY_UNAVAILABLE", "JOB_TIMEOUT", "POISON_MESSAGE", "INTERNAL"]

theorem reason_of_valid {j : Json} (h : ∀ k ∈ [Keyword.enum reasons], k.valid j) :
    ∃ r : Reason, j = text r.value := by
  obtain ⟨v, hv, rfl⟩ := valid_enum_iff.1 (h _ (List.mem_singleton_self _))
  simp only [reasons, List.mem_cons, List.not_mem_nil, or_false] at hv
  obtain rfl | rfl | rfl | rfl | rfl | rfl | rfl := hv
  exacts [⟨.unsupportedType, rfl⟩, ⟨.emptyText, rfl⟩, ⟨.corruptFile, rfl⟩,
    ⟨.dependencyUnavailable, rfl⟩, ⟨.jobTimeout, rfl⟩, ⟨.poisonMessage, rfl⟩, ⟨.internal, rfl⟩]

section Valid

variable {fields : List (PyStr × Json)}

/-- The conditional part: a failure says why. -/
theorem complete_of_valid (h : statusEventSchema.valid (.obj fields)) {s : Status}
    (hs : member? fields "status" = some (text s.value)) (hf : s = .failed) :
    (member? fields "retryable").isSome ∧ (member? fields "reason").isSome := by
  subst hf
  have hif : (Keyword.enum ["FAILED"]).valid (text Status.failed.value) := by
    simp [text, Status.value]
  simp only [Schema.valid, decide_eq_true_eq] at h
  simpa [statusEventSchema, Record.valid, hs, hif] using h.2

/-- What is read of a document that satisfies the schema. -/
theorem reads_of_valid (h : statusEventSchema.valid (.obj fields)) :
    ∃ d hash, Reads fields d ∧ SameValues fields d ∧
      member? fields "hash" = some (.str hash) ∧ d.hash = toGo hash := by
  have hr : statusEventSchema.record.valid fields := by
    simp only [Schema.valid, decide_eq_true_eq] at h
    exact h.1
  obtain ⟨id, hid, -⟩ := @text_member _ _ "id" hr (by simp [statusEventSchema])
    (by simp [statusEventSchema])
  obtain ⟨hash, hhash, hne⟩ := @text_member _ _ "hash" hr (by simp [statusEventSchema])
    (by simp [statusEventSchema])
  obtain ⟨status, hstatus⟩ := @status_member _ _ "status" hr (by simp [statusEventSchema])
    (by simp [statusEventSchema])
  obtain ⟨attempts, hattempts, hrange⟩ := @count_member _ _ "attempts" hr
    (by simp [statusEventSchema]) (by simp [statusEventSchema, counter])
  obtain ⟨retryable, hretryable⟩ := @optional_member _ _ "retryable" [.type .boolean] _ Json.bool
    hr (by simp [statusEventSchema]) fun j hk =>
      valid_type_boolean.1 (hk _ (List.mem_singleton_self _))
  obtain ⟨reason, hreason⟩ := optional_member hr
    (by simp [statusEventSchema, reasons] : ("reason", [.enum reasons]) ∈ _) fun j =>
      reason_of_valid
  obtain ⟨detail, hdetail⟩ := @optional_member _ _ "detail" [.type .string] _ Json.str
    hr (by simp [statusEventSchema]) fun j hk =>
      valid_type_string.1 (hk _ (List.mem_singleton_self _))
  obtain ⟨chunkCount, hchunk, hcount⟩ := @optional_count _ _ "chunk_count" hr
    (by simp [statusEventSchema, counter])
  have hversion := @version_member _ _ "schema_version" hr (by simp [statusEventSchema])
    (by simp [statusEventSchema])
  refine ⟨⟨toGo id, toGo hash, status, attempts, retryable, reason, (detail.map toGo).getD "",
    chunkCount⟩, hash, ?_, ⟨hstatus, hattempts, hretryable, hreason, hchunk⟩, hhash, rfl⟩
  exact {
    id := str_of_str hid
    hash := str_of_str hhash
    status := by simpa using str_of_str hstatus
    reason := str_of_reason hreason
    detail := str_of_optional hdetail
    retryable := boolean_of_optional hretryable
    chunkCount := integer_of_count hchunk hcount
    attempts := integer_of_count hattempts (by simpa using hrange)
    version := integer_of_count hversion (by simp [schemaVersion, maxInteger])
    hash_ne := mt toGo_eq_empty.1 hne
    attempts_nonneg := hrange.1
    chunkCount_nonneg := fun n hn => (hcount n hn).1
    complete := fun hf => by
      have hc := complete_of_valid h hstatus hf
      rwa [hretryable, hreason, Option.isSome_map, Option.isSome_map] at hc }

/-- The center accepts a valid document and takes its values; the hash is the document's own
unless that is no Unicode text. -/
theorem decodeEvent_of_valid {payload : RawText} {document : Json}
    (hp : payload.json = some document) (h : statusEventSchema.valid document) :
    ∃ fields d hash, document = .obj fields ∧ decodeEvent payload = .ok d ∧
      SameValues fields d.toDecodedStatus ∧ member? fields "hash" = some (.str hash) ∧
      d.hash = toGo hash ∧ (isUnicode hash → SameHash fields d.toDecodedStatus) := by
  cases document with
  | obj fields =>
    obtain ⟨d, hash, hreads, hvalues, hmember, hhash⟩ := reads_of_valid h
    have hdecode : decodeStatus payload = .ok d := by
      simp only [decodeStatus, hp, hreads.decode]
    refine ⟨fields, { d with createdAt := createdAtOf payload }, hash, rfl, ?_, hvalues, hmember,
      hhash, fun hu => ?_⟩
    · rw [decodeEvent, hdecode]
      rfl
    · rw [SameHash, hmember, hhash, ofString_toGo hu]
  | _ => simp [Schema.valid] at h

end Valid

/-- A report of an indexed document, with an unknown member, `2.0` attempts and the 30th of
February. -/
def reportOf (hash : PyStr) : List (PyStr × Json) :=
  [(ofString "id", text "s"), (ofString "hash", .str hash), (ofString "Status", text "FAILED"),
    (ofString "status", text "INDEXED"), (ofString "attempts", .num (.decimal 20 (-1))),
    (ofString "created_at", text "2026-02-30T25:61:00Z"), (ofString "schema_version", int 1)]

def reportText (hash : PyStr) : RawText :=
  ⟨(Json.obj (reportOf hash)).textLength pyEscaped, some (.obj (reportOf hash))⟩

theorem decodeEvent_of_valid_report : ∃ fields d hash,
    Json.obj (reportOf (ofString "a")) = .obj fields ∧
      decodeEvent (reportText (ofString "a")) = .ok d ∧
      SameValues fields d.toDecodedStatus ∧ member? fields "hash" = some (.str hash) ∧
      d.hash = toGo hash ∧ (isUnicode hash → SameHash fields d.toDecodedStatus) :=
  decodeEvent_of_valid rfl (by decide +kernel)

/-- The hash that is the lone surrogate U+D800 is read as U+FFFD. -/
theorem not_sameHash : ¬ ∀ payload fields, payload.json = some (.obj fields) →
    statusEventSchema.valid (.obj fields) → ∃ d, decodeEvent payload = .ok d ∧
      SameValues fields d.toDecodedStatus ∧ SameHash fields d.toDecodedStatus := by
  intro h
  obtain ⟨d, -, -, hd⟩ := h (reportText [0xD800]) _ rfl (by decide +kernel)
  have hmember : member? (reportOf [0xD800]) "hash" = some (.str [0xD800]) := by
    simp [reportOf]
  rw [SameHash, hmember] at hd
  have hu := isUnicode_ofString d.hash
  simp only [Option.some.injEq, Json.str.injEq] at hd
  rw [← hd] at hu
  exact absurd hu (by decide)

end Events

import RagPipeline.Events.StatusEvent
import RagPipeline.Wire.Rounding

/-!
# What `DecodeStatus` accepts

Every field is read on its own, so a payload is accepted just when its fields are of their types
and the few checks across them hold. Integer fields pass through a 64-bit float on the way, and a
number is taken for the integer it rounds to.

## Main definitions

* `Readable`: what the payload's members have to be.
* `ReadExactly`: the integer fields hold the very numbers that are returned.

## Main results

* `decodeStatus_accepts`: the payloads that are accepted are the readable ones.
* `decodeStatus_exact`: when the integer fields are read exactly.
-/
namespace Events

open Wire

namespace FieldReader

variable {members : List (PyStr × Json)} {key : String}

theorem str_ok {s : String} : str members key = .ok s ↔
    raw members key = none ∧ s = "" ∨ ∃ t, raw members key = some (.str t) ∧ s = toGo t := by
  unfold str
  cases hr : raw members key with
  | none => simp [eq_comm]
  | some j => cases j <;> simp [fail, eq_comm]

theorem boolean_ok {b : Option Bool} : boolean members key = .ok b ↔
    raw members key = b.map Json.bool := by
  unfold boolean
  cases hr : raw members key with
  | none => cases b <;> simp
  | some j => cases j <;> cases b <;> simp [fail]

/-- The number given for an integer field rounds to that integer. -/
def Gives (members : List (PyStr × Json)) (key : String) (m : Int) : Prop :=
  |m| ≤ maxInteger ∧ ∃ n, raw members key = some (.num n) ∧ RoundsTo n.value m

theorem natAbs_lt_of_abs_le {m : Int} (h : |m| ≤ maxInteger) : m.natAbs < 2 ^ 51 := by
  rw [Int.abs_eq_natAbs] at h
  unfold maxInteger at h
  omega

theorem Gives.float64 {n : Number} {m : Int} (hr : raw members key = some (.num n))
    (h : Gives members key m) : Wire.float64 n.value = some (m : ℚ) := by
  obtain ⟨hm, n', hn', hround⟩ := h
  obtain rfl : n = n' := by simpa [hr] using hn'
  exact (float64_eq_intCast (natAbs_lt_of_abs_le hm)).2 hround

theorem Gives.integer_eq {m : Int} (h : Gives members key m) :
    integer members key = .ok (some m) := by
  obtain ⟨n, hr, -⟩ := h.2
  have hle : |(m : ℚ)| ≤ maxInteger := by exact_mod_cast h.1
  simp [integer, hr, h.float64 hr, hle]

theorem integer_ok {o : Option Int} : integer members key = .ok o ↔
    raw members key = none ∧ o = none ∨ ∃ m, o = some m ∧ Gives members key m := by
  constructor
  · intro h
    unfold integer at h
    split at h
    · rename_i hr
      exact .inl ⟨hr, (Except.ok.inj h).symm⟩
    · rename_i n hr
      split at h
      · rename_i f hf
        split_ifs at h with hbad
        · cases h
        obtain ⟨hint, hle⟩ := not_or.1 hbad
        rw [not_not] at hint
        rw [gt_iff_lt, not_lt] at hle
        rw [hint] at hle hf
        have hm : |⌊f⌋| ≤ maxInteger := by exact_mod_cast hle
        have hround := (float64_eq_intCast (natAbs_lt_of_abs_le hm)).1 hf
        exact .inr ⟨⌊f⌋, (Except.ok.inj h).symm, hm, n, hr, hround⟩
      · cases h
    · cases h
  · rintro (⟨hr, rfl⟩ | ⟨m, rfl, hm⟩)
    · simp [integer, hr]
    · exact hm.integer_eq

theorem integer_some {m : Int} : integer members key = .ok (some m) ↔ Gives members key m := by
  simp [integer_ok]

theorem integer_none : integer members key = .ok none ↔ raw members key = none := by
  simp [integer_ok]

end FieldReader

open FieldReader

/-! ### One field after another -/

/-- Where the parts of a decoded event come from, and the checks across them. -/
structure Reads (fields : List (PyStr × Json)) (s : DecodedStatus) : Prop where
  id : str fields "id" = .ok s.id
  hash : str fields "hash" = .ok s.hash
  status : str fields "status" = .ok s.status.value
  reason : str fields "reason" = .ok (reasonText s.reason)
  detail : str fields "detail" = .ok s.detail
  retryable : boolean fields "retryable" = .ok s.retryable
  chunkCount : integer fields "chunk_count" = .ok s.chunkCount
  attempts : integer fields "attempts" = .ok (some s.attempts)
  version : integer fields "schema_version" = .ok (some schemaVersion)
  hash_ne : s.hash ≠ ""
  attempts_nonneg : 0 ≤ s.attempts
  chunkCount_nonneg : ∀ n ∈ s.chunkCount, 0 ≤ n
  complete : s.status = .failed → s.retryable.isSome ∧ s.reason.isSome

section Reads

variable {fields : List (PyStr × Json)} {s : DecodedStatus}

theorem bind_ok {ε α β : Type} {x : Except ε α} {f : α → Except ε β} {b : β} :
    (x >>= f) = .ok b ↔ ∃ a, x = .ok a ∧ f a = .ok b := by
  cases x <;> simp [bind, Except.bind]

theorem ite_error_ok {ε β : Type} {c : Prop} [Decidable c] {e : ε} {x : Except ε β} {b : β} :
    (if c then .error e else x) = .ok b ↔ ¬ c ∧ x = .ok b := by
  split_ifs with h <;> simp [h]

theorem reasonText_find {t : String}
    (h : ¬ (t ≠ "" ∧ (Reason.all.find? fun r => r.value = t) = none)) :
    reasonText (Reason.all.find? fun r => r.value = t) = t := by
  by_cases ht : t = ""
  · subst ht
    decide
  · obtain ⟨r, hr⟩ := Option.ne_none_iff_exists'.1 fun hn => h ⟨ht, hn⟩
    rw [hr]
    simpa [reasonText] using List.find?_some hr

theorem Reads.decode (h : Reads fields s) : decodeStatusFields fields = .ok s := by
  obtain ⟨id, hash, status, n, retryable, reason, detail, chunkCount⟩ := s
  obtain ⟨hid, hhash, hstatus, hreason, hdetail, hretryable, hchunk, hattempts, hversion, hne, hn,
    hcount, hcomplete⟩ := h
  have hcount' : chunkCount.any (· < 0) = false := by
    rw [Option.any_eq_false]
    intro c hc
    have := hcount c hc
    simpa using this
  have hvalue : status.value ≠ "" := by cases status <;> decide
  simp only [decodeStatusFields, hid, hhash, hstatus, hreason, hdetail, hretryable, hchunk,
    hattempts, hversion, bind, Except.bind, hvalue, hcount', Int.not_lt.2 hn, reason_find,
    status_find]
  -- an unknown reason is the only way left to refuse, and this one is known
  cases status with
  | indexed => simpa [reasonText_eq_empty] using hne
  | failed =>
    obtain ⟨hr, hk⟩ := hcomplete rfl
    simpa [reasonText_eq_empty, Option.isSome_iff_ne_none.1 hr, Option.isSome_iff_ne_none.1 hk]
      using hne

theorem Reads.of_decode (h : decodeStatusFields fields = .ok s) : Reads fields s := by
  simp only [decodeStatusFields, bind_ok, ite_error_ok] at h
  obtain ⟨id, hid, hash, hhash, status, hstatus, reason, hreason, detail, hdetail, retryable,
    hretryable, chunkCount, hchunk, attempts, hattempts, version, hversion, hv, hne, -, h⟩ := h
  cases attempts with
  | none => cases h
  | some n =>
    simp only [ite_error_ok] at h
    obtain ⟨hn, hcount, hreason', h⟩ := h
    have hcount' : ∀ c ∈ chunkCount, 0 ≤ c := by
      intro c hc
      simp only [Option.any_eq_true, not_exists] at hcount
      simpa [Option.mem_def.1 hc] using hcount c
    have hknown := reasonText_find hreason'
    have hversion' := not_not.1 hv ▸ hversion
    split at h
    · rename_i hfind
      obtain rfl : Status.indexed.value = status := by simpa using List.find?_some hfind
      obtain rfl := Except.ok.inj h
      exact ⟨hid, hhash, hstatus, hreason.trans (congrArg _ hknown.symm), hdetail, hretryable,
        hchunk, hattempts, hversion', hne, not_lt.1 hn, hcount', by rintro ⟨⟩⟩
    · rename_i hfind
      obtain rfl : Status.failed.value = status := by simpa using List.find?_some hfind
      simp only [ite_error_ok] at h
      obtain ⟨hr, hempty, h⟩ := h
      obtain rfl := Except.ok.inj h
      refine ⟨hid, hhash, hstatus, hreason.trans (congrArg _ hknown.symm), hdetail, hretryable,
        hchunk, hattempts, hversion', hne, not_lt.1 hn, hcount', fun _ => ?_⟩
      refine ⟨Option.isSome_iff_ne_none.2 hr, Option.isSome_iff_ne_none.2 fun hn => ?_⟩
      exact hempty (hknown.symm.trans (reasonText_eq_empty.2 hn))
    · cases h

theorem decodeStatusFields_ok : decodeStatusFields fields = .ok s ↔ Reads fields s :=
  ⟨.of_decode, Reads.decode⟩

end Reads

/-! ### Readable payloads -/

/-- An absent field, `null`, or a text. -/
def IsText (fields : List (PyStr × Json)) (key : String) : Prop :=
  ∀ j, raw fields key = some j → ∃ t, j = .str t

/-- What `DecodeStatus` asks of the members; numbers are only looked at after rounding. -/
structure Readable (fields : List (PyStr × Json)) : Prop where
  texts : ∀ key ∈ ["id", "hash", "status", "reason", "detail"], IsText fields key
  retryable : ∀ j, raw fields "retryable" = some j → ∃ b, j = .bool b
  version : Gives fields "schema_version" schemaVersion
  hash : ∃ t, raw fields "hash" = some (.str t) ∧ t ≠ []
  attempts : ∃ n, 0 ≤ n ∧ Gives fields "attempts" n
  chunkCount : raw fields "chunk_count" ≠ none → ∃ n, 0 ≤ n ∧ Gives fields "chunk_count" n
  reason : ∀ t, raw fields "reason" = some (.str t) → t = [] ∨ ∃ r : Reason, toGo t = r.value
  status : ∃ t, ∃ s : Status, raw fields "status" = some (.str t) ∧ toGo t = s.value ∧
    (s = .failed → raw fields "retryable" ≠ none ∧
      ∃ t, raw fields "reason" = some (.str t) ∧ t ≠ [])

section Readable

variable {fields : List (PyStr × Json)} {s : DecodedStatus} {key : String}

theorem isText_iff : IsText fields key ↔ ∃ s, str fields key = .ok s := by
  unfold IsText str
  cases raw fields key with
  | none => simp
  | some j => cases j <;> simp [fail]

theorem IsText.str_eq (h : IsText fields key) : ∃ s, str fields key = .ok s := isText_iff.1 h

theorem Reads.readable (h : Reads fields s) : Readable fields where
  texts := by
    simp [isText_iff, h.id, h.hash, h.status, h.reason, h.detail]
  retryable := by
    intro j hj
    rw [boolean_ok.1 h.retryable] at hj
    obtain ⟨b, -, rfl⟩ := Option.map_eq_some_iff.1 hj
    exact ⟨b, rfl⟩
  version := integer_some.1 h.version
  hash := by
    obtain ⟨-, hn⟩ | ⟨t, ht, hn⟩ := str_ok.1 h.hash
    · exact absurd hn h.hash_ne
    · exact ⟨t, ht, fun he => h.hash_ne (hn.trans (toGo_eq_empty.2 he))⟩
  attempts := ⟨_, h.attempts_nonneg, integer_some.1 h.attempts⟩
  chunkCount := by
    intro hne
    obtain ⟨hn, -⟩ | ⟨n, hn, hg⟩ := integer_ok.1 h.chunkCount
    · exact absurd hn hne
    · exact ⟨n, h.chunkCount_nonneg n hn, hg⟩
  reason := by
    intro t ht
    obtain ⟨hn, -⟩ | ⟨t', ht', hn⟩ := str_ok.1 h.reason
    · simp [ht] at hn
    · obtain rfl : t = t' := by simpa [ht] using ht'
      cases hr : s.reason with
      | none => exact .inl (toGo_eq_empty.1 (hn.symm.trans (by rw [hr]; rfl)))
      | some r => exact .inr ⟨r, hn.symm.trans (by rw [hr]; rfl)⟩
  status := by
    have hvalue : s.status.value ≠ "" := by cases s.status <;> decide
    obtain ⟨-, hn⟩ | ⟨t, ht, hn⟩ := str_ok.1 h.status
    · exact absurd hn hvalue
    refine ⟨t, s.status, ht, hn.symm, fun hs => ?_⟩
    obtain ⟨hr, hk⟩ := h.complete hs
    obtain ⟨b, hb⟩ := Option.isSome_iff_exists.1 hr
    refine ⟨by simp [boolean_ok.1 h.retryable, hb], ?_⟩
    have hk' : reasonText s.reason ≠ "" := fun he => by simp [reasonText_eq_empty.1 he] at hk
    obtain ⟨-, hn⟩ | ⟨t, ht, hn⟩ := str_ok.1 h.reason
    · exact absurd hn hk'
    · exact ⟨t, ht, fun he => hk' (hn.trans (toGo_eq_empty.2 he))⟩

theorem Readable.reason_eq (h : Readable fields) :
    ∃ r : Option Reason, str fields "reason" = .ok (reasonText r) ∧
      ∀ t, raw fields "reason" = some (.str t) → t ≠ [] → r.isSome := by
  cases hr : raw fields "reason" with
  | none => exact ⟨none, str_ok.2 (.inl ⟨hr, rfl⟩), nofun⟩
  | some j =>
    obtain ⟨t, rfl⟩ := h.texts "reason" (by simp) j hr
    obtain rfl | ⟨r, hv⟩ := h.reason t hr
    · exact ⟨none, str_ok.2 (.inr ⟨[], hr, rfl⟩), by rintro _ ⟨⟩; simp⟩
    · exact ⟨some r, str_ok.2 (.inr ⟨t, hr, hv.symm⟩), by simp⟩

theorem Readable.retryable_eq (h : Readable fields) :
    ∃ b : Option Bool, boolean fields "retryable" = .ok b ∧
      (raw fields "retryable" ≠ none → b.isSome) := by
  cases hr : raw fields "retryable" with
  | none => exact ⟨none, boolean_ok.2 hr, by simp⟩
  | some j =>
    obtain ⟨b, rfl⟩ := h.retryable j hr
    exact ⟨some b, boolean_ok.2 hr, by simp⟩

theorem Readable.chunkCount_eq (h : Readable fields) :
    ∃ o : Option Int, integer fields "chunk_count" = .ok o ∧ ∀ n ∈ o, 0 ≤ n := by
  by_cases hr : raw fields "chunk_count" = none
  · exact ⟨none, integer_none.2 hr, by simp⟩
  · obtain ⟨n, hn, hg⟩ := h.chunkCount hr
    exact ⟨some n, hg.integer_eq, by simpa using hn⟩

theorem Readable.reads (h : Readable fields) : ∃ s, Reads fields s := by
  obtain ⟨id, hid⟩ := (h.texts "id" (by simp)).str_eq
  obtain ⟨detail, hdetail⟩ := (h.texts "detail" (by simp)).str_eq
  obtain ⟨hash, hhash, hne⟩ := h.hash
  obtain ⟨status, st, hstatus, hvalue, hfailed⟩ := h.status
  obtain ⟨reason, hreason, hknown⟩ := h.reason_eq
  obtain ⟨retryable, hretryable, hsome⟩ := h.retryable_eq
  obtain ⟨chunkCount, hchunk, hcount⟩ := h.chunkCount_eq
  obtain ⟨n, hn, hattempts⟩ := h.attempts
  refine ⟨⟨id, toGo hash, st, n, retryable, reason, detail, chunkCount⟩, hid,
    str_ok.2 (.inr ⟨hash, hhash, rfl⟩), str_ok.2 (.inr ⟨status, hstatus, hvalue.symm⟩), hreason,
    hdetail, hretryable, hchunk, hattempts.integer_eq, h.version.integer_eq,
    mt toGo_eq_empty.1 hne, hn, hcount, fun hs => ?_⟩
  obtain ⟨hr, t, ht, htne⟩ := hfailed hs
  exact ⟨hsome hr, hknown t ht htne⟩

/-- Nothing is refused but what is not readable. -/
theorem decodeStatus_accepts {payload : RawText} : (∃ s, decodeStatus payload = .ok s) ↔
    ∃ fields, payload.json = some (.obj fields) ∧ Readable fields := by
  unfold decodeStatus
  split
  · rename_i fields hj
    simp only [decodeStatusFields_ok, hj, Option.some.injEq, Json.obj.injEq, exists_eq_left']
    exact ⟨fun ⟨_, h⟩ => h.readable, fun h => h.reads⟩
  · rename_i hj
    simp [hj]
  · rename_i hj _
    simp only [reduceCtorEq, exists_false, false_iff]
    rintro ⟨fields, hf, -⟩
    exact hj fields hf

end Readable

/-! ### Exact integers -/

def integerFields : List String := ["attempts", "schema_version", "chunk_count"]

/-- The number given for a field is exactly that integer, and in range. -/
def GivesExactly (fields : List (PyStr × Json)) (key : String) (m : Int) : Prop :=
  |m| ≤ maxInteger ∧ ∃ n, raw fields key = some (.num n) ∧ n.value = m

structure ExactlyRead (fields : List (PyStr × Json)) (s : DecodedStatus) : Prop where
  attempts : GivesExactly fields "attempts" s.attempts
  version : GivesExactly fields "schema_version" schemaVersion
  chunkCount : raw fields "chunk_count" = none ∧ s.chunkCount = none ∨
    ∃ m, s.chunkCount = some m ∧ GivesExactly fields "chunk_count" m

/-- Accepted integers are the very numbers given, and no other number is accepted. -/
structure ReadExactly (payload : RawText) : Prop where
  accepted : ∀ fields s, payload.json = some (.obj fields) → decodeStatus payload = .ok s →
    ExactlyRead fields s
  rejected : ∀ fields, payload.json = some (.obj fields) → ∀ key ∈ integerFields, ∀ n,
    raw fields key = some (.num n) → (∀ m : Int, n.value ≠ m) → ∃ e, decodeStatus payload = .error e

/-- A number that is no integer, with an integer in range as its nearest float. -/
def Collapses (fields : List (PyStr × Json)) (key : String) : Prop :=
  ∃ n, ∃ m : Int, raw fields key = some (.num n) ∧ n.value ≠ m ∧ |m| ≤ maxInteger ∧
    RoundsTo n.value m

section Exact

variable {fields : List (PyStr × Json)} {key : String} {m : Int}

theorem FieldReader.Gives.exactly (h : Gives fields key m) (hc : ¬ Collapses fields key) :
    GivesExactly fields key m := by
  obtain ⟨hm, n, hr, hround⟩ := h
  refine ⟨hm, n, hr, ?_⟩
  by_contra hne
  exact hc ⟨n, m, hr, hne, hm, hround⟩

theorem Collapses.ne_int (h : Collapses fields key) :
    ∃ n, raw fields key = some (.num n) ∧ ∀ z : Int, n.value ≠ z := by
  obtain ⟨n, m, hr, hne, hm, hround⟩ := h
  refine ⟨n, hr, fun z hz => hne ?_⟩
  rw [hz] at hround ⊢
  exact_mod_cast hround.eq_of_int (natAbs_lt_of_abs_le hm)

theorem Readable.gives (h : Readable fields) (hk : key ∈ integerFields) {n : Number}
    (hr : raw fields key = some (.num n)) : ∃ m, Gives fields key m := by
  simp only [integerFields, List.mem_cons, List.not_mem_nil, or_false] at hk
  obtain rfl | rfl | rfl := hk
  · exact h.attempts.imp fun _ hg => hg.2
  · exact ⟨_, h.version⟩
  · exact (h.chunkCount (by simp [hr])).imp fun _ hg => hg.2

/-- Integer fields are read exactly unless everything else about the payload is in order and a
number in it collapses. -/
theorem decodeStatus_exact (payload : RawText) : ReadExactly payload ↔
    ¬ ∃ fields, payload.json = some (.obj fields) ∧ Readable fields ∧
      ∃ key ∈ integerFields, Collapses fields key := by
  constructor
  · rintro h ⟨fields, hj, hread, key, hk, hc⟩
    obtain ⟨s, hs⟩ := decodeStatus_accepts.2 ⟨fields, hj, hread⟩
    obtain ⟨n, hr, hne⟩ := hc.ne_int
    obtain ⟨e, he⟩ := h.rejected fields hj key hk n hr hne
    cases hs.symm.trans he
  · intro h
    refine ⟨fun fields s hj hs => ?_, fun fields hj key hk n hr hne => ?_⟩
    · have hreads : Reads fields s := by
        simp only [decodeStatus, hj] at hs
        exact .of_decode hs
      have hexact {key : String} {m : Int} (hk : key ∈ integerFields)
          (hi : integer fields key = .ok (some m)) : GivesExactly fields key m :=
        (integer_some.1 hi).exactly fun hc => h ⟨fields, hj, hreads.readable, key, hk, hc⟩
      refine ⟨hexact (by decide) hreads.attempts, hexact (by decide) hreads.version, ?_⟩
      have hchunk := hreads.chunkCount
      cases hcount : s.chunkCount with
      | none => exact .inl ⟨(integer_none.1 (hcount ▸ hchunk)), rfl⟩
      | some m => exact .inr ⟨m, rfl, hexact (by decide) (hcount ▸ hchunk)⟩
    · cases hs : decodeStatus payload with
      | error e => exact ⟨e, rfl⟩
      | ok s =>
        obtain ⟨fields', hj', hread⟩ := decodeStatus_accepts.1 ⟨s, hs⟩
        obtain rfl : fields = fields' := by simpa [hj] using hj'
        obtain ⟨m, hm, n', hr', hround⟩ := hread.gives hk hr
        obtain rfl : n = n' := by simpa [hr] using hr'
        exact absurd ⟨fields, hj, hread, key, hk, n, m, hr, hne m, hm, hround⟩ h

end Exact

/-- `1.00000000000000001`, which `ParseFloat` takes for `1`. -/
def nearlyOne : Number := .decimal 100000000000000001 (-17)

def nearlyOnePayload : List (PyStr × Json) :=
  [(ofString "hash", text "a"), (ofString "status", text "INDEXED"),
    (ofString "attempts", .num nearlyOne), (ofString "schema_version", int 1)]

theorem roundsTo_nearlyOne : RoundsTo nearlyOne.value 1 := by
  have hulp : (2 : ℚ) ^ ((0 : Int) - 52) ≤ ulp nearlyOne.value := by
    refine le_ulp ?_
    norm_num [nearlyOne, Number.value]
  norm_num [RoundsTo, nearlyOne, Number.value] at hulp ⊢
  linarith

theorem reads_nearlyOne :
    Reads nearlyOnePayload ⟨"", "a", .indexed, 1, none, none, "", none⟩ where
  id := by simp [nearlyOnePayload, str, raw]
  hash := by simp [nearlyOnePayload, str, raw, text]
  status := by simp [nearlyOnePayload, str, raw, text, Status.value]
  reason := by simp [nearlyOnePayload, str, raw, reasonText]
  detail := by simp [nearlyOnePayload, str, raw]
  retryable := by simp [nearlyOnePayload, boolean, raw]
  chunkCount := by simp [nearlyOnePayload, integer_none, raw]
  attempts := integer_some.2
    ⟨by decide, nearlyOne, by simp [nearlyOnePayload, raw], roundsTo_nearlyOne⟩
  version := integer_some.2 ⟨by decide, .int 1, by simp [nearlyOnePayload, raw, int], .refl 1⟩
  hash_ne := by simp
  attempts_nonneg := by simp
  chunkCount_nonneg := by simp
  complete := nofun

/-- The number `1.00000000000000001` is accepted as the attempt `1`. -/
theorem not_readExactly : ¬ ∀ payload, ReadExactly payload := by
  intro h
  have hd := h ⟨(Json.obj nearlyOnePayload).textLength goEscaped, some (.obj nearlyOnePayload)⟩
  obtain ⟨-, n, hr, hn⟩ := (hd.accepted _ _ rfl reads_nearlyOne.decode).attempts
  obtain rfl : nearlyOne = n := by simpa [nearlyOnePayload, raw] using hr
  norm_num [nearlyOne, Number.value] at hn

end Events

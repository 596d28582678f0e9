import RagPipeline.Wire.Json

/-!
# JSON Schema, as far as flat records need it

The keywords of one property, and objects with required members and a conditional part.

## Main definitions

* `Keyword.valid`, `Record.valid`, `Schema.valid`: validation of a document.
-/
namespace Wire

inductive JsonType where
  | string
  | integer
  | boolean
  deriving DecidableEq, Repr

/-- A keyword of a property; it says nothing about values it does not apply to. -/
inductive Keyword where
  | type (t : JsonType)
  | minLength (n : Nat)
  | enum (values : List String)
  | const (n : Int)
  | minimum (n : Int)
  | maximum (n : Int)
  | pattern (accepts : PyStr → Bool)

def JsonType.holds : JsonType → Json → Bool
  | string, .str _ => true
  -- a number without a fraction, however it is written
  | integer, .num n => n.value = ⌊n.value⌋
  | boolean, .bool _ => true
  | _, _ => false

def Keyword.valid : Keyword → Json → Bool
  | type t, j => t.holds j
  | minLength n, .str s => n ≤ s.length
  | enum values, .str s => values.any fun v => ofString v = s
  | enum _, _ => false
  | const n, .num x => x.value = n
  | const _, _ => false
  | minimum n, .num x => n ≤ x.value
  | maximum n, .num x => x.value ≤ n
  | pattern accepts, .str s => accepts s
  | _, _ => true

structure Record where
  required : List String
  properties : List (String × List Keyword)

def Record.valid (r : Record) (document : List (PyStr × Json)) : Bool :=
  (r.required.all fun name => (member? document name).isSome) ∧
    r.properties.all fun p => (member? document p.1).all fun j => p.2.all fun k => k.valid j

/-- An object; members the record does not name are allowed. -/
structure Schema where
  record : Record
  /-- `if` and `then`. -/
  conditional : Option (Record × Record)

def Schema.valid (s : Schema) : Json → Bool
  | .obj document => s.record.valid document ∧
      s.conditional.all fun c => !c.1.valid document || c.2.valid document
  | _ => false

section Record

variable {r : Record} {document : List (PyStr × Json)} {name : String} {keywords : List Keyword}
  {j : Json}

/-- A member satisfies the keywords of its name. -/
theorem Record.valid_member (h : r.valid document) (hp : (name, keywords) ∈ r.properties)
    (hj : member? document name = some j) : ∀ k ∈ keywords, k.valid j := by
  simp only [valid, decide_eq_true_eq, List.all_eq_true] at h
  have hall := h.2 _ hp
  rw [hj] at hall
  simpa using hall

theorem Record.exists_member (h : r.valid document) (hr : name ∈ r.required)
    (hp : (name, keywords) ∈ r.properties) :
    ∃ j, member? document name = some j ∧ ∀ k ∈ keywords, k.valid j := by
  have hall := h
  simp only [valid, decide_eq_true_eq, List.all_eq_true] at hall
  obtain ⟨j, hj⟩ := Option.isSome_iff_exists.1 (hall.1 name hr)
  exact ⟨j, hj, valid_member h hp hj⟩

end Record

section Valid

variable {s : PyStr} {n m : Int} {b : Bool} {j : Json}

@[simp] theorem valid_string : (Keyword.type .string).valid (.str s) = true := rfl

@[simp] theorem valid_boolean : (Keyword.type .boolean).valid (.bool b) = true := rfl

@[simp] theorem valid_minLength {k : Nat} :
    (Keyword.minLength k).valid (.str s) = true ↔ k ≤ s.length := decide_eq_true_iff

@[simp] theorem valid_minimum : (Keyword.minimum m).valid (.num (.int n)) = true ↔ m ≤ n :=
  decide_eq_true_iff.trans Int.cast_le

@[simp] theorem valid_maximum : (Keyword.maximum m).valid (.num (.int n)) = true ↔ n ≤ m :=
  decide_eq_true_iff.trans Int.cast_le

@[simp] theorem valid_const : (Keyword.const m).valid (.num (.int n)) = true ↔ n = m :=
  decide_eq_true_iff.trans Int.cast_inj

@[simp] theorem valid_pattern {accepts : PyStr → Bool} :
    (Keyword.pattern accepts).valid (.str s) = accepts s := rfl

@[simp] theorem valid_integer : (Keyword.type .integer).valid (.num (.int n)) = true := by
  have hvalue : (n : ℚ) = ⌊(n : ℚ)⌋ := by rw [Int.floor_intCast]
  exact decide_eq_true hvalue

@[simp] theorem valid_enum {values : List String} {v : String} :
    (Keyword.enum values).valid (.str (ofString v)) = true ↔ v ∈ values := by
  refine List.any_eq_true.trans ⟨?_, fun hv => ⟨v, hv, decide_eq_true rfl⟩⟩
  rintro ⟨w, hw, heq⟩
  exact ofString_injective (of_decide_eq_true heq) ▸ hw

theorem valid_type_string : (Keyword.type .string).valid j ↔ ∃ s, j = .str s := by
  cases j with
  | str s => exact ⟨fun _ => ⟨s, rfl⟩, fun _ => rfl⟩
  | _ =>
    constructor
    · intro h
      cases h
    · rintro ⟨_, h⟩
      cases h

theorem valid_type_boolean : (Keyword.type .boolean).valid j ↔ ∃ b, j = .bool b := by
  cases j with
  | bool b => exact ⟨fun _ => ⟨b, rfl⟩, fun _ => rfl⟩
  | _ =>
    constructor
    · intro h
      cases h
    · rintro ⟨_, h⟩
      cases h

theorem valid_enum_iff {values : List String} :
    (Keyword.enum values).valid j ↔ ∃ v ∈ values, j = .str (ofString v) := by
  cases j with
  | str s => simp [Keyword.valid, @eq_comm _ s]
  | _ => simp [Keyword.valid]

theorem valid_const_iff : (Keyword.const n).valid j ↔ ∃ x, j = .num x ∧ x.value = n := by
  cases j <;> simp [Keyword.valid]

end Valid

end Wire

import RagPipeline.Wire.Text
import Mathlib.Data.Int.Log
import Mathlib.Data.Rat.Floor

/-!
# JSON documents as their readers see them

A stream carries JSON text. Both readers, Python's `json` and Go's `encoding/json`, take a text
to the same document, so a text is modelled by its length and the document it holds, if it is
JSON at all; of several members with one key both readers keep the last. A number is kept as
written, because Go reads it as a 64-bit float and Python distinguishes integer literals.

## Main definitions

* `Json`, `RawText`: documents and the texts that carry them.
* `Json.textLength`: how long the compact text of a document is.
* `float64`: `strconv.ParseFloat` on the exact value of a literal.
-/
namespace Wire

inductive Number where
  /-- A literal without fraction and exponent. -/
  | int (n : Int)
  /-- Any other literal: `mantissa * 10 ^ exponent`. -/
  | decimal (mantissa exponent : Int)
  deriving DecidableEq

def Number.value : Number → ℚ
  | int n => n
  | decimal m e => m * 10 ^ e

inductive Json where
  | null
  | bool (b : Bool)
  | num (n : Number)
  | str (s : PyStr)
  | arr (elements : List Json)
  | obj (members : List (PyStr × Json))

/-- Text as its reader sees it. -/
structure RawText where
  length : Nat
  json : Option Json

/-- The member both readers keep. -/
def member? (members : List (PyStr × Json)) (key : String) : Option Json :=
  (members.reverse.find? fun m => m.1 = ofString key).map Prod.snd

/-- A member that is written only when there is a value. -/
def optional {α : Type} (key : String) (f : α → Json) : Option α → List (PyStr × Json)
  | none => []
  | some a => [(ofString key, f a)]

section Member

variable {α : Type} {members : List (PyStr × Json)} {key k : String}

@[simp] theorem member?_nil : member? [] key = none := rfl

@[simp] theorem member?_append (ms ns : List (PyStr × Json)) :
    member? (ms ++ ns) key = (member? ns key).or (member? ms key) := by
  simp only [member?, List.reverse_append, List.find?_append]
  cases ns.reverse.find? fun m => m.1 = ofString key <;> rfl

@[simp] theorem member?_cons (j : Json) :
    member? ((ofString k, j) :: members) key =
      (member? members key).or (if k = key then some j else none) := by
  rw [← List.singleton_append, member?_append]
  congr 1
  by_cases h : k = key
  · simp [member?, h]
  · simp [member?, h, ofString_injective.eq_iff]

@[simp] theorem member?_optional (f : α → Json) (a : Option α) :
    member? (optional k f a) key = if k = key then a.map f else none := by
  cases a with
  | none => simp [optional]
  | some a => simp [optional]

end Member

/-! ### Length of the compact text -/

/-- Characters `encoding/json` writes for one code point of a string. -/
def goEscaped (c : CodePoint) : Nat :=
  if c.val ∈ [0x22, 0x5C, 0x08, 0x09, 0x0A, 0x0C, 0x0D] then 2
  else if c.val < 0x20 ∨ c.val ∈ [0x3C, 0x3E, 0x26, 0x2028, 0x2029] then 6
  else 1

/-- Characters `json.dumps` writes for one code point of a string. -/
def pyEscaped (c : CodePoint) : Nat :=
  if c.val ∈ [0x22, 0x5C, 0x08, 0x09, 0x0A, 0x0C, 0x0D] then 2
  else if 0x20 ≤ c.val ∧ c.val < 0x7F then 1
  else if c.val < 0x10000 then 6
  else 12

def strLength (escaped : CodePoint → Nat) (s : PyStr) : Nat := 2 + (s.map escaped).sum

def intLength (n : Int) : Nat := (if n < 0 then 1 else 0) + (Nat.toDigits 10 n.natAbs).length

/-- The length of `{"a":1,"b":[true,null]}` and the like; writers here write no fractions. -/
def Json.textLength (escaped : CodePoint → Nat) : Json → Nat
  | null => 4
  | bool b => if b then 4 else 5
  | num (.int n) => intLength n
  | num (.decimal m e) => intLength m + 1 + intLength e
  | str s => strLength escaped s
  | arr elements => 2 + (elements.length - 1) + elementsLength elements
  | obj members => 2 + (members.length - 1) + membersLength members
where
  elementsLength : List Json → Nat
    | [] => 0
    | j :: js => j.textLength escaped + elementsLength js
  membersLength : List (PyStr × Json) → Nat
    | [] => 0
    | (k, j) :: ms => strLength escaped k + 1 + j.textLength escaped + membersLength ms

/-! ### Numbers as Go reads them -/

/-- Round to the nearest integer, ties to even. -/
def roundHalfEven (q : ℚ) : Int :=
  let r := q - ⌊q⌋
  if r < 1 / 2 ∨ (r = 1 / 2 ∧ ⌊q⌋ % 2 = 0) then ⌊q⌋ else ⌊q⌋ + 1

/-- The nearest 64-bit float, or `none` out of range. -/
def float64 (q : ℚ) : Option ℚ :=
  let ulp : ℚ := 2 ^ (max (Int.log 2 |q|) (-1022) - 52)
  let f := roundHalfEven (q / ulp) * ulp
  if |f| < 2 ^ (1024 : Nat) then some f else none

theorem roundHalfEven_intCast (n : Int) : roundHalfEven n = n := by
  simp [roundHalfEven]

/-- An integer below 2 ^ 53 is a float. -/
theorem float64_intCast {n : Int} (h : n.natAbs < 2 ^ 53) : float64 n = some (n : ℚ) := by
  have habs : |(n : ℚ)| = (n.natAbs : ℚ) := by rw [Nat.cast_natAbs, Int.cast_abs]
  have hL : Nat.log 2 n.natAbs ≤ 52 := Nat.le_of_lt_succ (Nat.log_lt_of_lt_pow' (by omega) h)
  obtain ⟨k, hk⟩ := Nat.exists_eq_add_of_le hL
  have hlog : max (Int.log 2 |(n : ℚ)|) (-1022) - 52 = -(k : Int) := by
    rw [habs, Int.log_natCast, max_eq_left (by omega)]
    omega
  have hdiv : (n : ℚ) / 2 ^ (-(k : Int)) = ((n * 2 ^ k : Int) : ℚ) := by
    rw [zpow_neg, div_inv_eq_mul, zpow_natCast]
    push_cast
    rfl
  have hround : ((n * 2 ^ k : Int) : ℚ) * 2 ^ (-(k : Int)) = n := by
    rw [← hdiv]
    exact div_mul_cancel₀ _ (zpow_ne_zero _ two_ne_zero)
  have hlt : |(n : ℚ)| < 2 ^ 1024 := by
    rw [habs]
    exact_mod_cast h.trans (Nat.pow_lt_pow_right (by omega) (by omega))
  simp only [float64, hlog, hdiv, roundHalfEven_intCast, hround, hlt, if_true]

end Wire

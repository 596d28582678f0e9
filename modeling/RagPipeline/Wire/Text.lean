import Mathlib.Data.List.Basic

/-!
# Text on both sides of a language boundary

Python's `str` is a list of code points, surrogates included. A Go string decoded from JSON is
valid UTF-8, so it is a Lean `String`; a lone surrogate arrives there as U+FFFD.

## Main results

* `toGo_ofString`: a Go string survives the trip to Python and back.
* `ofString_toGo`: a Python string without surrogates survives the trip to Go and back.
-/
namespace Wire

abbrev CodePoint := Fin 0x110000

/-- Python's `str`. -/
abbrev PyStr := List CodePoint

def CodePoint.ofChar (c : Char) : CodePoint :=
  ⟨c.toNat, by have h := c.valid; simp only [UInt32.isValidChar, Nat.isValidChar] at h
               change c.val.toNat < _; omega⟩

def CodePoint.toChar (c : CodePoint) : Char :=
  if c.val.isValidChar then Char.ofNat c.val else '\uFFFD'

def CodePoint.isSurrogate (c : CodePoint) : Bool := 0xD800 ≤ c.val ∧ c.val < 0xE000

def ofString (s : String) : PyStr := s.toList.map CodePoint.ofChar

def toGo (s : PyStr) : String := String.ofList (s.map CodePoint.toChar)

/-- `s.encode("utf-8")` succeeds. -/
def isUnicode (s : PyStr) : Bool := s.all fun c => !c.isSurrogate

theorem isValidChar_toNat (c : Char) : c.toNat.isValidChar := c.valid

theorem CodePoint.toChar_ofChar (c : Char) : (ofChar c).toChar = c := by
  simp [toChar, ofChar, isValidChar_toNat]

theorem CodePoint.isSurrogate_ofChar (c : Char) : (ofChar c).isSurrogate = false := by
  have h := isValidChar_toNat c
  simp only [Nat.isValidChar] at h
  have : ¬ (0xD800 ≤ c.toNat ∧ c.toNat < 0xE000) := by omega
  exact decide_eq_false this

theorem CodePoint.ofChar_toChar {c : CodePoint} (h : c.isSurrogate = false) :
    ofChar c.toChar = c := by
  have hlt := c.isLt
  have hv : c.val.isValidChar := by
    simp only [isSurrogate, decide_eq_false_iff_not] at h
    simp only [Nat.isValidChar]
    omega
  have hc : c.toChar = Char.ofNatAux c.val hv := (if_pos hv).trans (dif_pos hv)
  refine Fin.ext ?_
  change c.toChar.toNat = c.val
  rw [hc]
  rfl

@[simp] theorem toGo_ofString (s : String) : toGo (ofString s) = s := by
  simp [toGo, ofString, Function.comp_def, CodePoint.toChar_ofChar]

@[simp] theorem isUnicode_ofString (s : String) : isUnicode (ofString s) = true := by
  simp [isUnicode, ofString, CodePoint.isSurrogate_ofChar]

theorem ofString_toGo {s : PyStr} (h : isUnicode s) : ofString (toGo s) = s := by
  simp only [isUnicode, List.all_eq_true, Bool.not_eq_true'] at h
  simp only [toGo, ofString, String.toList_ofList, List.map_map]
  exact (List.map_congr_left fun c hc => CodePoint.ofChar_toChar (h c hc)).trans (List.map_id' s)

theorem ofString_injective : Function.Injective ofString := fun a b h => by
  rw [← toGo_ofString a, h, toGo_ofString]

@[simp] theorem ofString_eq_nil {s : String} : ofString s = [] ↔ s = "" := by
  simp [ofString]

@[simp] theorem toGo_eq_empty {s : PyStr} : toGo s = "" ↔ s = [] := by
  rw [toGo, ← String.toList_inj]
  simp

end Wire

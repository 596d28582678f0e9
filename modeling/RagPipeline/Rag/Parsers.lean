import RagPipeline.Rag.IngestService

/-!
# The parser for a file

`parser_for` goes by the lower-cased extension of the file name. Python's lower case is Unicode's:
one code point may become several, and a capital sigma depends on what is around it. The mapping
of the other code points is a parameter.

## Main definitions

* `strLower`: `str.lower`.
* `parserFor`: the dispatch, or `UNSUPPORTED_TYPE`.

## Main results

* `strLower_eq_iff`: among texts such as the extensions, lower case is a matter of ASCII letters.
-/
namespace Rag

open Events Wire

inductive Parser where
  | pdf
  | text
  | markdown
  deriving DecidableEq, Repr

/-- `_PARSERS`. -/
def parsers : List (String × Parser) := [(".pdf", .pdf), (".txt", .text), (".md", .markdown)]

def maxExtensionInDetail : Nat := 16

/-- The tables behind `str.lower`. -/
structure LowerTables where
  /-- Unicode's lower case of a code point, for all but the capital sigma. -/
  lower : CodePoint → PyStr
  /-- What stands before and after a capital sigma makes it the last letter of a word. -/
  finalSigma : PyStr → PyStr → Bool

namespace LowerTables

variable (tables : LowerTables)

/-- One code point between those before and those after it. -/
def lowerAt (before : PyStr) (c : CodePoint) (after : PyStr) : PyStr :=
  if c.val = 0x3A3 then
    [.ofChar (if tables.finalSigma before after then 'ς' else 'σ')]
  else tables.lower c

/-- `str.lower`; `before` is the part that is done. -/
def strLower (before : PyStr) : PyStr → PyStr
  | [] => []
  | c :: after => tables.lowerAt before c after ++ strLower (before ++ [c]) after

/-- `ports.extension`. -/
def extension (filename : PyStr) : PyStr := tables.strLower [] (splitext filename)

/-- `parser_for`; `repr` is Python's. -/
def parserFor (repr : PyStr → PyStr) (filename : PyStr) : Except JobError Parser :=
  let ext := tables.extension filename
  match parsers.find? fun p => ofString p.1 = ext with
  | some p => .ok p.2
  | none => .error (.permanent .unsupportedType (some
      (ofString "unsupported extension " ++ repr (ext.take maxExtensionInDetail))))

/-- What Unicode says about the lower case of ASCII and about lower case that is ASCII: outside of
ASCII only the Kelvin sign becomes an ASCII letter. -/
structure IsUnicode : Prop where
  ascii : ∀ c : CodePoint, c.val < 0x80 → tables.lower c = Rag.lower [c]
  kelvin : ∀ c : CodePoint, c.val = 0x212A → tables.lower c = ofString "k"
  other : ∀ c : CodePoint, 0x80 ≤ c.val → c.val ≠ 0x212A → ∃ d ∈ tables.lower c, 0x80 ≤ d.val

end LowerTables

/-- ASCII, without the letter that the Kelvin sign becomes. -/
def Plain (s : PyStr) : Prop := ∀ d ∈ s, d.val < 0x80 ∧ d.val ≠ 0x6B

section Lower

variable {tables : LowerTables} {before s e : PyStr} {c : CodePoint}

theorem lower_cons : lower (c :: s) = lower [c] ++ lower s := rfl

theorem lower_of_le (hc : 0x80 ≤ c.val) : lower [c] = [c] := by
  have : ¬ (0x41 ≤ c.val ∧ c.val ≤ 0x5A) := by omega
  simp [lower, this]

/-- What is not ASCII does not become part of a plain text. -/
theorem LowerTables.IsUnicode.not_plain_lowerAt (h : tables.IsUnicode) (hc : 0x80 ≤ c.val) :
    ¬ Plain (tables.lowerAt before c s) := by
  intro hp
  unfold lowerAt at hp
  split at hp
  · have hσ := hp _ (List.mem_singleton_self _)
    split at hσ <;> exact absurd hσ.1 (by decide)
  · by_cases hk : c.val = 0x212A
    · rw [h.kelvin c hk] at hp
      exact (hp (.ofChar 'k') (by simp [ofString])).2 (by decide)
    · obtain ⟨d, hd, hge⟩ := h.other c hc hk
      have := (hp d hd).1
      omega

theorem LowerTables.IsUnicode.lowerAt_ascii (h : tables.IsUnicode) (hc : c.val < 0x80) :
    tables.lowerAt before c s = Rag.lower [c] := by
  rw [lowerAt, if_neg (by omega), h.ascii c hc]

theorem Plain.of_append {s e : PyStr} (h : Plain (s ++ e)) : Plain s ∧ Plain e :=
  ⟨fun d hd => h d (List.mem_append_left _ hd), fun d hd => h d (List.mem_append_right _ hd)⟩

/-- Lower case to a plain text is the lower case of ASCII. -/
theorem strLower_eq_iff (h : tables.IsUnicode) (he : Plain e) :
    tables.strLower before s = e ↔ lower s = e := by
  induction s generalizing before e with
  | nil => rfl
  | cons c s ih =>
    rw [LowerTables.strLower, lower_cons]
    by_cases hc : c.val < 0x80
    · rw [h.lowerAt_ascii hc]
      have hcons {x : PyStr} : lower [c] ++ x = e ↔ ∃ e', e = lower [c] ++ e' ∧ x = e' := by
        simp [eq_comm]
      rw [hcons, hcons]
      refine exists_congr fun e' => and_congr_right fun hs => ih (hs ▸ he).of_append.2
    · rw [not_lt] at hc
      constructor
      · rintro rfl
        exact absurd he.of_append.1 (h.not_plain_lowerAt hc)
      · rintro rfl
        rw [lower_of_le hc] at he
        have := (he c (by simp)).1
        omega

/-- The extensions with a parser. -/
def supported : List String := parsers.map Prod.fst

theorem plain_supported : ∀ x ∈ supported, Plain (ofString x) := by
  simp [supported, parsers, Plain, ofString, CodePoint.ofChar]

theorem LowerTables.IsUnicode.parserFor_ok (h : tables.IsUnicode) {repr : PyStr → PyStr}
    {filename : PyStr} : (∃ p, tables.parserFor repr filename = .ok p) ↔
      ∃ x ∈ supported, Rag.lower (splitext filename) = ofString x := by
  have hfound : (∃ p, tables.parserFor repr filename = .ok p) ↔
      ∃ p ∈ parsers, ofString p.1 = tables.extension filename := by
    unfold parserFor
    dsimp only
    cases hf : parsers.find? fun p => ofString p.1 = tables.extension filename with
    | none =>
      rw [List.find?_eq_none] at hf
      simpa using hf
    | some p =>
      have hp : ofString p.1 = tables.extension filename := by simpa using List.find?_some hf
      exact ⟨fun _ => ⟨p, List.mem_of_find?_eq_some hf, hp⟩, fun _ => ⟨p.2, rfl⟩⟩
  rw [hfound]
  constructor
  · rintro ⟨p, hp, he⟩
    have hx : p.1 ∈ supported := List.mem_map_of_mem hp
    exact ⟨p.1, hx, (strLower_eq_iff h (plain_supported _ hx)).1 he.symm⟩
  · rintro ⟨x, hx, he⟩
    obtain ⟨p, hp, rfl⟩ := List.mem_map.1 hx
    exact ⟨p, hp, ((strLower_eq_iff h (plain_supported _ hx)).2 he).symm⟩

end Lower

end Rag

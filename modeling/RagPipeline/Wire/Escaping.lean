import Mathlib.Algebra.Ring.Nat
import RagPipeline.Wire.Json

/-!
# Strings inside JSON text

`encoding/json` escapes HTML characters and the two line separators. Both readers undo every
escape, and join surrogate pairs; they differ in what they make of a lone surrogate only.

## Main definitions

* `goQuote`: a string as `encoding/json` puts it into the text.
* `scanString`: the text after the opening quote, read up to the closing one.

## Main results

* `unquote_goQuote`: what was quoted is read back.
* `length_goQuote`: the length that `Json.textLength` counts with.
-/
namespace Wire

def quote : CodePoint := .ofChar '"'
def backslash : CodePoint := .ofChar '\\'

/-! ### Writers -/

def hexDigit (n : Nat) : CodePoint := .ofChar (Nat.digitChar n)

/-- `\uXXXX`. -/
def unicodeEscape (n : Nat) : PyStr :=
  [backslash, .ofChar 'u', hexDigit (n / 4096 % 16), hexDigit (n / 256 % 16),
    hexDigit (n / 16 % 16), hexDigit (n % 16)]

/-- The letter after the backslash, for the code points that have one. -/
def shortEscape? (c : CodePoint) : Option Char :=
  match c.val with
  | 0x22 => some '"'
  | 0x5C => some '\\'
  | 0x08 => some 'b'
  | 0x09 => some 't'
  | 0x0A => some 'n'
  | 0x0C => some 'f'
  | 0x0D => some 'r'
  | _ => none

def goEscape (c : CodePoint) : PyStr :=
  match shortEscape? c with
  | some e => [backslash, .ofChar e]
  | none =>
    if c.val < 0x20 ∨ c.val ∈ [0x3C, 0x3E, 0x26, 0x2028, 0x2029] then unicodeEscape c.val else [c]

def goQuote (s : PyStr) : PyStr := quote :: (s.flatMap goEscape ++ [quote])

/-! ### The reader -/

def hexValue? (c : CodePoint) : Option Nat :=
  if 48 ≤ c.val ∧ c.val ≤ 57 then some (c.val - 48)
  else if 97 ≤ c.val ∧ c.val ≤ 102 then some (c.val - 87)
  else if 65 ≤ c.val ∧ c.val ≤ 70 then some (c.val - 55)
  else none

def hex4? : PyStr → Option (Nat × PyStr)
  | a :: b :: c :: d :: rest =>
    match hexValue? a, hexValue? b, hexValue? c, hexValue? d with
    | some a, some b, some c, some d => some (((a * 16 + b) * 16 + c) * 16 + d, rest)
    | _, _, _, _ => none
  | _ => none

/-- The second half of a surrogate pair. -/
def lowHalf? (high : Nat) : PyStr → Option (Nat × PyStr)
  | b :: u :: rest =>
    if 0xD800 ≤ high ∧ high < 0xDC00 ∧ b = backslash ∧ u = .ofChar 'u' then
      (hex4? rest).filter fun p => 0xDC00 ≤ p.1 ∧ p.1 < 0xE000
    else none
  | _ => none

def unescape? (e : CodePoint) : Option CodePoint :=
  match e.val with
  | 0x22 => some (.ofChar '"')
  | 0x5C => some (.ofChar '\\')
  | 0x2F => some (.ofChar '/')
  | 0x62 => some 0x08
  | 0x66 => some 0x0C
  | 0x6E => some 0x0A
  | 0x72 => some 0x0D
  | 0x74 => some 0x09
  | _ => none

/-- Read up to the closing quote; `lone` is what becomes of a code unit outside a pair. Every
round consumes a code point, so the length of the text is fuel enough. -/
def scanString (lone : Nat → CodePoint) : Nat → PyStr → Option (PyStr × PyStr)
  | 0, _ => none
  | _, [] => none
  | fuel + 1, c :: rest =>
    if c = quote then some ([], rest)
    else if c = backslash then
      match rest with
      | [] => none
      | e :: rest =>
        if e = .ofChar 'u' then
          match hex4? rest with
          | none => none
          | some (n, rest) =>
            match lowHalf? n rest with
            | some (m, rest) => (scanString lone fuel rest).map fun p =>
                (Fin.ofNat _ (0x10000 + (n - 0xD800) * 1024 + (m - 0xDC00)) :: p.1, p.2)
            | none => (scanString lone fuel rest).map fun p => (lone n :: p.1, p.2)
        else match unescape? e with
          | some x => (scanString lone fuel rest).map fun p => (x :: p.1, p.2)
          | none => none
    else if c.val < 0x20 then none
    else (scanString lone fuel rest).map fun p => (c :: p.1, p.2)

/-- Python keeps a lone surrogate. -/
def pyLone (n : Nat) : CodePoint := Fin.ofNat _ n

/-! ### What was quoted is read back -/

section Scan

variable {lone : Nat → CodePoint} {fuel n : Nat} {c : CodePoint} {t : PyStr}

theorem hexValue?_hexDigit : ∀ n < 16, hexValue? (hexDigit n) = some n := by decide

theorem hex4?_hexDigits (h : n < 0x10000) :
    hex4? (hexDigit (n / 4096 % 16) :: hexDigit (n / 256 % 16) :: hexDigit (n / 16 % 16) ::
      hexDigit (n % 16) :: t) = some (n, t) := by
  simp only [hex4?, hexValue?_hexDigit _ (Nat.mod_lt _ (show 0 < 16 by omega))]
  exact congrArg some (Prod.ext (by dsimp only; omega) rfl)

theorem lowHalf?_eq_none (h : ¬ (0xD800 ≤ n ∧ n < 0xDC00)) : lowHalf? n t = none := by
  unfold lowHalf?
  split
  · exact if_neg fun hc => h ⟨hc.1, hc.2.1⟩
  · rfl

/-- An escape outside the surrogates stands for one code point. -/
theorem scanString_unicodeEscape (h : n < 0x10000) (hs : ¬ (0xD800 ≤ n ∧ n < 0xDC00)) :
    scanString lone (fuel + 1) (unicodeEscape n ++ t) =
      (scanString lone fuel t).map fun p => (lone n :: p.1, p.2) := by
  have hhex := @hex4?_hexDigits n t h
  have hq : backslash ≠ quote := by decide
  simp only [unicodeEscape, List.cons_append, List.nil_append, scanString, hq, if_false, if_true,
    hhex, lowHalf?_eq_none hs]

theorem unescape?_of_shortEscape {e : Char} (h : shortEscape? c = some e) :
    unescape? (.ofChar e) = some c ∧ CodePoint.ofChar e ≠ .ofChar 'u' := by
  unfold shortEscape? at h
  split at h <;> cases h
  all_goals
    rename_i hc
    exact ⟨congrArg some (Fin.ext hc.symm), by decide⟩

theorem scanString_shortEscape {e : Char} (h : shortEscape? c = some e) :
    scanString lone (fuel + 1) (backslash :: .ofChar e :: t) =
      (scanString lone fuel t).map fun p => (c :: p.1, p.2) := by
  obtain ⟨he, hu⟩ := unescape?_of_shortEscape h
  have hq : backslash ≠ quote := by decide
  simp only [scanString, hq, hu, he, if_false, if_true]

theorem shortEscape?_special (h : shortEscape? c = none) : c ≠ quote ∧ c ≠ backslash := by
  constructor <;>
  · rintro rfl
    revert h
    decide

theorem scanString_plain (h : shortEscape? c = none) (hc : ¬ c.val < 0x20) :
    scanString lone (fuel + 1) (c :: t) =
      (scanString lone fuel t).map fun p => (c :: p.1, p.2) := by
  obtain ⟨hq, hb⟩ := shortEscape?_special h
  simp only [scanString, hq, hb, hc, if_false]

/-- Both readers take an escape for what it stands for. -/
structure Faithful (lone : Nat → CodePoint) : Prop where
  eq : ∀ c : CodePoint, c.isSurrogate = false → c.val < 0x10000 → lone c.val = c

theorem faithful_pyLone : Faithful pyLone := ⟨fun c _ _ => Fin.ext (Nat.mod_eq_of_lt c.isLt)⟩

theorem scanString_goEscape (hl : Faithful lone) (hs : c.isSurrogate = false) :
    scanString lone (fuel + 1) (goEscape c ++ t) =
      (scanString lone fuel t).map fun p => (c :: p.1, p.2) := by
  unfold goEscape
  cases h : shortEscape? c with
  | some e => exact scanString_shortEscape h
  | none =>
    dsimp only
    split_ifs with hc
    · have hsmall : c.val < 0xD800 := by
        simp only [List.mem_cons, List.not_mem_nil, or_false] at hc
        omega
      rw [scanString_unicodeEscape (by omega) (by omega), hl.eq c hs (by omega)]
    · exact scanString_plain h fun hlt => hc (.inl hlt)

theorem scanString_flatMap {escape : CodePoint → PyStr} {s rest : PyStr} {p : CodePoint → Prop}
    (hstep : ∀ c fuel t, p c → scanString lone (fuel + 1) (escape c ++ t) =
      (scanString lone fuel t).map fun p => (c :: p.1, p.2))
    (hs : ∀ c ∈ s, p c) (hfuel : s.length < fuel) :
    scanString lone fuel (s.flatMap escape ++ quote :: rest) = some (s, rest) := by
  induction s generalizing fuel with
  | nil =>
    obtain ⟨fuel, rfl⟩ := Nat.exists_eq_add_of_lt hfuel
    simp [scanString]
  | cons c cs ih =>
    obtain ⟨fuel, rfl⟩ := Nat.exists_eq_add_one_of_ne_zero (Nat.ne_zero_of_lt hfuel)
    rw [List.flatMap_cons, List.append_assoc, hstep c _ _ (hs c (by simp)),
      ih (fun x hx => hs x (List.mem_cons_of_mem _ hx)) (by simpa using hfuel)]
    rfl

end Scan

/-- A whole text that is one quoted string. -/
def unquote (lone : Nat → CodePoint) : PyStr → Option PyStr
  | [] => none
  | q :: rest =>
    if q = quote then
      ((scanString lone rest.length rest).filter fun p => p.2 = []).map Prod.fst
    else none

section Quote

variable {lone : Nat → CodePoint} {s : PyStr}

theorem isUnicode_iff : isUnicode s ↔ ∀ c ∈ s, c.isSurrogate = false := by
  simp [isUnicode]

theorem length_le_flatMap {escape : CodePoint → PyStr} (h : ∀ c, escape c ≠ []) :
    s.length ≤ (s.flatMap escape).length := by
  induction s with
  | nil => simp
  | cons c cs ih =>
    have := List.length_pos_iff.2 (h c)
    simp only [List.flatMap_cons, List.length_append, List.length_cons]
    omega

theorem unquote_of_step {escape : CodePoint → PyStr} (hne : ∀ c, escape c ≠ [])
    (hstep : ∀ c fuel t, c.isSurrogate = false → scanString lone (fuel + 1) (escape c ++ t) =
      (scanString lone fuel t).map fun p => (c :: p.1, p.2)) (hs : isUnicode s) :
    unquote lone (quote :: (s.flatMap escape ++ [quote])) = some s := by
  have hlen : s.length < (s.flatMap escape ++ [quote]).length := by
    have := @length_le_flatMap s escape hne
    rw [List.length_append, List.length_singleton]
    omega
  rw [unquote, if_pos rfl, scanString_flatMap hstep (isUnicode_iff.1 hs) hlen]
  rfl

theorem goEscape_ne_nil (c : CodePoint) : goEscape c ≠ [] := by
  unfold goEscape unicodeEscape
  split <;> (try split_ifs) <;> simp

theorem unquote_goQuote (hl : Faithful lone) (hs : isUnicode s) :
    unquote lone (goQuote s) = some s :=
  unquote_of_step goEscape_ne_nil (fun _ _ _ h => scanString_goEscape hl h) hs

/-- The code points with a letter of their own are those that take two characters. -/
theorem shortEscape?_isSome (c : CodePoint) : (shortEscape? c).isSome ↔
    c.val ∈ [0x22, 0x5C, 0x08, 0x09, 0x0A, 0x0C, 0x0D] := by
  unfold shortEscape?
  split <;> simp_all

theorem length_goEscape (c : CodePoint) : (goEscape c).length = goEscaped c := by
  have hshort := shortEscape?_isSome c
  unfold goEscape goEscaped
  cases h : shortEscape? c with
  | some e =>
    rw [h] at hshort
    rw [if_pos (hshort.1 rfl)]
    rfl
  | none =>
    rw [h] at hshort
    rw [if_neg fun hc => Bool.false_ne_true (hshort.2 hc)]
    dsimp only
    split_ifs <;> rfl

theorem length_flatMap_escape {escape : CodePoint → PyStr} {escaped : CodePoint → Nat}
    (h : ∀ c, (escape c).length = escaped c) :
    (quote :: (s.flatMap escape ++ [quote])).length = strLength escaped s := by
  have hmap : s.map (fun c => (escape c).length) = s.map escaped :=
    List.map_congr_left fun c _ => h c
  rw [List.length_cons, List.length_append, List.length_flatMap, hmap, strLength,
    List.length_singleton]
  omega

theorem length_goQuote : (goQuote s).length = strLength goEscaped s :=
  length_flatMap_escape length_goEscape

end Quote

end Wire

import Mathlib.Algebra.Ring.Int.Defs
import Mathlib.Algebra.Ring.Nat
import Mathlib.Data.List.Basic
import Mathlib.Data.List.Induction

/-!
# Durations in the shared file

Both services take `[0-9]{1,6}(s|m|h)`. Python counts microseconds without bound, Go nanoseconds
in 64 bits.

## Main definitions

* `Python.parseDuration`: `parse_duration` on a string, as the microseconds of the `timedelta`.
* `Go.unmarshalText`: `Duration.UnmarshalText`, through `time.ParseDuration`.

## Main results

* `Go.unmarshalText_eq`: Go accepts the same texts and reads the same length.
* `Go.addDuration_eq`: two accepted durations add up within 64 bits.
-/
namespace Settings

def isDigit (c : Char) : Bool := 48 ≤ c.toNat ∧ c.toNat ≤ 57

def digitValue (c : Char) : Nat := c.toNat - 48

/-- The number a row of decimal digits stands for. -/
def decimal (digits : List Char) : Nat := digits.foldl (fun n c => n * 10 + digitValue c) 0

inductive DurationUnit where
  | second
  | minute
  | hour
  deriving DecidableEq, Repr

def DurationUnit.seconds : DurationUnit → Nat
  | second => 1
  | minute => 60
  | hour => 3600

def durationUnit? : Char → Option DurationUnit
  | 's' => some .second
  | 'm' => some .minute
  | 'h' => some .hour
  | _ => none

/-- `[0-9]{1,6}(s|m|h)` on the whole text: its digits and its unit. -/
def matchDuration (text : List Char) : Option (List Char × DurationUnit) :=
  let digits := text.dropLast
  match text.getLast?.bind durationUnit? with
  | some unit =>
    if 1 ≤ digits.length ∧ digits.length ≤ 6 ∧ digits.all isDigit then some (digits, unit) else none
  | none => none

/-- In microseconds. -/
def Python.parseDuration (text : String) : Option Int :=
  (matchDuration text.toList).map fun (digits, unit) =>
    ((decimal digits * unit.seconds : Nat) : Int) * 10 ^ 6

def DurationUnit.symbol : DurationUnit → Char
  | second => 's'
  | minute => 'm'
  | hour => 'h'

theorem durationUnit?_eq_some {c : Char} {unit : DurationUnit} (h : durationUnit? c = some unit) :
    c = unit.symbol := by
  unfold durationUnit? at h
  split at h <;> cases h <;> rfl

/-- What the pattern matches, in its two parts. -/
theorem matchDuration_eq_some {text digits : List Char} {unit : DurationUnit}
    (h : matchDuration text = some (digits, unit)) :
    text = digits ++ [unit.symbol] ∧ 1 ≤ digits.length ∧ digits.length ≤ 6 ∧
      ∀ c ∈ digits, isDigit c := by
  simp only [matchDuration] at h
  split at h
  case h_1 u hu =>
    split_ifs at h with hd
    obtain ⟨rfl, rfl⟩ := Prod.mk.inj (Option.some.inj h)
    obtain ⟨c, hc, hcu⟩ := Option.bind_eq_some_iff.1 hu
    refine ⟨?_, hd.1, hd.2.1, List.all_eq_true.1 hd.2.2⟩
    rw [← durationUnit?_eq_some hcu]
    exact (List.dropLast_append_getLast? c hc).symm
  case h_2 => cases h

theorem digitValue_le {c : Char} (h : isDigit c) : digitValue c ≤ 9 := by
  simp only [isDigit, decide_eq_true_eq] at h
  unfold digitValue
  omega

theorem decimal_lt {digits : List Char} (h : ∀ c ∈ digits, isDigit c) :
    decimal digits < 10 ^ digits.length := by
  induction digits using List.reverseRecOn with
  | nil => simp [decimal]
  | append_singleton ds c ih =>
    have hlt := ih fun x hx => h x (List.mem_append_left _ hx)
    have hc := digitValue_le (h c (by simp))
    simp only [decimal, List.foldl_append, List.foldl_cons, List.foldl_nil, List.length_append,
      List.length_singleton, Nat.pow_succ] at hlt ⊢
    omega

/-- Six digits of the largest unit stay far below 64 bits. -/
theorem decimal_bound {text digits : List Char} {unit : DurationUnit}
    (h : matchDuration text = some (digits, unit)) :
    decimal digits * unit.seconds ≤ 999999 * 3600 := by
  obtain ⟨-, -, hlen, hd⟩ := matchDuration_eq_some h
  have hlt := decimal_lt hd
  have hpow : 10 ^ digits.length ≤ 10 ^ 6 := Nat.pow_le_pow_right (by omega) hlen
  have hunit : unit.seconds ≤ 3600 := by cases unit <;> decide
  exact Nat.mul_le_mul (by omega) hunit

/-! ### `time.ParseDuration` -/

namespace Go

/-- The digits a text begins with, and what follows them; `none` on overflow. -/
def leadingInt : Nat → List Char → Option (Nat × List Char)
  | x, [] => some (x, [])
  | x, c :: cs =>
    if isDigit c then
      if x > 2 ^ 63 / 10 then none
      else
        let x' := x * 10 + digitValue c
        if x' > 2 ^ 63 then none else leadingInt x' cs
    else some (x, c :: cs)

def unitMap : List (String × Nat) := [
  ("ns", 1), ("us", 10 ^ 3), ("µs", 10 ^ 3), ("μs", 10 ^ 3), ("ms", 10 ^ 6), ("s", 10 ^ 9),
  ("m", 60 * 10 ^ 9), ("h", 3600 * 10 ^ 9)]

/-- The loop over number and unit, with `d` the sum so far. A text that comes here has neither
sign nor fraction, so those branches are left out. -/
def parseTerms : Nat → Nat → List Char → Option Nat
  | _, d, [] => some d
  | 0, _, _ :: _ => none
  | fuel + 1, d, c :: cs =>
    if ¬ isDigit c then none
    else match leadingInt 0 (c :: cs) with
      | none => none
      | some (v, rest) =>
        let unit := rest.takeWhile fun c => c ≠ '.' ∧ ¬ isDigit c
        match unitMap.lookup (String.ofList unit) with
        | none => none
        | some u =>
          if v > 2 ^ 63 / u then none
          else
            let d' := (d + v * u % 2 ^ 64) % 2 ^ 64
            if d' > 2 ^ 63 then none else parseTerms fuel d' (rest.drop unit.length)

/-- Every round consumes a digit, so the length of the text is fuel enough. -/
def parseDuration (text : List Char) : Option Int :=
  if text = [] then none
  else if text = ['0'] then some 0
  else match parseTerms text.length 0 text with
    | some d => if d > 2 ^ 63 - 1 then none else some d
    | none => none

/-- `Duration.UnmarshalText`, in nanoseconds. -/
def unmarshalText (text : String) : Option Int :=
  match matchDuration text.toList with
  | some _ => parseDuration text.toList
  | none => none

theorem isDigit_symbol (unit : DurationUnit) : isDigit unit.symbol = false := by
  cases unit <;> decide

theorem lookup_symbol (unit : DurationUnit) :
    unitMap.lookup (String.ofList [unit.symbol]) = some (unit.seconds * 10 ^ 9) := by
  cases unit <;> decide

/-- Few enough digits are read to the end. -/
theorem leadingInt_append {digits : List Char} {c : Char} (hd : ∀ c ∈ digits, isDigit c)
    (hc : isDigit c = false) {x k : Nat} (hx : x < 10 ^ k) (hk : k + digits.length ≤ 18) :
    leadingInt x (digits ++ [c]) =
      some (digits.foldl (fun n c => n * 10 + digitValue c) x, [c]) := by
  induction digits generalizing x k with
  | nil => simp [leadingInt, hc]
  | cons d ds ih =>
    have hdig := hd d (by simp)
    have hval := digitValue_le hdig
    rw [List.length_cons] at hk
    have hpow : 10 ^ k ≤ 10 ^ 17 := Nat.pow_le_pow_right (by omega) (by omega)
    have hsmall : ¬ x > 2 ^ 63 / 10 := by omega
    have hsmall' : ¬ x * 10 + digitValue d > 2 ^ 63 := by omega
    have hnext : x * 10 + digitValue d < 10 ^ (k + 1) := by rw [Nat.pow_succ]; omega
    simp only [List.cons_append, leadingInt, hdig, if_true, hsmall, hsmall', if_false]
    exact ih (fun c h => hd c (List.mem_cons_of_mem _ h)) hnext (by omega)

/-- A matched text is one term, and no check for overflow fires on it. -/
theorem parseDuration_matched {text digits : List Char} {unit : DurationUnit}
    (h : matchDuration text = some (digits, unit)) :
    parseDuration text = some (((decimal digits * unit.seconds : Nat) : Int) * 10 ^ 9) := by
  have hbound := decimal_bound h
  obtain ⟨htext, hpos, hlen, hd⟩ := matchDuration_eq_some h
  obtain ⟨d, ds, rfl⟩ := List.exists_cons_of_length_pos hpos
  have hfirst : isDigit d := hd d (by simp)
  have hread : leadingInt 0 (d :: (ds ++ [unit.symbol])) =
      some (decimal (d :: ds), [unit.symbol]) :=
    leadingInt_append hd (isDigit_symbol unit) (k := 0) (by omega) (by simp at hlen ⊢; omega)
  have hunit : [unit.symbol].takeWhile (fun c => c ≠ '.' ∧ ¬ isDigit c) = [unit.symbol] := by
    cases unit <;> decide
  have hbig : ¬ decimal (d :: ds) > 2 ^ 63 / (unit.seconds * 10 ^ 9) := by
    rw [gt_iff_lt, not_lt, Nat.le_div_iff_mul_le (by cases unit <;> decide), ← Nat.mul_assoc]
    omega
  have hexact : (0 + decimal (d :: ds) * (unit.seconds * 10 ^ 9) % 2 ^ 64) % 2 ^ 64 =
      decimal (d :: ds) * unit.seconds * 10 ^ 9 := by
    rw [← Nat.mul_assoc]
    omega
  have hterms : parseTerms text.length 0 text =
      some (decimal (d :: ds) * unit.seconds * 10 ^ 9) := by
    rw [htext, List.length_append, List.length_singleton]
    simp only [List.cons_append, parseTerms, hfirst, hread, hunit, lookup_symbol, hbig, hexact,
      not_true_eq_false, if_false]
    rw [if_neg (by omega)]
    simp [parseTerms]
  have hzero : text ≠ ['0'] := by
    rw [htext]
    cases unit <;> simp [DurationUnit.symbol]
  rw [parseDuration, if_neg (by simp [htext]), if_neg hzero, hterms]
  change (if _ then _ else _) = _
  rw [if_neg (by omega)]
  push_cast
  rfl

/-- The two readers agree on every text. -/
theorem unmarshalText_eq (text : String) :
    unmarshalText text = (Python.parseDuration text).map (· * 1000) := by
  unfold unmarshalText Python.parseDuration
  cases h : matchDuration text.toList with
  | none => rfl
  | some m =>
    obtain ⟨digits, unit⟩ := m
    change parseDuration text.toList = _
    rw [parseDuration_matched h]
    simp only [Option.map_some]
    rw [mul_assoc]
    rfl

theorem unmarshalText_range {text : String} {d : Int} (h : unmarshalText text = some d) :
    0 ≤ d ∧ d ≤ 999999 * 3600 * 10 ^ 9 := by
  unfold unmarshalText at h
  split at h
  case h_1 m hm =>
    obtain ⟨digits, unit⟩ := m
    have hbound := decimal_bound hm
    cases (parseDuration_matched hm).symm.trans h
    omega
  case h_2 => cases h

/-- Addition of two `time.Duration`s: 64 bits, two's complement. -/
def addDuration (a b : Int) : Int := (a + b).bmod (2 ^ 64)

theorem addDuration_eq {s t : String} {d e : Int} (hd : unmarshalText s = some d)
    (he : unmarshalText t = some e) : addDuration d e = d + e := by
  have hd := unmarshalText_range hd
  have he := unmarshalText_range he
  exact Int.bmod_eq_of_le (by omega) (by omega)

end Go

end Settings

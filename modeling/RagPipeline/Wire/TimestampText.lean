import Mathlib.Data.List.TakeWhile
import RagPipeline.Wire.Calendar

/-!
# Timestamps survive the language boundary

Both services print a date of fixed width, with a fraction of their own, and read back what the
other one printed.

## Main definitions

* `civilChars`: the common part of the printed texts.
* `parseRFC3339`: Go's reader.

## Main results

* `parseTimestamp_goTimestamp`: Python reads what Go prints, to the microsecond.
* `parseRFC3339_pyTimestamp`: Go reads what Python prints.
-/
namespace Wire

/-! ### Digits -/

section Digits

variable {cs : List Char} {n w : Nat}

theorem ofChar_digit {c : Char} (h : c.isDigit) :
    48 ≤ (CodePoint.ofChar c).val ∧ (CodePoint.ofChar c).val ≤ 57 := by
  simp only [Char.isDigit, Bool.and_eq_true, decide_eq_true_eq, UInt32.le_iff_toNat_le] at h
  exact h

def isDigitPoint (c : CodePoint) : Bool := 48 ≤ c.val ∧ c.val ≤ 57

theorem digits?_of_isDigit (h : ∀ c ∈ cs, c.isDigit) :
    digits? (cs.map .ofChar) = some (Nat.ofDigitChars 10 cs 0) := by
  unfold digits?
  generalize 0 = n
  induction cs generalizing n with
  | nil => simp
  | cons c cs ih =>
    have hrange := ofChar_digit (h c (by simp))
    have hval : n * 10 + ((CodePoint.ofChar c).val - 48) = 10 * n + (c.toNat - '0'.toNat) := by
      rw [Nat.mul_comm]
      rfl
    simp only [List.map_cons, List.foldlM_cons, hrange, and_self, if_true, hval]
    rw [Nat.ofDigitChars_cons]
    exact ih (fun x hx => h x (List.mem_cons_of_mem _ hx)) _

theorem isDigitPoint_map (h : ∀ c ∈ cs, c.isDigit) :
    ∀ c ∈ cs.map CodePoint.ofChar, isDigitPoint c := by
  intro p hp
  obtain ⟨c, hc, rfl⟩ := List.mem_map.1 hp
  simpa [isDigitPoint] using ofChar_digit (h c hc)

theorem toList_padded : (padded w n).toList =
    List.replicate (w - (Nat.toDigits 10 n).length) '0' ++ Nat.toDigits 10 n := by
  simp [padded]

theorem isDigit_padded : ∀ c ∈ (padded w n).toList, c.isDigit := by
  intro c hc
  rw [toList_padded, List.mem_append] at hc
  rcases hc with hc | hc
  · rw [List.eq_of_mem_replicate hc]
    decide
  · exact Nat.isDigit_of_mem_toDigits (by omega) (by omega) hc

theorem ofDigitChars_padded : Nat.ofDigitChars 10 (padded w n).toList 0 = n := by
  rw [toList_padded, Nat.ofDigitChars_append, Nat.ofDigitChars_replicate_zero, Nat.mul_zero,
    Nat.ofDigitChars_ten_toDigits]

theorem length_padded (hw : 0 < w) (h : n < 10 ^ w) : (padded w n).toList.length = w := by
  have := (Nat.length_toDigits_le_iff (by omega) hw).2 h
  rw [toList_padded, List.length_append, List.length_replicate]
  omega

theorem digits?_padded : digits? ((padded w n).toList.map .ofChar) = some n := by
  rw [digits?_of_isDigit isDigit_padded, ofDigitChars_padded]

end Digits

/-! ### Date and time of day -/

/-- `YYYY-MM-DDTHH:MM:SS`. -/
def civilChars (year month day hour minute second : Nat) : List Char :=
  (padded 4 year).toList ++ '-' :: ((padded 2 month).toList ++ '-' :: ((padded 2 day).toList ++
    'T' :: ((padded 2 hour).toList ++ ':' :: ((padded 2 minute).toList ++ ':' ::
      (padded 2 second).toList))))

theorem concat_civilChars {year month day hour minute second : Nat} :
    padded 4 year ++ "-" ++ padded 2 month ++ "-" ++ padded 2 day ++ "T" ++ padded 2 hour ++ ":" ++
      padded 2 minute ++ ":" ++ padded 2 second =
        String.ofList (civilChars year month day hour minute second) := by
  rw [← String.toList_inj]
  simp [civilChars]

/-- What both readers find at the fixed places of a text. -/
structure Stamped (s rest : PyStr) (year month day hour minute second : Nat) : Prop where
  year : digits? ((s.drop 0).take 4) = some year
  month : digits? ((s.drop 5).take 2) = some month
  day : digits? ((s.drop 8).take 2) = some day
  hour : digits? ((s.drop 11).take 2) = some hour
  minute : digits? ((s.drop 14).take 2) = some minute
  second : digits? ((s.drop 17).take 2) = some second
  punctuated : s[4]? = some (.ofChar '-') ∧ s[7]? = some (.ofChar '-') ∧
    s[10]? = some (.ofChar 'T') ∧ s[13]? = some (.ofChar ':') ∧ s[16]? = some (.ofChar ':')
  rest : s.drop 19 = rest

theorem stamped_civilChars {year month day hour minute second : Nat} {rest : PyStr}
    (hy : year < 10000) (hmo : month < 100) (hd : day < 100) (hh : hour < 100)
    (hmi : minute < 100) (hs : second < 100) :
    Stamped ((civilChars year month day hour minute second).map .ofChar ++ rest) rest
      year month day hour minute second := by
  have ey := @digits?_padded year 4
  have emo := @digits?_padded month 2
  have ed := @digits?_padded day 2
  have eh := @digits?_padded hour 2
  have emi := @digits?_padded minute 2
  have es := @digits?_padded second 2
  unfold civilChars
  obtain ⟨y₁, y₂, y₃, y₄, hy⟩ := List.length_eq_four.1 (length_padded (w := 4) (by omega) hy)
  obtain ⟨mo₁, mo₂, hmo⟩ := List.length_eq_two.1 (length_padded (w := 2) (by omega) hmo)
  obtain ⟨d₁, d₂, hd⟩ := List.length_eq_two.1 (length_padded (w := 2) (by omega) hd)
  obtain ⟨h₁, h₂, hh⟩ := List.length_eq_two.1 (length_padded (w := 2) (by omega) hh)
  obtain ⟨mi₁, mi₂, hmi⟩ := List.length_eq_two.1 (length_padded (w := 2) (by omega) hmi)
  obtain ⟨s₁, s₂, hs⟩ := List.length_eq_two.1 (length_padded (w := 2) (by omega) hs)
  rw [hy] at ey ⊢
  rw [hmo] at emo ⊢
  rw [hd] at ed ⊢
  rw [hh] at eh ⊢
  rw [hmi] at emi ⊢
  rw [hs] at es ⊢
  exact ⟨ey, emo, ed, eh, emi, es, by simp, rfl⟩

/-- A date and a time of day that exist. -/
structure RealTime (year month day hour minute second : Nat) : Prop where
  era : 1 ≤ year
  season : 1 ≤ month ∧ month ≤ 12
  date : 1 ≤ day ∧ day ≤ daysInMonth year month
  clock : hour ≤ 23 ∧ minute ≤ 59 ∧ second ≤ 59

theorem RealTime.day_lt {year month day hour minute second : Nat}
    (h : RealTime year month day hour minute second) : day < 100 := by
  have := daysInMonth_le year month
  have := h.date
  omega

theorem stamped_of_realTime {year month day hour minute second : Nat}
    (h : RealTime year month day hour minute second) (hy : year < 10000) (rest : PyStr) :
    Stamped ((civilChars year month day hour minute second).map .ofChar ++ rest) rest
      year month day hour minute second := by
  have hmonth := h.season
  have hclock := h.clock
  exact stamped_civilChars hy (by omega) h.day_lt (by omega) (by omega) (by omega)

/-- Nanoseconds from 1970 to the beginning of a second. -/
def instantOf (year month day hour minute second : Nat) : Int :=
  (daysFromCivil year month day * 86400 + hour * 3600 + minute * 60 + second) * 10 ^ 9

section Readers

variable {s fs : PyStr} {year month day hour minute second f : Nat}

theorem parseTimestamp_whole (h : Stamped s [.ofChar 'Z'] year month day hour minute second)
    (hr : RealTime year month day hour minute second) :
    parseTimestamp s = .ok (instantOf year month day hour minute second) := by
  obtain ⟨hy, hm, hd, hc⟩ := hr
  have hyear : digits? (s.take 4) = some year := h.year
  have hnil : digits? [] = some 0 := rfl
  simp [parseTimestamp, hyear, h.month, h.day, h.hour, h.minute, h.second, h.punctuated, h.rest,
    hnil, hy, hm, hd, hc, instantOf]

theorem parseTimestamp_fraction
    (h : Stamped s (.ofChar '.' :: (fs ++ [.ofChar 'Z'])) year month day hour minute second)
    (hr : RealTime year month day hour minute second) (hlen : 1 ≤ fs.length ∧ fs.length ≤ 9)
    (hf : digits? fs = some f) :
    parseTimestamp s = .ok (instantOf year month day hour minute second +
      (f * 10 ^ (9 - fs.length) / 1000 * 1000 : Nat)) := by
  obtain ⟨hy, hm, hd, hc⟩ := hr
  have hyear : digits? (s.take 4) = some year := h.year
  have hne : fs ≠ [] := by
    rintro rfl
    simp at hlen
  simp [parseTimestamp, hyear, h.month, h.day, h.hour, h.minute, h.second, h.punctuated, h.rest,
    hf, hy, hm, hd, hc, instantOf, hlen, hne]

end Readers

/-! ### Go's reader -/

/-- The fraction a text begins with, in nanoseconds, and what follows it. -/
def splitFraction : PyStr → Nat × PyStr
  | dot :: rest =>
    let fs := rest.takeWhile isDigitPoint
    if dot = .ofChar '.' ∧ fs ≠ [] then
      let kept := fs.take 9
      ((digits? kept).getD 0 * 10 ^ (9 - kept.length), rest.drop fs.length)
    else (0, dot :: rest)
  | [] => (0, [])

/-- Seconds east of Greenwich: `Z` or `-07:00`. -/
def zoneOffset (zone : PyStr) : Option Int :=
  if zone = [.ofChar 'Z'] then some 0
  else match zone[0]?, digits? ((zone.drop 1).take 2), digits? ((zone.drop 4).take 2) with
    | some sign, some hours, some minutes =>
      if zone.length = 6 ∧ zone[3]? = some (.ofChar ':') ∧ hours ≤ 23 ∧ minutes ≤ 59 then
        if sign = .ofChar '+' then some ((hours * 60 + minutes) * 60)
        else if sign = .ofChar '-' then some (-((hours * 60 + minutes) * 60))
        else none
      else none
    | _, _, _ => none

/-- `time.Time.UnmarshalJSON` on an RFC 3339 text. -/
def parseRFC3339 (s : PyStr) : Option Int :=
  let part (start len : Nat) : Option Nat := digits? ((s.drop start).take len)
  let punctuated := s[4]? = some (.ofChar '-') ∧ s[7]? = some (.ofChar '-') ∧
    s[10]? = some (.ofChar 'T') ∧ s[13]? = some (.ofChar ':') ∧ s[16]? = some (.ofChar ':')
  let fraction := splitFraction (s.drop 19)
  match part 0 4, part 5 2, part 8 2, part 11 2, part 14 2, part 17 2, zoneOffset fraction.2 with
  | some year, some month, some day, some hour, some minute, some second, some offset =>
    if punctuated ∧ 1 ≤ month ∧ month ≤ 12 ∧ 1 ≤ day ∧ day ≤ daysInMonth year month ∧
        hour ≤ 23 ∧ minute ≤ 59 ∧ second ≤ 59 then
      some ((daysFromCivil year month day * 86400 + hour * 3600 + minute * 60 + second - offset) *
        10 ^ 9 + fraction.1)
    else none
  | _, _, _, _, _, _, _ => none

theorem parseRFC3339_fraction {s fs : PyStr} {year month day hour minute second f : Nat}
    (h : Stamped s (.ofChar '.' :: (fs ++ [.ofChar 'Z'])) year month day hour minute second)
    (hr : RealTime year month day hour minute second) (hlen : 1 ≤ fs.length ∧ fs.length ≤ 9)
    (hd : ∀ c ∈ fs, isDigitPoint c) (hf : digits? fs = some f) :
    parseRFC3339 s = some (instantOf year month day hour minute second +
      (f * 10 ^ (9 - fs.length) : Nat)) := by
  have hyear : digits? (s.take 4) = some year := h.year
  have hne : fs ≠ [] := by
    rintro rfl
    simp at hlen
  have htake : (fs ++ [CodePoint.ofChar 'Z']).takeWhile isDigitPoint = fs := by
    rw [List.takeWhile_append_of_pos hd]
    exact List.append_nil fs
  have hfraction : splitFraction (s.drop 19) =
      (f * 10 ^ (9 - fs.length), [CodePoint.ofChar 'Z']) := by
    rw [h.rest]
    simp [splitFraction, htake, hne, List.take_of_length_le hlen.2, hf]
  obtain ⟨-, hm, hday, hc⟩ := hr
  simp [parseRFC3339, hyear, h.month, h.day, h.hour, h.minute, h.second, h.punctuated, hfraction,
    zoneOffset, hm, hday, hc, instantOf]

example : parseRFC3339 (ofString "2026-10-14T12:00:00.5+02:00") = some 1791972000500000000 := by
  decide +kernel

/-! ### What is printed is read -/

/-- The year of an instant is one that both services print and read. -/
def InYears (instant : Int) : Prop :=
  1 ≤ (civilFromDays (instant / 10 ^ 9 / 86400)).1 ∧
    (civilFromDays (instant / 10 ^ 9 / 86400)).1 ≤ 9999

instance (instant : Int) : Decidable (InYears instant) := inferInstanceAs (Decidable (_ ∧ _))

/-- The parts of an instant that are printed. -/
theorem civilText_parts {instant : Int} (h : InYears instant) :
    ∃ year month day hour minute second,
      civilText instant = some (String.ofList (civilChars year month day hour minute second),
        (instant % 10 ^ 9).toNat) ∧ year < 10000 ∧
      RealTime year month day hour minute second ∧
      instant = instantOf year month day hour minute second + instant % 10 ^ 9 := by
  obtain ⟨h₁, h₂⟩ := h
  have hvalid := @civilFromDays_valid (instant / 10 ^ 9 / 86400) (by omega)
  have hback := daysFromCivil_civilFromDays (instant / 10 ^ 9 / 86400)
  obtain ⟨⟨year, month, day⟩, hciv⟩ :
      ∃ civil, civilFromDays (instant / 10 ^ 9 / 86400) = civil := ⟨_, rfl⟩
  rw [hciv] at h₁ h₂ hvalid hback
  dsimp only at h₁ h₂ hvalid hback
  obtain ⟨hm₁, hm₂, hd₁, hd₂⟩ := hvalid
  obtain ⟨s, hs⟩ : ∃ s, s = (instant / 10 ^ 9 % 86400).toNat := ⟨_, rfl⟩
  have hyear : (year.toNat : Int) = year := Int.toNat_of_nonneg (by omega)
  refine ⟨year.toNat, month, day, s / 3600, s / 60 % 60, s % 60, ?_, by omega,
    ⟨by omega, ⟨hm₁, hm₂⟩, ⟨hd₁, hd₂⟩, by omega, by omega, by omega⟩, ?_⟩
  · simp only [civilText, hciv]
    rw [if_pos ⟨by omega, h₂⟩, ← hs, concat_civilChars]
  · rw [instantOf, hyear, hback]
    omega

/-- The digits that are left when the zeros at the end are dropped. -/
def trimmed (cs : List Char) : List Char := (cs.reverse.dropWhile (· = '0')).reverse

theorem eq_trimmed_append (cs : List Char) :
    ∃ k, cs = trimmed cs ++ List.replicate k '0' := by
  refine ⟨(cs.reverse.takeWhile (· = '0')).length, ?_⟩
  have hzeros : cs.reverse.takeWhile (· = '0') =
      List.replicate (cs.reverse.takeWhile (· = '0')).length '0' := by
    rw [List.eq_replicate_iff]
    exact ⟨rfl, fun c hc => by simpa using List.mem_takeWhile_imp hc⟩
  have hsplit := List.takeWhile_append_dropWhile (p := (· = '0')) (l := cs.reverse)
  rw [hzeros] at hsplit
  rw [trimmed, ← List.reverse_replicate, ← List.reverse_append, hsplit, List.reverse_reverse]

/-- A fraction of nine digits and the same fraction trimmed. -/
theorem trimmed_padded {n : Nat} (h : n < 10 ^ 9) :
    (trimmed (padded 9 n).toList).length ≤ 9 ∧ (∀ c ∈ trimmed (padded 9 n).toList, c.isDigit) ∧
      Nat.ofDigitChars 10 (trimmed (padded 9 n).toList) 0 *
        10 ^ (9 - (trimmed (padded 9 n).toList).length) = n := by
  obtain ⟨k, hk⟩ := eq_trimmed_append (padded 9 n).toList
  have hlen := congrArg List.length hk
  rw [length_padded (by omega) h, List.length_append, List.length_replicate] at hlen
  have hval := congrArg (Nat.ofDigitChars 10 · 0) hk
  simp only [ofDigitChars_padded, Nat.ofDigitChars_append, Nat.ofDigitChars_replicate_zero] at hval
  refine ⟨by omega, fun c hc => isDigit_padded (w := 9) (n := n) c ?_, ?_⟩
  · rw [hk]
    exact List.mem_append_left _ hc
  · have : 9 - (trimmed (padded 9 n).toList).length = k := by omega
    rw [this, Nat.mul_comm]
    exact hval.symm

theorem parseTimestamp_goTimestamp {instant : Int} (h : InYears instant) :
    ∃ text, goTimestamp instant = some text ∧
      parseTimestamp (ofString text) = .ok (instant / 1000 * 1000) := by
  obtain ⟨year, month, day, hour, minute, second, htext, hy, hr, hsum⟩ := civilText_parts h
  obtain ⟨n, hn⟩ : ∃ n, n = (instant % 10 ^ 9).toNat := ⟨_, rfl⟩
  have hstamp := stamped_of_realTime hr hy
  obtain ⟨hlen, hdigit, hval⟩ := trimmed_padded (n := n) (by omega)
  refine ⟨_, by rw [goTimestamp, htext]; rfl, ?_⟩
  change parseTimestamp (ofString (String.ofList _ ++ (if trimmed (padded 9 _).toList = [] then ""
    else "." ++ String.ofList (trimmed (padded 9 _).toList)) ++ "Z")) = _
  rw [← hn]
  by_cases hnil : trimmed (padded 9 n).toList = []
  · rw [if_pos hnil]
    have hn₀ : n = 0 := by simpa [hnil] using hval.symm
    have heq :
        ofString (String.ofList (civilChars year month day hour minute second) ++ "" ++ "Z") =
        (civilChars year month day hour minute second).map .ofChar ++ [.ofChar 'Z'] := by
      simp [ofString]
    rw [heq, parseTimestamp_whole (hstamp _) hr]
    exact congrArg Except.ok (by omega)
  · rw [if_neg hnil]
    have heq : ofString (String.ofList (civilChars year month day hour minute second) ++
        ("." ++ String.ofList (trimmed (padded 9 n).toList)) ++ "Z") =
        (civilChars year month day hour minute second).map .ofChar ++ (.ofChar '.' ::
          ((trimmed (padded 9 n).toList).map .ofChar ++ [.ofChar 'Z'])) := by
      simp [ofString]
    have hpos := List.length_pos_iff.2 hnil
    rw [heq, parseTimestamp_fraction (hstamp _) hr (by simpa using ⟨hpos, hlen⟩)
      (digits?_of_isDigit hdigit), List.length_map, hval]
    exact congrArg Except.ok (by omega)

theorem parseRFC3339_pyTimestamp {instant : Int} (h : InYears instant) :
    ∃ text, pyTimestamp instant = some text ∧
      parseTimestamp (ofString text) = .ok (instant / 1000 * 1000) ∧
      parseRFC3339 (ofString text) = some (instant / 1000 * 1000) := by
  obtain ⟨year, month, day, hour, minute, second, htext, hy, hr, hsum⟩ := civilText_parts h
  obtain ⟨n, hn⟩ : ∃ n, n = (instant % 10 ^ 9).toNat := ⟨_, rfl⟩
  obtain ⟨fs, hfs⟩ : ∃ fs, fs = (padded 6 (n / 1000)).toList := ⟨_, rfl⟩
  have hlen : fs.length = 6 := hfs ▸ length_padded (by omega) (by omega)
  have hdigits : ∀ c ∈ fs, c.isDigit := hfs ▸ isDigit_padded
  have hvalue : digits? (fs.map .ofChar) = some (n / 1000) := hfs ▸ digits?_padded
  have hstamp := stamped_of_realTime hr hy (.ofChar '.' :: (fs.map .ofChar ++ [.ofChar 'Z']))
  refine ⟨_, by rw [pyTimestamp, htext]; rfl, ?_⟩
  have heq : ofString (String.ofList (civilChars year month day hour minute second) ++ "." ++
      padded 6 (n / 1000) ++ "Z") =
      (civilChars year month day hour minute second).map .ofChar ++ (.ofChar '.' ::
        (fs.map .ofChar ++ [.ofChar 'Z'])) := by
    simp [ofString, hfs]
  change parseTimestamp (ofString (_ ++ "." ++ padded 6 (_ / 1000) ++ "Z")) = _ ∧
    parseRFC3339 (ofString (_ ++ "." ++ padded 6 (_ / 1000) ++ "Z")) = _
  rw [← hn, heq, parseTimestamp_fraction hstamp hr (by simp [hlen]) hvalue,
    parseRFC3339_fraction hstamp hr (by simp [hlen]) (isDigitPoint_map hdigits) hvalue,
    List.length_map, hlen]
  exact ⟨congrArg Except.ok (by omega), congrArg some (by omega)⟩

end Wire

import Mathlib.Tactic.IntervalCases
import RagPipeline.Wire.Timestamp

/-!
# The calendar behind the timestamps

A day of the 400-year era is a century, a group of four years, a year and a day of the year;
the closed formulas of `civilFromDays` find these parts.

## Main results

* `daysFromCivil_civilFromDays`: the two conversions are inverse.
* `civilFromDays_valid`: what comes out is a date.
* `civilFromDays_lt`: later days have later dates.
-/
namespace Wire

/-- The parts of a day of the era, counted from the first of March. Only the last of four years
has 366 days, and of the last years of the centuries only the fourth. -/
theorem exists_dayParts {doe : Int} (h₀ : 0 ≤ doe) (h₁ : doe ≤ 146096) :
    ∃ a b c doy : Int, 0 ≤ a ∧ a ≤ 3 ∧ 0 ≤ b ∧ b ≤ 24 ∧ 0 ≤ c ∧ c ≤ 3 ∧ 0 ≤ doy ∧ doy ≤ 365 ∧
      (doy = 365 → c = 3 ∧ (b = 24 → a = 3)) ∧ doe = 36524 * a + 1461 * b + 365 * c + doy := by
  obtain ⟨a, ha₀, ha₃, hr₀, hr, hlast⟩ : ∃ a : Int, 0 ≤ a ∧ a ≤ 3 ∧ 0 ≤ doe - 36524 * a ∧
      doe - 36524 * a ≤ 36524 ∧ (doe - 36524 * a = 36524 → a = 3) := by
    by_cases h : doe / 36524 ≤ 3
    · exact ⟨doe / 36524, by omega, h, by omega, by omega, by omega⟩
    · exact ⟨3, by omega, by omega, by omega, by omega, fun _ => rfl⟩
  obtain ⟨b, hb⟩ : ∃ b, b = (doe - 36524 * a) / 1461 := ⟨_, rfl⟩
  obtain ⟨c, hc₀, hc₃, hd₀, hd, hlast'⟩ : ∃ c : Int, 0 ≤ c ∧ c ≤ 3 ∧
      0 ≤ doe - 36524 * a - 1461 * b - 365 * c ∧ doe - 36524 * a - 1461 * b - 365 * c ≤ 365 ∧
      (doe - 36524 * a - 1461 * b - 365 * c = 365 → c = 3) := by
    by_cases h : (doe - 36524 * a - 1461 * b) / 365 ≤ 3
    · exact ⟨(doe - 36524 * a - 1461 * b) / 365, by omega, h, by omega, by omega, by omega⟩
    · exact ⟨3, by omega, by omega, by omega, by omega, fun _ => rfl⟩
  refine ⟨a, b, c, doe - 36524 * a - 1461 * b - 365 * c, ha₀, ha₃, by omega, by omega, hc₀, hc₃,
    hd₀, hd, fun h => ⟨hlast' h, fun hb' => hlast ?_⟩, by omega⟩
  have := hlast' h
  omega

/-- The formula for the year of the era. -/
theorem year_of_parts {doe a b c doy : Int} (ha₀ : 0 ≤ a) (ha : a ≤ 3) (hb₀ : 0 ≤ b) (hb : b ≤ 24)
    (hc₀ : 0 ≤ c) (hc : c ≤ 3) (hd₀ : 0 ≤ doy) (hd : doy ≤ 365)
    (hleap : doy = 365 → c = 3 ∧ (b = 24 → a = 3))
    (hdoe : doe = 36524 * a + 1461 * b + 365 * c + doy) :
    (doe - doe / 1460 + doe / 36524 - doe / 146096) / 365 = 100 * a + 4 * b + c := by
  have hquad : doe / 1460 = 25 * a + b + (24 * a + b + 365 * c + doy) / 1460 := by omega
  have hcentury : doe / 36524 = a + (1461 * b + 365 * c + doy) / 36524 := by omega
  have hera : (1461 * b + 365 * c + doy) / 36524 = doe / 146096 := by
    by_cases h : b = 24 ∧ c = 3 ∧ doy = 365
    · have := (hleap h.2.2).2 h.1
      omega
    · omega
  omega

/-- Every day by its parts: the era, the year of the era and the day of that year. -/
theorem civilFromDays_parts (days : Int) : ∃ era a b c doy : Int,
    0 ≤ a ∧ a ≤ 3 ∧ 0 ≤ b ∧ b ≤ 24 ∧ 0 ≤ c ∧ c ≤ 3 ∧ 0 ≤ doy ∧ doy ≤ 365 ∧
    (doy = 365 → c = 3 ∧ (b = 24 → a = 3)) ∧
    days = era * 146097 + (36524 * a + 1461 * b + 365 * c + doy) - 719468 ∧
    civilFromDays days =
      (let mp := (5 * doy + 2) / 153
       let month := if mp < 10 then mp + 3 else mp - 9
       (100 * a + 4 * b + c + era * 400 + (if month ≤ 2 then 1 else 0), month.toNat,
         (doy - (153 * mp + 2) / 5 + 1).toNat)) := by
  obtain ⟨era, doe, hera, hdoe₀, hdoe₁, hdays⟩ : ∃ era doe : Int, era = (days + 719468) / 146097 ∧
      0 ≤ doe ∧ doe ≤ 146096 ∧ days + 719468 - era * 146097 = doe :=
    ⟨_, _, rfl, by omega, by omega, rfl⟩
  obtain ⟨a, b, c, doy, ha₀, ha, hb₀, hb, hc₀, hc, hd₀, hd, hleap, hdoe⟩ :=
    exists_dayParts hdoe₀ hdoe₁
  have hfour : (100 * a + 4 * b + c) / 4 = 25 * a + b := by omega
  have hhundred : (100 * a + 4 * b + c) / 100 = a := by omega
  have hday : doe - (365 * (100 * a + 4 * b + c) + (25 * a + b) - a) = doy := by omega
  have hsum : days = era * 146097 + (36524 * a + 1461 * b + 365 * c + doy) - 719468 := by omega
  have hyear := year_of_parts ha₀ ha hb₀ hb hc₀ hc hd₀ hd hleap hdoe
  refine ⟨era, a, b, c, doy, ha₀, ha, hb₀, hb, hc₀, hc, hd₀, hd, hleap, hsum, ?_⟩
  simp only [civilFromDays, ← hera, hdays, hyear, hfour, hhundred, hday]

/-- A date by its parts, with the months counted from March. -/
theorem daysFromCivil_parts {era a b c doy mp : Int} (ha₀ : 0 ≤ a) (ha : a ≤ 3) (hb₀ : 0 ≤ b)
    (hb : b ≤ 24) (hc₀ : 0 ≤ c) (hc : c ≤ 3) (hm₀ : 0 ≤ mp) (hm : mp ≤ 11)
    (hday : (153 * mp + 2) / 5 ≤ doy) :
    daysFromCivil (100 * a + 4 * b + c + era * 400 +
        (if (if mp < 10 then mp + 3 else mp - 9) ≤ 2 then 1 else 0))
      (if mp < 10 then mp + 3 else mp - 9).toNat (doy - (153 * mp + 2) / 5 + 1).toNat =
      era * 146097 + (36524 * a + 1461 * b + 365 * c + doy) - 719468 := by
  have hera : (100 * a + 4 * b + c + era * 400) / 400 = era := by omega
  have hfour : (100 * a + 4 * b + c) / 4 = 25 * a + b := by omega
  have hhundred : (100 * a + 4 * b + c) / 100 = a := by omega
  have hyoe : 100 * a + 4 * b + c + era * 400 - era * 400 = 100 * a + 4 * b + c := by omega
  obtain ⟨d, hd⟩ := Int.eq_ofNat_of_zero_le (a := doy - (153 * mp + 2) / 5 + 1) (by omega)
  by_cases h : mp < 10
  · have hmonth : ((mp + 3).toNat : Int) = mp + 3 := Int.toNat_of_nonneg (by omega)
    have hlate : ¬ (mp + 3).toNat ≤ 2 := by omega
    have hlate' : ¬ mp + 3 ≤ 2 := by omega
    have hfrom : (mp + 3).toNat > 2 := by omega
    simp only [daysFromCivil, h, if_true, hlate, hlate', hfrom, if_false, add_zero, hera, hyoe,
      hfour, hhundred, hmonth, hd, Int.toNat_natCast]
    omega
  · have hmonth : ((mp - 9).toNat : Int) = mp - 9 := Int.toNat_of_nonneg (by omega)
    have hearly : (mp - 9).toNat ≤ 2 := by omega
    have hearly' : mp - 9 ≤ 2 := by omega
    have hfrom : ¬ (mp - 9).toNat > 2 := by omega
    simp only [daysFromCivil, h, if_true, hearly, hearly', hfrom, if_false, add_sub_cancel_right,
      hera, hyoe, hfour, hhundred, hmonth, hd, Int.toNat_natCast]
    omega

theorem daysFromCivil_civilFromDays (days : Int) :
    daysFromCivil (civilFromDays days).1 (civilFromDays days).2.1 (civilFromDays days).2.2 =
      days := by
  obtain ⟨era, a, b, c, doy, ha₀, ha, hb₀, hb, hc₀, hc, hd₀, hd, -, hdays, heq⟩ :=
    civilFromDays_parts days
  rw [heq, hdays]
  exact daysFromCivil_parts ha₀ ha hb₀ hb hc₀ hc (by omega) (by omega) (by omega)

theorem daysInMonth_le (year month : Nat) : daysInMonth year month ≤ 31 := by
  unfold daysInMonth
  split <;> (try split_ifs) <;> omega

/-- Every day is a date of its month, also in a leap year. -/
theorem civilFromDays_valid {days : Int} (h : 0 ≤ (civilFromDays days).1) :
    1 ≤ (civilFromDays days).2.1 ∧ (civilFromDays days).2.1 ≤ 12 ∧
      1 ≤ (civilFromDays days).2.2 ∧
      (civilFromDays days).2.2 ≤
        daysInMonth (civilFromDays days).1.toNat (civilFromDays days).2.1 := by
  obtain ⟨era, a, b, c, doy, ha₀, ha, hb₀, hb, hc₀, hc, hd₀, hd, hleap, -, heq⟩ :=
    civilFromDays_parts days
  rw [heq] at h ⊢
  have hm₀ : 0 ≤ (5 * doy + 2) / 153 := by omega
  have hm : (5 * doy + 2) / 153 ≤ 11 := by omega
  generalize hmp : (5 * doy + 2) / 153 = mp at *
  clear heq
  dsimp only at h ⊢
  interval_cases mp <;> simp [daysInMonth] at h ⊢ <;> omega

/-! ### The order of the dates -/

/-- The day on which the year that begins in March of `y` begins. -/
def marchYearStart (y : Int) : Int := 365 * y + y / 4 - y / 100 + y / 400 - 719468

theorem marchYearStart_le {y y' : Int} (h : y ≤ y') : marchYearStart y ≤ marchYearStart y' := by
  unfold marchYearStart
  omega

/-- The month of a day of that year, counted from March, and the date. -/
def dateOf (y doy : Int) : Int × Nat × Nat :=
  let mp := (5 * doy + 2) / 153
  let month := if mp < 10 then mp + 3 else mp - 9
  (y + (if month ≤ 2 then 1 else 0), month.toNat, (doy - (153 * mp + 2) / 5 + 1).toNat)

theorem civilFromDays_marchYear (days : Int) : ∃ y doy : Int, days = marchYearStart y + doy ∧
    0 ≤ doy ∧ doy ≤ 365 ∧ days < marchYearStart (y + 1) ∧ civilFromDays days = dateOf y doy := by
  obtain ⟨era, a, b, c, doy, ha₀, ha, hb₀, hb, hc₀, hc, hd₀, hd, hleap, hdays, heq⟩ :=
    civilFromDays_parts days
  have hfour : (100 * a + 4 * b + c + era * 400) / 4 = 100 * era + 25 * a + b := by omega
  have hhundred : (100 * a + 4 * b + c + era * 400) / 100 = 4 * era + a := by omega
  have hera : (100 * a + 4 * b + c + era * 400) / 400 = era := by omega
  refine ⟨100 * a + 4 * b + c + era * 400, doy, ?_, hd₀, hd, ?_, heq⟩
  · unfold marchYearStart
    omega
  · unfold marchYearStart
    by_cases hlong : doy = 365
    · obtain ⟨rfl, hlast⟩ := hleap hlong
      by_cases hb24 : b = 24
      · have := hlast hb24
        omega
      · omega
    · omega

/-- Dates are in the order of the days. -/
theorem civilFromDays_lt {days days' : Int} (h : days < days') :
    (civilFromDays days).1 < (civilFromDays days').1 ∨
      (civilFromDays days).1 = (civilFromDays days').1 ∧
        ((civilFromDays days).2.1 < (civilFromDays days').2.1 ∨
          (civilFromDays days).2.1 = (civilFromDays days').2.1 ∧
            (civilFromDays days).2.2 < (civilFromDays days').2.2) := by
  obtain ⟨y, doy, hdays, h₀, h₁, hlt, heq⟩ := civilFromDays_marchYear days
  obtain ⟨y', doy', hdays', h₀', h₁', hlt', heq'⟩ := civilFromDays_marchYear days'
  have hyear : y < y' ∨ y = y' ∧ doy < doy' := by
    rcases Int.lt_trichotomy y y' with hy | rfl | hy
    · exact .inl hy
    · exact .inr ⟨rfl, by omega⟩
    · have := marchYearStart_le (show y' + 1 ≤ y by omega)
      omega
  rw [heq, heq']
  unfold dateOf
  obtain ⟨mp, hmp⟩ : ∃ mp, mp = (5 * doy + 2) / 153 := ⟨_, rfl⟩
  obtain ⟨mp', hmp'⟩ : ∃ mp, mp = (5 * doy' + 2) / 153 := ⟨_, rfl⟩
  rw [← hmp, ← hmp']
  dsimp only
  split_ifs <;> omega

end Wire

import Mathlib.Data.List.Lex
import RagPipeline.Wire.TimestampText

/-!
# Instants as text in SQLite

With `_time_format=sqlite` the driver writes an instant in the layout
`2006-01-02 15:04:05.999999999-07:00`. The fraction ends where its last digit other than zero is,
so texts of different lengths are compared: `+` comes before `.`, and `.` before the digits.

## Main definitions

* `sqliteTime`: the text of an instant.
* `textBytes`: what SQLite compares.

## Main results

* `sqliteTime_lt`, `sqliteTime_inj`: with years of four digits the texts are in the order of the
  instants.
-/
namespace Wire

/-- `appendInt(b, year, 4)`. -/
def yearText (year : Int) : List Char :=
  if year < 0 then '-' :: (padded 4 year.natAbs).toList else (padded 4 year.natAbs).toList

/-- No fraction when it is zero, trailing zeros trimmed. -/
def fractionText (nanos : Nat) : List Char :=
  match trimmed (padded 9 nanos).toList with
  | [] => []
  | cs => '.' :: cs

/-- `t.UTC().Format("2006-01-02 15:04:05.999999999-07:00")`. -/
def sqliteTime (instant : Int) : List Char :=
  let second := instant / 10 ^ 9
  let date := civilFromDays (second / 86400)
  let s := (second % 86400).toNat
  yearText date.1 ++ '-' :: ((padded 2 date.2.1).toList ++ '-' :: ((padded 2 date.2.2).toList ++
    ' ' :: ((padded 2 (s / 3600)).toList ++ ':' :: ((padded 2 (s / 60 % 60)).toList ++
      ':' :: ((padded 2 (s % 60)).toList ++ (fractionText (instant % 10 ^ 9).toNat ++
        ['+', '0', '0', ':', '0', '0']))))))

/-- The encoding of a text of ASCII characters, one byte each. -/
def textBytes (cs : List Char) : List Nat := cs.map Char.toNat

example : String.ofList (sqliteTime 1791972000120000000) = "2026-10-14 10:00:00.12+00:00" := by
  decide +kernel

/-- The year has four digits. -/
def FourDigits (instant : Int) : Prop :=
  0 ≤ (civilFromDays (instant / 10 ^ 9 / 86400)).1 ∧
    (civilFromDays (instant / 10 ^ 9 / 86400)).1 ≤ 9999

instance (instant : Int) : Decidable (FourDigits instant) := inferInstanceAs (Decidable (_ ∧ _))

/-! ### Digits in order -/

section Digits

variable {u v r r' : List Char} {c d : Char} {w x y : Nat}

theorem digit_val (h : c.isDigit) : '0'.toNat ≤ c.toNat ∧ c.toNat ≤ '9'.toNat := by
  simp only [Char.isDigit, Bool.and_eq_true, decide_eq_true_eq, UInt32.le_iff_toNat_le] at h
  exact h

theorem ofDigitChars_cons' : Nat.ofDigitChars 10 (c :: u) 0 =
    10 ^ u.length * (c.toNat - '0'.toNat) + Nat.ofDigitChars 10 u 0 := by
  rw [Nat.ofDigitChars_cons, Nat.ofDigitChars_eq_ofDigitChars_zero, Nat.mul_zero, Nat.zero_add]

theorem ofDigitChars_lt (hu : ∀ c ∈ u, c.isDigit) : Nat.ofDigitChars 10 u 0 < 10 ^ u.length := by
  induction u with
  | nil => simp
  | cons c u ih =>
    have hc := digit_val (hu c (by simp))
    have hu := ih fun x hx => hu x (List.mem_cons_of_mem _ hx)
    have h9 : c.toNat - '0'.toNat ≤ 9 := by
      have : '9'.toNat = '0'.toNat + 9 := rfl
      omega
    rw [ofDigitChars_cons', List.length_cons, Nat.pow_succ]
    have := Nat.mul_le_mul_left (10 ^ u.length) h9
    omega

/-- Among digits of one length the smaller number comes first. -/
theorem lt_of_ofDigitChars_lt (hu : ∀ c ∈ u, c.isDigit) (hv : ∀ c ∈ v, c.isDigit)
    (hlen : u.length = v.length) (h : Nat.ofDigitChars 10 u 0 < Nat.ofDigitChars 10 v 0) :
    u < v := by
  induction u generalizing v with
  | nil =>
    rw [List.length_nil] at hlen
    rw [List.length_eq_zero_iff.1 hlen.symm] at h
    exact absurd h (Nat.lt_irrefl _)
  | cons c u ih =>
    cases v with
    | nil => cases hlen
    | cons d v =>
      have hlen' : u.length = v.length := by simpa using hlen
      have hu' : ∀ x ∈ u, x.isDigit := fun x hx => hu x (List.mem_cons_of_mem _ hx)
      have hv' : ∀ x ∈ v, x.isDigit := fun x hx => hv x (List.mem_cons_of_mem _ hx)
      rw [ofDigitChars_cons', ofDigitChars_cons', hlen'] at h
      have hc := digit_val (hu c (by simp))
      have hd := digit_val (hv d (by simp))
      rw [List.cons_lt_cons_iff]
      rcases Nat.lt_trichotomy c.toNat d.toNat with hlt | heq | hgt
      · exact .inl hlt
      · have hcd : c = d := Char.ext (UInt32.toNat_inj.1 heq)
        subst hcd
        exact .inr ⟨rfl, ih hu' hv' hlen' (by omega)⟩
      · -- A greater first digit outweighs all that follow.
        have hstep : d.toNat - '0'.toNat + 1 ≤ c.toNat - '0'.toNat := by omega
        have := Nat.mul_le_mul_left (10 ^ v.length) hstep
        have := ofDigitChars_lt hv'
        rw [Nat.mul_add, Nat.mul_one] at *
        omega

theorem padded_lt (hw : 0 < w) (hy : y < 10 ^ w) (h : x < y) :
    (padded w x).toList < (padded w y).toList := by
  refine lt_of_ofDigitChars_lt isDigit_padded isDigit_padded ?_ ?_
  · rw [length_padded hw (h.trans hy), length_padded hw hy]
  · rwa [ofDigitChars_padded, ofDigitChars_padded]

theorem append_lt_of_lt (h : u < v) (hlen : u.length = v.length) : u ++ r < v ++ r' := by
  induction u generalizing v with
  | nil =>
    rw [List.length_eq_zero_iff.1 hlen.symm] at h
    cases h
  | cons c u ih =>
    cases v with
    | nil => cases hlen
    | cons d v =>
      rw [List.cons_append, List.cons_append, List.cons_lt_cons_iff]
      rcases List.cons_lt_cons_iff.1 h with hlt | ⟨rfl, hlt⟩
      · exact .inl hlt
      · exact .inr ⟨rfl, ih hlt (by simpa using hlen)⟩

/-- A field of fixed width decides, or what follows it. -/
theorem padded_append_lt (hw : 0 < w) (hy : y < 10 ^ w) (h : x < y ∨ x = y ∧ r < r') :
    (padded w x).toList ++ r < (padded w y).toList ++ r' := by
  rcases h with hlt | ⟨rfl, hlt⟩
  · refine append_lt_of_lt (padded_lt hw hy hlt) ?_
    rw [length_padded hw (hlt.trans hy), length_padded hw hy]
  · exact List.append_left_lt hlt

theorem not_lt_zeros (hu : ∀ c ∈ u, c.isDigit) : ¬ u < List.replicate u.length '0' := by
  induction u with
  | nil => exact nofun
  | cons c u ih =>
    rw [List.length_cons, List.replicate_succ, List.cons_lt_cons_iff]
    rintro (hlt | ⟨rfl, hlt⟩)
    · exact absurd hlt (Nat.not_lt.2 (digit_val (hu c (by simp))).1)
    · exact ih (fun x hx => hu x (List.mem_cons_of_mem _ hx)) hlt

/-- Fractions are compared as if the zeros at the end were there: what follows a fraction comes
before every digit. -/
theorem fraction_lt {k l : Nat} (hu : ∀ c ∈ u, c.isDigit) (hv : ∀ c ∈ v, c.isDigit)
    (hlen : u.length + k = v.length + l)
    (h : u ++ List.replicate k '0' < v ++ List.replicate l '0') :
    u ++ '+' :: r < v ++ '+' :: r := by
  induction u generalizing v with
  | nil =>
    cases v with
    | nil =>
      obtain rfl : k = l := by simpa using hlen
      exact absurd h (List.lt_irrefl _)
    | cons d v =>
      refine List.cons_lt_cons_iff.2 (.inl ?_)
      exact Nat.lt_of_lt_of_le (by decide : '+'.toNat < '0'.toNat) (digit_val (hv d (by simp))).1
  | cons c u ih =>
    cases v with
    | nil =>
      have hdigits : ∀ x ∈ c :: u ++ List.replicate k '0', x.isDigit := by
        intro x hx
        rcases List.mem_append.1 hx with hx | hx
        · exact hu x hx
        · rw [List.eq_of_mem_replicate hx]
          decide
      have hzeros : (c :: u ++ List.replicate k '0').length = l := by
        simpa [Nat.add_right_comm] using hlen
      rw [List.nil_append, ← hzeros] at h
      exact absurd h (not_lt_zeros hdigits)
    | cons d v =>
      rw [List.cons_append, List.cons_append, List.cons_lt_cons_iff] at h ⊢
      rcases h with hlt | ⟨rfl, hlt⟩
      · exact .inl hlt
      · refine .inr ⟨rfl, ih (fun x hx => hu x (List.mem_cons_of_mem _ hx))
          (fun x hx => hv x (List.mem_cons_of_mem _ hx)) ?_ hlt⟩
        simp only [List.length_cons] at hlen
        omega

theorem isDigit_trimmed {n : Nat} : ∀ c ∈ trimmed (padded 9 n).toList, c.isDigit := by
  intro c hc
  obtain ⟨k, hk⟩ := eq_trimmed_append (padded 9 n).toList
  exact isDigit_padded (w := 9) (n := n) c (hk ▸ List.mem_append_left _ hc)

theorem fractionText_lt {m n : Nat} (hn : n < 10 ^ 9) (h : m < n) :
    fractionText m ++ '+' :: r < fractionText n ++ '+' :: r := by
  obtain ⟨k, hk⟩ := eq_trimmed_append (padded 9 m).toList
  obtain ⟨l, hl⟩ := eq_trimmed_append (padded 9 n).toList
  have hlt := padded_lt (w := 9) (by omega) hn h
  have hlen := congrArg List.length hk
  have hlen' := congrArg List.length hl
  rw [length_padded (by omega) (h.trans hn), List.length_append, List.length_replicate] at hlen
  rw [length_padded (by omega) hn, List.length_append, List.length_replicate] at hlen'
  rw [hk, hl] at hlt
  have hdigits := fraction_lt (r := r) isDigit_trimmed isDigit_trimmed (by omega) hlt
  unfold fractionText
  cases hm : trimmed (padded 9 m).toList with
  | nil =>
    cases hn : trimmed (padded 9 n).toList with
    | nil =>
      rw [hm, hn] at hdigits
      exact absurd hdigits (List.lt_irrefl _)
    | cons d v => exact List.cons_lt_cons_iff.2 (.inl (by decide))
  | cons c u =>
    cases hn : trimmed (padded 9 n).toList with
    | nil =>
      rw [hm, hn] at hdigits
      have hc := digit_val (isDigit_trimmed (n := m) c (by simp [hm]))
      rcases List.cons_lt_cons_iff.1 hdigits with hlt | ⟨rfl, -⟩
      · have : '+'.toNat < '0'.toNat := by decide
        exact absurd (Nat.lt_trans (show c.toNat < '+'.toNat from hlt) this) (Nat.not_lt.2 hc.1)
      · exact absurd hc.1 (by decide)
    | cons d v =>
      rw [hm, hn] at hdigits
      exact List.cons_lt_cons_iff.2 (.inr ⟨rfl, hdigits⟩)

end Digits

/-! ### Instants in order -/

section Instants

variable {a b : Int}

theorem yearText_of_nonneg {year : Int} (h : 0 ≤ year) :
    yearText year = (padded 4 year.natAbs).toList := by
  rw [yearText, if_neg (by omega)]

/-- The fields before the fraction, the second of the day in three of them. -/
def stamp (year month day s : Nat) (r : List Char) : List Char :=
  (padded 4 year).toList ++ '-' :: ((padded 2 month).toList ++ '-' :: ((padded 2 day).toList ++
    ' ' :: ((padded 2 (s / 3600)).toList ++ ':' :: ((padded 2 (s / 60 % 60)).toList ++
      ':' :: ((padded 2 (s % 60)).toList ++ r)))))

theorem stamp_lt {year year' month month' day day' s s' : Nat} {r r' : List Char}
    (hy : year' < 10000) (hm : month' < 100) (hd : day' < 100) (hs : s' < 86400)
    (h : year < year' ∨ year = year' ∧ (month < month' ∨ month = month' ∧
      (day < day' ∨ day = day' ∧ (s < s' ∨ s = s' ∧ r < r')))) :
    stamp year month day s r < stamp year' month' day' s' r' := by
  have hclock : s < s' ∨ s = s' ∧ r < r' → s / 3600 < s' / 3600 ∨ s / 3600 = s' / 3600 ∧
      (s / 60 % 60 < s' / 60 % 60 ∨ s / 60 % 60 = s' / 60 % 60 ∧
        (s % 60 < s' % 60 ∨ s % 60 = s' % 60 ∧ r < r')) := by
    rintro (hlt | ⟨rfl, hlt⟩)
    · have : s / 3600 < s' / 3600 ∨ s / 3600 = s' / 3600 ∧ (s / 60 % 60 < s' / 60 % 60 ∨
          s / 60 % 60 = s' / 60 % 60 ∧ s % 60 < s' % 60) := by omega
      rcases this with h | ⟨h, h' | ⟨h', h''⟩⟩
      · exact .inl h
      · exact .inr ⟨h, .inl h'⟩
      · exact .inr ⟨h, .inr ⟨h', .inl h''⟩⟩
    · exact .inr ⟨rfl, .inr ⟨rfl, .inr ⟨rfl, hlt⟩⟩⟩
  unfold stamp
  refine padded_append_lt (by omega) (by omega) (h.imp_right (And.imp_right fun h => ?_))
  refine List.cons_lt_cons_self.2 (padded_append_lt (by omega) (by omega)
    (h.imp_right (And.imp_right fun h => ?_)))
  refine List.cons_lt_cons_self.2 (padded_append_lt (by omega) (by omega)
    (h.imp_right (And.imp_right fun h => ?_)))
  refine List.cons_lt_cons_self.2 (padded_append_lt (by omega) (by omega)
    ((hclock h).imp_right (And.imp_right fun h => ?_)))
  refine List.cons_lt_cons_self.2 (padded_append_lt (by omega) (by omega)
    (h.imp_right (And.imp_right fun h => ?_)))
  exact List.cons_lt_cons_self.2 (padded_append_lt (by omega) (by omega) h)

/-- The text of a later instant is greater. -/
theorem sqliteTime_mono (ha : FourDigits a) (hb : FourDigits b) (h : a < b) :
    sqliteTime a < sqliteTime b := by
  obtain ⟨hya, -⟩ := ha
  obtain ⟨hyb, hyb'⟩ := hb
  have hdate := @civilFromDays_lt (a / 10 ^ 9 / 86400) (b / 10 ^ 9 / 86400)
  obtain ⟨-, hmonth, -, hday⟩ := civilFromDays_valid hyb
  have hdays := daysInMonth_le (civilFromDays (b / 10 ^ 9 / 86400)).1.toNat
    (civilFromDays (b / 10 ^ 9 / 86400)).2.1
  unfold sqliteTime
  dsimp only
  rw [yearText_of_nonneg hya, yearText_of_nonneg hyb]
  refine stamp_lt (by omega) (by omega) (by omega) (by omega) ?_
  rcases Int.lt_trichotomy (a / 10 ^ 9 / 86400) (b / 10 ^ 9 / 86400) with hlt | heq | hgt
  · rcases hdate hlt with hy | ⟨hy, hm | ⟨hm, hd⟩⟩
    · exact .inl (by omega)
    · exact .inr ⟨by rw [hy], .inl hm⟩
    · exact .inr ⟨by rw [hy], .inr ⟨hm, .inl hd⟩⟩
  · rw [heq]
    refine .inr ⟨rfl, .inr ⟨rfl, .inr ⟨rfl, ?_⟩⟩⟩
    rcases Int.lt_trichotomy (a / 10 ^ 9) (b / 10 ^ 9) with hs | hs | hs
    · exact .inl (by omega)
    · exact .inr ⟨by rw [hs], fractionText_lt (by omega) (by omega)⟩
    · omega
  · omega

/-- Bytes are compared like characters. -/
theorem textBytes_lt {s t : List Char} (h : s < t) : textBytes s < textBytes t :=
  List.map_lt (fun _ _ h => h) h

theorem sqliteTime_lt (ha : FourDigits a) (hb : FourDigits b) :
    textBytes (sqliteTime a) < textBytes (sqliteTime b) ↔ a < b := by
  refine ⟨fun h => ?_, fun h => textBytes_lt (sqliteTime_mono ha hb h)⟩
  rcases Int.lt_trichotomy a b with hlt | rfl | hgt
  · exact hlt
  · exact absurd h (List.lt_irrefl _)
  · exact absurd h (List.lt_asymm (textBytes_lt (sqliteTime_mono hb ha hgt)))

theorem sqliteTime_inj (ha : FourDigits a) (hb : FourDigits b) :
    textBytes (sqliteTime a) = textBytes (sqliteTime b) ↔ a = b := by
  refine ⟨fun h => ?_, fun h => by rw [h]⟩
  rcases Int.lt_trichotomy a b with hlt | heq | hgt
  · have hlt := (sqliteTime_lt ha hb).2 hlt
    exact absurd (h ▸ hlt) (List.lt_irrefl _)
  · exact heq
  · have hgt := (sqliteTime_lt hb ha).2 hgt
    exact absurd (h ▸ hgt) (List.lt_irrefl _)

end Instants

end Wire

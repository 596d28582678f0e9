import RagPipeline.Wire.Json
import Mathlib.Algebra.Order.Ring.Abs
import Mathlib.Tactic.Linarith
import Mathlib.Tactic.Ring
import Mathlib.Tactic.NormNum

/-!
# Which numbers a 64-bit float takes for an integer

A literal is read as an integer when an integer is its nearest float. Among numbers this small
integers are even multiples of the unit in the last place, so a literal half-way between two
floats goes to the integer as well.

## Main definitions

* `ulp`: the distance of neighbouring floats around a number.
* `RoundsTo`: within half of it.

## Main results

* `float64_eq_intCast`: the nearest float is that integer just when the number rounds to it.
* `RoundsTo.eq_of_int`: no integer is taken for another.
-/
namespace Wire

/-- The unit in the last place. -/
def ulp (q : ℚ) : ℚ := 2 ^ (max (Int.log 2 |q|) (-1022) - 52)

/-- The number is at most half a unit in its last place away from the integer. -/
def RoundsTo (q : ℚ) (n : Int) : Prop := |q - n| ≤ ulp q / 2

section RoundHalfEven

variable {q : ℚ} {m : Int}

theorem abs_sub_roundHalfEven_le (q : ℚ) : |q - roundHalfEven q| ≤ 1 / 2 := by
  have h₀ := Int.floor_le q
  have h₁ := Int.lt_floor_add_one q
  unfold roundHalfEven
  dsimp only
  split_ifs with h
  · rw [abs_le]
    constructor
    · linarith
    · obtain h | ⟨h, -⟩ := h <;> linarith
  · have hge : 1 / 2 ≤ q - ⌊q⌋ := not_lt.1 fun hlt => h (.inl hlt)
    push_cast
    rw [abs_le]
    constructor <;> linarith

/-- An even integer attracts both of the numbers half-way to its neighbours. -/
theorem roundHalfEven_eq_of_even (hm : Even m) (h : |q - m| ≤ 1 / 2) : roundHalfEven q = m := by
  obtain ⟨hl, hu⟩ := abs_le.1 h
  have h₀ := Int.floor_le q
  have h₁ := Int.lt_floor_add_one q
  have hcases : ⌊q⌋ = m ∨ ⌊q⌋ = m - 1 := by
    have hlt : (⌊q⌋ : ℚ) < m + 1 := by linarith
    have hgt : (m : ℚ) - 2 < ⌊q⌋ := by linarith
    have hlt' : ⌊q⌋ < m + 1 := by exact_mod_cast hlt
    have hgt' : m - 2 < ⌊q⌋ := by exact_mod_cast hgt
    omega
  unfold roundHalfEven
  obtain ⟨k, hk⟩ := hm
  obtain hf | hf := hcases
  · rw [hf, if_pos]
    have hle : q - m ≤ 1 / 2 := hu
    rcases lt_or_eq_of_le hle with hlt | heq
    · exact .inl hlt
    · exact .inr ⟨heq, by omega⟩
  · have hge : 1 / 2 ≤ q - ((m - 1 : Int) : ℚ) := by
      push_cast
      linarith
    rw [hf, if_neg]
    · omega
    · rintro (hlt | ⟨-, heven⟩)
      · linarith
      · omega

end RoundHalfEven

section Float

variable {q : ℚ} {n m : Int}

theorem ulp_pos (q : ℚ) : 0 < ulp q := zpow_pos two_pos _

theorem le_ulp {k : Int} (h : 2 ^ k ≤ |q|) : 2 ^ (k - 52) ≤ ulp q := by
  have hpos : 0 < |q| := lt_of_lt_of_le (zpow_pos two_pos k) h
  have hlog : k ≤ Int.log 2 |q| :=
    (Int.zpow_le_iff_le_log Nat.one_lt_two hpos).1 (by exact_mod_cast h)
  exact zpow_le_zpow_right₀ one_le_two (by omega)

theorem float64_eq (q : ℚ) :
    float64 q = if |roundHalfEven (q / ulp q) * ulp q| < 2 ^ (1024 : Nat) then
      some (roundHalfEven (q / ulp q) * ulp q) else none := rfl

/-- A number within half a unit of a small integer is small itself. -/
theorem RoundsTo.log_lt (h : RoundsTo q n) (hn : n.natAbs < 2 ^ 51) : Int.log 2 |q| < 52 := by
  by_contra hlog
  rw [not_lt] at hlog
  have hq : q ≠ 0 := by
    rintro rfl
    simp at hlog
  have hpos : 0 < |q| := abs_pos.2 hq
  have hulp : ulp q = 2 ^ (Int.log 2 |q|) * 2 ^ (-52 : Int) := by
    rw [ulp, max_eq_left (by omega), sub_eq_add_neg, zpow_add₀ two_ne_zero]
  have hle : (2 : ℚ) ^ Int.log 2 |q| ≤ |q| := by
    exact_mod_cast Int.zpow_log_le_self Nat.one_lt_two hpos
  have hbig : (2 : ℚ) ^ (52 : Int) ≤ |q| := (zpow_le_zpow_right₀ one_le_two hlog).trans hle
  have hnear : |q| - |(n : ℚ)| ≤ ulp q / 2 := (abs_sub_abs_le_abs_sub q n).trans h
  have hsmall : |(n : ℚ)| < 2 ^ 51 := by
    have : |(n : ℚ)| = (n.natAbs : ℚ) := by rw [Nat.cast_natAbs, Int.cast_abs]
    rw [this]
    exact_mod_cast hn
  rw [hulp] at hnear
  norm_num at hbig hnear hsmall
  linarith

theorem RoundsTo.exists_ulp (h : RoundsTo q n) (hn : n.natAbs < 2 ^ 51) :
    ∃ k : Nat, ulp q = 2 ^ (-(k + 1 : Int)) := by
  have hlog := h.log_lt hn
  have hneg : 0 ≤ -(max (Int.log 2 |q|) (-1022) - 52) - 1 := by omega
  obtain ⟨k, hk⟩ := Int.eq_ofNat_of_zero_le hneg
  refine ⟨k, ?_⟩
  rw [ulp]
  congr 1
  omega

theorem float64_eq_intCast (hn : n.natAbs < 2 ^ 51) : float64 q = some (n : ℚ) ↔ RoundsTo q n := by
  have hu := ulp_pos q
  constructor
  · intro h
    rw [float64_eq] at h
    split_ifs at h
    have hf : (roundHalfEven (q / ulp q) : ℚ) * ulp q = n := Option.some.inj h
    have hnear := abs_sub_roundHalfEven_le (q / ulp q)
    have hmul : q - n = (q / ulp q - roundHalfEven (q / ulp q)) * ulp q := by
      rw [sub_mul, hf, div_mul_cancel₀ _ hu.ne']
    rw [RoundsTo, hmul, abs_mul, abs_of_pos hu]
    nlinarith
  · intro h
    obtain ⟨k, hk⟩ := h.exists_ulp hn
    have hdiv : (n : ℚ) / ulp q = ((n * 2 ^ k * 2 : Int) : ℚ) := by
      rw [hk, zpow_neg, div_inv_eq_mul, zpow_add_one₀ two_ne_zero, zpow_natCast]
      push_cast
      ring
    have hround : roundHalfEven (q / ulp q) = n * 2 ^ k * 2 := by
      refine roundHalfEven_eq_of_even ⟨n * 2 ^ k, by ring⟩ ?_
      rw [← hdiv, ← sub_div, abs_div, abs_of_pos hu, div_le_iff₀ hu]
      linarith [show |q - n| ≤ ulp q / 2 from h]
    have hback : ((n * 2 ^ k * 2 : Int) : ℚ) * ulp q = n := by
      rw [← hdiv, div_mul_cancel₀ _ hu.ne']
    have hlt : |(n : ℚ)| < 2 ^ 1024 := by
      have : |(n : ℚ)| = (n.natAbs : ℚ) := by rw [Nat.cast_natAbs, Int.cast_abs]
      rw [this]
      exact_mod_cast hn.trans (Nat.pow_lt_pow_right (by omega) (by omega))
    rw [float64_eq, hround, hback, if_pos hlt]

/-- An integer rounds to no other. -/
theorem RoundsTo.eq_of_int (h : RoundsTo m n) (hn : n.natAbs < 2 ^ 51) : m = n := by
  obtain ⟨k, hk⟩ := h.exists_ulp hn
  have hle : ulp m ≤ 1 := by
    rw [hk]
    exact zpow_le_one_of_nonpos₀ one_le_two (by omega)
  have hlt : |((m - n : Int) : ℚ)| < 1 := by
    push_cast
    exact lt_of_le_of_lt h (by linarith)
  have : |m - n| < 1 := by exact_mod_cast hlt
  have := Int.abs_lt_one_iff.1 this
  omega

theorem RoundsTo.refl (n : Int) : RoundsTo n n := by
  have := (ulp_pos (n : ℚ)).le
  simp only [RoundsTo, sub_self, abs_zero]
  linarith

end Float

end Wire

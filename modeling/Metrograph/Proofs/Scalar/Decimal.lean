/-
A decimal numeral becomes the binary64 number nearest to it.

Short numerals are divided as numbers: their digits and the power of ten
are both held exactly, so the one rounding is that of the quotient. All
others are divided as whole numbers. There a power of ten has more than 53
digits, but the division only asks that the quotient has enough of them
(`quotient_room`), not that the divisor fits. Numerals that are too small
to be told from zero are not divided at all, and zero is what they would
have been rounded to (`nearest_eq_zero`).
-/
import Metrograph.Proofs.Scalar.Exact
import Metrograph.Proofs.Scalar.Rounding

namespace Metrograph.Binary64

open Float.Model (UnpackedFloat)
open Float.Model.Format (binary64)
open Float.Model.UnpackedFloat (Sign divCore)
open Scalar (nearestEven_eq)

-- ================================================================ zero

/-- Half of the smallest number there is, or less, is rounded to zero. -/
theorem nearest_eq_zero {q : ℚ} (nonneg : 0 ≤ q) (small : q ≤ 2 ^ (-1076 : ℤ)) : nearest q = 0 := by
  have size : |q| = q := abs_of_nonneg nonneg
  have near : |q| < 2 ^ ((-1074 : ℤ) + 53) := by
    rw [size]
    exact small.trans_lt (zpow_lt_zpow_right₀ one_lt_two (by norm_num))
  have quarter : q / 2 ^ (-1074 : ℤ) ≤ 1 / 4 := by
    rw [div_le_iff₀ (two_zpow_pos _)]
    have place : (-1076 : ℤ) = -2 + -1074 := by norm_num
    rw [place, zpow_add₀ two_ne_zero] at small
    refine small.trans_eq (congrArg (· * _) ?_)
    norm_num
  have share : 0 ≤ q / 2 ^ (-1074 : ℤ) := div_nonneg nonneg (two_zpow_pos _).le
  have floor : ⌊q / 2 ^ (-1074 : ℤ)⌋ = 0 := Int.floor_eq_zero_iff.mpr ⟨share, by linarith⟩
  have none : rounded q = 0 := by
    rw [rounded_eq le_rfl near (Or.inl rfl), nearestEven_eq, Int.fract, floor, Int.cast_zero,
      sub_zero, if_pos (by linarith), Int.cast_zero, zero_mul]
  have inside : |rounded q| ≤ limit := by
    rw [none]
    exact abs_zero_lt_limit.le
  rw [nearest_eq_rounded inside, none]

/-- A numeral with too many decimal places is zero. -/
theorem nearest_div_eq_zero {m p : ℚ} (nonneg : 0 ≤ m) (positive : 0 < p)
    (small : m * 2 ^ 1076 ≤ p) : nearest (m / p) = 0 := by
  refine nearest_eq_zero (div_nonneg nonneg positive.le) ?_
  rw [div_le_iff₀ positive, zpow_neg, ← div_eq_inv_mul, le_div_iff₀ (two_zpow_pos _)]
  exact small

/-- A whole number over a power of ten with far more digits is next to zero. -/
theorem nearest_over_power {m k : ℕ} (far : 2 ^ 11 + m.log2 < k) :
    nearest ((m : ℚ) / 10 ^ k) = 0 := by
  have digits : (m : ℚ) ≤ 2 ^ (m.log2 + 1) := by exact_mod_cast Nat.lt_log2_self.le
  refine nearest_div_eq_zero (Nat.cast_nonneg m) (pow_pos (by norm_num) k) ?_
  calc (m : ℚ) * 2 ^ 1076
      ≤ 2 ^ (m.log2 + 1) * 2 ^ 1076 := mul_le_mul_of_nonneg_right digits (pow_pos two_pos 1076).le
    _ = 2 ^ (m.log2 + 1 + 1076) := (pow_add _ _ _).symm
    _ ≤ 2 ^ k := pow_le_pow_right₀ one_le_two (by omega)
    _ ≤ 10 ^ k := pow_le_pow_left₀ two_pos.le (by norm_num) k

-- ============================================================= numerals

/-- The powers of ten that are kept at hand. -/
theorem hasValue_powersOfTen {k : ℕ} (h : k < Float.exactlyRepresentablePowersOfTen.size) :
    HasValue Float.exactlyRepresentablePowersOfTen[k] (10 ^ k) := by
  have each : ∀ k : Fin 23, Float.exactlyRepresentablePowersOfTen[k].isNaN = false
      ∧ Scalar.value Float.exactlyRepresentablePowersOfTen[k] = 10 ^ (k : ℕ) := by decide +kernel
  obtain ⟨defined, same⟩ := each ⟨k, h⟩
  exact ⟨defined, same⟩

/-- The division that a numeral with a fraction stands for, unless it is next
to zero. -/
theorem ofScientific_eq {m k : ℕ} (positive : 0 < m) (some : k ≠ 0) :
    UnpackedFloat.ofScientific binary64 m (Int.negOfNat k) =
      if 2 ^ 11 + m.log2 < k then .zero .positive
      else UnpackedFloat.div binary64 (.finite .positive m 0 positive)
        (.finite .positive (10 ^ k) 0 (Nat.pow_pos (Nat.succ_pos 9))) := by
  have minus : Int.negOfNat k = -(k : ℤ) := Int.negOfNat_eq
  have narrow : ¬ Int.negOfNat k > 2 ^ binary64.exponentBits := by
    show ¬ Int.negOfNat k > 2 ^ 11
    omega
  have wide : Int.negOfNat k < -(2 ^ binary64.exponentBits + m.log2) ↔ 2 ^ 11 + m.log2 < k := by
    show Int.negOfNat k < -(2 ^ 11 + m.log2) ↔ _
    omega
  have places : (-Int.negOfNat k).toNat = k := by omega
  unfold UnpackedFloat.ofScientific
  rw [dif_neg positive.ne', if_neg narrow]
  refine if_congr wide rfl ?_
  rw [if_neg (by omega)]
  exact congrArg _ (finite_congr _ _ (congrArg _ places) rfl)

/-- The division of whole numbers is rounded as every quotient is. -/
theorem roundsTo_div_power {m : ℕ} (positive : 0 < m) (k : ℕ) :
    RoundsTo (UnpackedFloat.div binary64 (.finite .positive m 0 positive)
      (.finite .positive (10 ^ k) 0 (Nat.pow_pos (Nat.succ_pos 9)))) (m / 10 ^ k) := by
  have power : 0 < 10 ^ k := Nat.pow_pos (Nat.succ_pos 9)
  have rounds := roundsTo_roundWithAccuracy (.positive / .positive)
    (truncates_quotient (m * 2 ^ (0 - 0 - quotientPlace m 0 (10 ^ k) 0).toNat) power)
    (quotient_room positive power 0 0)
  have sign : (((Sign.positive / Sign.positive).apply 1 : ℤ) : ℚ) = 1 := by
    rw [apply_div_sign]
    norm_num [Sign.apply]
  rw [quotient_value m 0 power 0, sign, one_mul, zpow_zero, mul_one, mul_one, Nat.cast_pow,
    Nat.cast_ofNat] at rounds
  rw [div_finite, divCore_eq]
  exact rounds

theorem power_lt_limit {k : ℕ} (few : k ≤ 22) : |(10 : ℚ) ^ k| < limit := by
  have power : (10 : ℚ) ^ k ≤ 10 ^ 22 := pow_le_pow_right₀ (by norm_num) few
  have short : (10 : ℚ) ^ 22 ≤ 2 ^ (88 : ℤ) := by norm_num
  have inside : (2 : ℚ) ^ (88 : ℤ) < limit := two_zpow_lt_limit_iff.mpr (by decide)
  rw [abs_of_pos (pow_pos (by norm_num) k)]
  exact (power.trans short).trans_lt inside

/-- Over the rationals a numeral is what it is read as. -/
theorem exact_ofDecimal (digits places : ℕ) :
    (Scalar.ofDecimal digits places : ℚ) = digits / 10 ^ places := by
  show mkRat digits (10 ^ places) = _
  rw [Rat.mkRat_eq_div]
  push_cast
  rfl

/-- A numeral becomes the number nearest to what it spells. -/
theorem hasValue_ofDecimal (digits places : ℕ) :
    HasValue (Scalar.ofDecimal digits places) (nearest (Scalar.ofDecimal digits places)) := by
  rw [exact_ofDecimal]
  show HasValue (Float.ofScientific digits true places) _
  by_cases short : digits < 2 ^ 53 ∧ places ≤ 22
  · have stored : places < Float.exactlyRepresentablePowersOfTen.size := Nat.lt_succ_of_le short.2
    have dividend := hasValue_toFloat (n := digits) (by omega)
    have held := abs_natCast_le short.1.le
    have whole : nearest digits = digits := nearest_intCast held
    rw [whole] at dividend
    unfold Float.ofScientific
    rw [dif_pos short, if_pos rfl]
    exact dividend.div (hasValue_powersOfTen stored) (abs_intCast_lt_limit held)
      (power_lt_limit short.2) (pow_ne_zero _ (by norm_num))
  have slow : Float.ofScientific digits true places
      = .ofModel (.pack (UnpackedFloat.ofScientific binary64 digits (Int.negOfNat places))) := by
    unfold Float.ofScientific
    rw [dif_neg short]
    rfl
  rcases Nat.eq_zero_or_pos digits with rfl | positive
  · rw [slow, Nat.cast_zero, zero_div]
    exact HasValue.ofRounded (roundsTo_zero .positive)
  by_cases whole : places = 0
  · subst whole
    have same : Float.ofScientific digits true 0 = Float.ofScientific digits false 0 := by
      unfold Float.ofScientific
      rw [dif_neg short, dif_neg short]
      rfl
    rw [same, pow_zero, div_one]
    exact hasValue_ofNat digits
  rw [slow, ofScientific_eq positive whole]
  by_cases far : 2 ^ 11 + digits.log2 < places
  · rw [if_pos far, nearest_over_power far, ← nearest_zero]
    exact HasValue.ofRounded (roundsTo_zero .positive)
  · rw [if_neg far]
    exact HasValue.ofRounded (roundsTo_div_power positive places)

end Metrograph.Binary64

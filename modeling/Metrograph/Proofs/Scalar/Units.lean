/-
One unit in the last place of a binary64 number, and what it decides.

A number is a whole number of units in its last place
(`Kept.exists_digits`), and the next number is one unit further on. So a
summand of a unit moves a number on (`lt_nearest_add_unit`), and one of
less than half a unit is rounded away (`nearest_add_eq_self`). The units
of the largest numbers are larger than any count, so that no count carries
a number out of range (`nearest_add_lt_limit`).
-/
import Metrograph.Proofs.Scalar.Counting

namespace Metrograph

namespace Binary64

open Scalar (nearestEven nearestEven_add)

-- ========================================================== powers of two

theorem two_mul_two_zpow (t : ℤ) : (2 : ℚ) * 2 ^ t = 2 ^ (t + 1) := by
  rw [zpow_add_one₀ two_ne_zero, mul_comm]

theorem two_pow_mul_two_zpow (n : ℕ) (t : ℤ) : (2 : ℚ) ^ n * 2 ^ t = 2 ^ (t + n) := by
  rw [add_comm, zpow_add₀ two_ne_zero, zpow_natCast]

/-- The limit is the next power of two behind the largest one in range. -/
theorem limit_eq_double : limit = 2 * 2 ^ (1023 : ℤ) := by
  unfold limit
  rw [two_mul_two_zpow]
  rfl

-- ================================================================= units

/-- A number of 53 digits is a whole number of units in its last place. -/
theorem Kept.exists_digits {x : ℚ} (h : Kept x) :
    ∃ n : ℤ, |n| < 2 ^ 53 ∧ x = n * 2 ^ lastPlace x := by
  have whole : x = nearestEven (x / 2 ^ lastPlace x) * 2 ^ lastPlace x := (rounded_eq_self h).symm
  have short := abs_lt_of_lastPlace x
  have unit := two_zpow_pos (lastPlace x)
  generalize nearestEven (x / 2 ^ lastPlace x) = n at whole
  refine ⟨n, ?_, whole⟩
  generalize lastPlace x = t at whole short unit
  rw [whole, abs_mul, abs_of_pos unit, add_comm, zpow_add₀ two_ne_zero] at short
  exact_mod_cast lt_of_mul_lt_mul_right short unit.le

/-- The smallest positive number of 53 digits. -/
theorem Kept.smallest_le {x : ℚ} (h : Kept x) (positive : 0 < x) : 2 ^ (-1074 : ℤ) ≤ x := by
  obtain ⟨n, rfl⟩ := h.whole
  have unit := two_zpow_pos (-1074)
  have some_units : (1 : ℚ) ≤ n := by
    have := pos_of_mul_pos_left positive unit.le
    exact_mod_cast this
  exact le_mul_of_one_le_left unit.le some_units

variable {x y : ℚ}

/-- Twice a kept number is kept. -/
theorem Kept.double {x : ℚ} (h : Kept x) : Kept (2 * x) := by
  obtain ⟨n, e, digits, least, rfl⟩ := h
  refine ⟨n, e + 1, digits, by omega, ?_⟩
  rw [← two_mul_two_zpow]
  ring

/-- Less than half a unit in the last place of a number is rounded away. -/
theorem nearest_add_eq_self (h : Kept x) (positive : 0 < x) (inside : x ≤ limit) (nonneg : 0 ≤ y)
    (small : 2 * y < 2 ^ lastPlace x) : nearest (x + y) = x := by
  have full := le_abs_of_lastPlace positive.ne'
  have least := le_lastPlace x
  obtain ⟨n, digits, whole⟩ := h.exists_digits
  have unit := two_zpow_pos (lastPlace x)
  rw [abs_of_pos positive] at full
  generalize lastPlace x = t at whole full least unit small
  have high : |x + y| < 2 ^ (t + 53) := by
    have next : (n : ℚ) + 1 ≤ 2 ^ 53 := by
      exact_mod_cast Int.add_one_le_of_lt ((le_abs_self n).trans_lt digits)
    rw [abs_of_pos (add_pos_of_pos_of_nonneg positive nonneg), add_comm t, zpow_add₀ two_ne_zero]
    calc x + y < n * 2 ^ t + 2 ^ t := by linarith
      _ = (n + 1) * 2 ^ t := by ring
      _ ≤ 2 ^ (53 : ℤ) * 2 ^ t := mul_le_mul_of_nonneg_right (by exact_mod_cast next) unit.le
  have low : t = -1074 ∨ 2 ^ (t + 52) ≤ |x + y| :=
    full.imp id fun le => le.trans ((le_add_of_nonneg_right nonneg).trans (le_abs_self _))
  have parts : (x + y) / 2 ^ t = n + y / 2 ^ t := by
    rw [whole, add_div, mul_div_cancel_right₀ _ unit.ne']
  have share : y / 2 ^ t < 1 / 2 := by
    rw [div_lt_iff₀ unit]
    linarith
  have same : rounded (x + y) = x := by
    rw [rounded_eq least high low, parts, nearestEven_add (div_nonneg nonneg unit.le) share,
      ← whole]
  rw [nearest_eq_rounded, same]
  rwa [same, abs_of_pos positive]

/-- A unit in the last place of a number moves it on. -/
theorem lt_nearest_add_unit (h : Kept x) (nonneg : 0 ≤ x) (finite : x < limit)
    (large : 2 ^ lastPlace x ≤ y) : x < nearest (x + y) := by
  by_cases beyond : limit ≤ x + y
  · rwa [nearest_of_limit_le beyond]
  have least := le_lastPlace x
  obtain ⟨n, digits, whole⟩ := h.exists_digits
  have unit := two_zpow_pos (lastPlace x)
  generalize lastPlace x = t at whole least unit large
  have sign : 0 ≤ n := by
    rw [whole] at nonneg
    exact_mod_cast nonneg_of_mul_nonneg_left nonneg unit
  have next : ((n + 1 : ℤ) : ℚ) * 2 ^ t = x + 2 ^ t := by
    rw [whole]
    push_cast
    ring
  have kept : Kept (x + 2 ^ t) := by
    rw [← next]
    refine kept_of_le ?_ least
    rw [abs_of_nonneg (by omega)]
    exact (le_abs_self n).trans_lt digits
  have inside : |x + 2 ^ t| ≤ limit := by
    rw [abs_of_nonneg (add_nonneg nonneg unit.le)]
    linarith
  exact (lt_add_of_pos_right x unit).trans_le (le_nearest kept inside (by linarith))

/-- Whole numbers up to `2 ^ 53` carry no number out of range. -/
theorem nearest_add_lt_limit (h : Kept x) (finite : x < limit) (from_zero : 0 ≤ y)
    (small : y ≤ 2 ^ 53) : nearest (x + y) < limit := by
  rcases le_or_gt (2 ^ (1023 : ℤ)) x with large | less
  · have positive := (two_zpow_pos _).trans_le large
    have place : 971 ≤ lastPlace x := by
      have low := (Int.zpow_le_iff_le_log one_lt_two positive).mp large
      unfold lastPlace
      rw [abs_of_pos positive]
      omega
    have wide : (2 : ℚ) * 2 ^ 53 < 2 ^ lastPlace x := by
      have sum : (2 : ℚ) * 2 ^ 53 = 2 ^ (54 : ℤ) := by norm_num
      rw [sum]
      exact zpow_lt_zpow_right₀ one_lt_two (by omega)
    rwa [nearest_add_eq_self h positive finite.le from_zero (by linarith)]
  · have room : (2 : ℚ) ^ 53 ≤ 2 ^ (1022 : ℤ) := by
      rw [← zpow_natCast]
      exact zpow_le_zpow_right₀ one_le_two (by norm_num)
    have kept : Kept (3 * 2 ^ (1022 : ℤ)) := by
      have three := kept_of_le (m := 3) (e := 1022) (by norm_num) (by norm_num)
      rwa [Int.cast_ofNat] at three
    have unit := two_zpow_pos 1022
    have double : (2 : ℚ) * 2 ^ (1022 : ℤ) = 2 ^ (1023 : ℤ) := two_mul_two_zpow 1022
    rw [← double] at less
    have inside : 3 * 2 ^ (1022 : ℤ) < limit := by
      rw [limit_eq_double, ← double]
      generalize (2 : ℚ) ^ (1022 : ℤ) = u at unit
      linarith
    generalize (2 : ℚ) ^ (1022 : ℤ) = u at room kept unit less inside
    refine (nearest_le kept ?_ (by linarith)).trans_lt inside
    rw [abs_of_pos (by linarith)]
    exact inside.le

end Binary64

end Metrograph

/-
The rational reading of the beat arithmetic is the usual arithmetic of the
rationals: nothing is rounded, held or wrapped, and floors and ceilings are
those of the library.
-/
import Mathlib.Data.Rat.Floor
import Mathlib.Tactic.Ring
import Metrograph.Scalar

namespace Metrograph.Exact

open Scalar (one isFinite overflow heldFloor roundDown)

@[simp] theorem ofNat_eq (n : ℕ) : (Scalar.ofNat n : ℚ) = n := rfl

@[simp] theorem one_eq : (one : ℚ) = 1 := rfl

@[simp] theorem isFinite_eq (q : ℚ) : isFinite q = true := rfl

/-- A whole number that is computed on the way never wraps. -/
@[simp] theorem overflow_eq (n : ℤ) : overflow ℚ n = n := rfl

/-- A floor is the floor: there is no width that it would have to fit. -/
@[simp] theorem heldFloor_eq (q : ℚ) : heldFloor q = ⌊q⌋ := rfl

@[simp] theorem floor_eq (q : ℚ) : Scalar.floor q = ⌊q⌋ := rfl

@[simp] theorem ceil_eq (q : ℚ) : Scalar.ceil q = ⌈q⌉ := by
  show q.ceil = ⌈q⌉
  rw [Rat.ceil_eq_neg_floor_neg]
  rfl

/-- Rounding down stays a rational, and is the floor of it. -/
@[simp] theorem roundDown_eq (q : ℚ) : roundDown q = (⌊q⌋ : ℚ) := rfl

-- ============================================================= wrapping

/-- Over the rationals wrapping is reduction modulo the period. -/
theorem wrap_eq (x : ℚ) {period : ℚ} (positive : 0 < period) :
    Scalar.wrap x period = x - ⌊x / period⌋ * period := by
  have size : Scalar.magnitude period = period := if_neg positive.le.not_gt
  have whole : x / period * period = x := div_mul_cancel₀ x positive.ne'
  show (if x - period * (towardsZero (x / period) : ℚ) < 0 then
    x - period * (towardsZero (x / period) : ℚ) + Scalar.magnitude period
      else x - period * (towardsZero (x / period) : ℚ)) = _
  rw [size]
  generalize x / period = q at whole ⊢
  subst whole
  have rest : q * period - period * (towardsZero q : ℚ) = (q - towardsZero q) * period := by ring
  rw [rest]
  unfold towardsZero
  by_cases negative : q < 0
  · have up : q.ceil = ⌈q⌉ := ceil_eq q
    rw [if_pos negative, up]
    -- rounding up and rounding down differ by one, except at whole numbers
    by_cases integral : q ∈ Set.range Int.cast
    · obtain ⟨n, rfl⟩ := integral
      rw [Int.ceil_intCast, Int.floor_intCast, sub_self, zero_mul, if_neg (lt_irrefl _), sub_self]
    · have next : ⌈q⌉ = ⌊q⌋ + 1 := (Int.ceil_eq_floor_add_one_iff_notMem q).mpr integral
      have below : q < (⌊q⌋ + 1 : ℤ) := by
        push_cast
        exact Int.lt_floor_add_one q
      rw [next, if_pos (mul_neg_of_neg_of_pos (sub_neg.mpr below) positive)]
      push_cast
      ring
  · have down : q.floor = ⌊q⌋ := rfl
    have above : 0 ≤ q - ⌊q⌋ := sub_nonneg.mpr (Int.floor_le q)
    rw [if_neg negative, down, if_neg (mul_nonneg above positive.le).not_gt]
    ring

end Metrograph.Exact

/-
Counting in binary64: adding one again and again.

# Where counting ends

Whole numbers up to `2 ^ 53` are held, so counting is exact until there.
Then `2 ^ 53 + 1` lies halfway between two held numbers and is rounded to
the one with the even significand, which is `2 ^ 53` itself: counting never
goes beyond it (`next_le_lastCount`). Further out held numbers are even,
and one more is rounded back, or on by two and back from there
(`rounded_add_one`, `next_next`).

So counting on from a whole number has a largest value, `countedOn`. It is
never passed (`iterate_next_le`), because rounding is monotone, and it is
reached (`exists_iterate_next`).
-/
import Metrograph.Proofs.Scalar.Rounding

namespace Metrograph

-- =============================================== whole numbers, rounded

/-- Less than a half is dropped. -/
theorem Scalar.nearestEven_add {n : ℤ} {x : ℚ} (nonneg : 0 ≤ x) (less : x < 1 / 2) :
    nearestEven (n + x) = n := by
  have whole : ⌊(n : ℚ) + x⌋ = n := by
    rw [Int.floor_eq_iff]
    constructor <;> linarith
  rw [nearestEven_eq, Int.fract, whole, if_pos (by linarith)]

/-- A half goes to the even neighbour. -/
theorem Scalar.nearestEven_add_half (n : ℤ) :
    nearestEven (n + 1 / 2) = if n % 2 = 0 then n else n + 1 := by
  have whole : ⌊(n : ℚ) + 1 / 2⌋ = n := by
    rw [Int.floor_eq_iff]
    constructor <;> linarith
  rw [nearestEven_eq, Int.fract, whole, if_neg (by linarith), if_neg (by linarith)]

namespace Binary64

open Scalar (nearestEven nearestEven_add nearestEven_add_half)

/-- The whole part of a number of 53 digits is one as well. -/
theorem Kept.floor {q : ℚ} (h : Kept q) : Kept (⌊q⌋ : ℤ) := by
  have own := h
  obtain ⟨m, e, digits, least, rfl⟩ := h
  by_cases whole : 0 ≤ e
  · obtain ⟨n, rfl⟩ := Int.eq_ofNat_of_zero_le whole
    have natural : (m : ℚ) * 2 ^ (n : ℤ) = ((m * 2 ^ n : ℤ) : ℚ) := by
      rw [zpow_natCast]
      push_cast
      rfl
    rw [natural, Int.floor_intCast, ← natural]
    exact own
  · have small : |(m : ℚ) * 2 ^ e| ≤ (2 ^ 53 : ℤ) := by
      rw [abs_mul, abs_of_pos (two_zpow_pos e), ← mul_one ((2 ^ 53 : ℤ) : ℚ)]
      refine mul_le_mul (by exact_mod_cast digits.le) ?_ (two_zpow_pos e).le (by positivity)
      exact zpow_le_one_of_nonpos₀ one_le_two (by omega)
    obtain ⟨low, high⟩ := abs_le.mp small
    refine kept_intCast (abs_le.mpr ⟨Int.le_floor.mpr (by push_cast at low ⊢; exact low), ?_⟩)
    exact_mod_cast (Int.floor_le _).trans high

/-- A floor stays in range. -/
theorem abs_floor_le_limit {q : ℚ} (h : |q| ≤ limit) : |((⌊q⌋ : ℤ) : ℚ)| ≤ limit := by
  have whole : limit = ((2 ^ 1024 : ℤ) : ℚ) := by
    rw [limit, Int.cast_pow, Int.cast_ofNat]
    exact zpow_natCast 2 1024
  rw [whole] at h ⊢
  obtain ⟨low, high⟩ := abs_le.mp h
  rw [← Int.cast_neg] at low
  rw [← Int.cast_abs, Int.cast_le]
  exact abs_le.mpr ⟨Int.le_floor.mpr low, Int.cast_le.mp ((Int.floor_le q).trans high)⟩

/-- The larger a whole number of 53 digits, the more often it can be halved. -/
theorem Kept.two_pow_dvd {n : ℤ} (h : Kept (n : ℚ)) {s : ℕ} (large : 2 ^ (s + 52) ≤ |n|) :
    2 ^ s ∣ n := by
  obtain ⟨m, e, digits, -, same⟩ := h
  have low : (2 : ℚ) ^ ((s + 52 : ℕ) : ℤ) ≤ |(n : ℚ)| := by
    rw [zpow_natCast]
    exact_mod_cast large
  have high : |(n : ℚ)| < 2 ^ (53 + e) := by
    rw [same, abs_mul, abs_of_pos (two_zpow_pos e), zpow_add₀ two_ne_zero]
    exact mul_lt_mul_of_pos_right (by exact_mod_cast digits) (two_zpow_pos e)
  have place := (zpow_lt_zpow_iff_right₀ one_lt_two).mp (low.trans_lt high)
  obtain ⟨k, rfl⟩ := Int.le.dest (show (s : ℤ) ≤ e by push_cast at place; omega)
  refine ⟨m * 2 ^ k, ?_⟩
  rw [zpow_add₀ two_ne_zero, zpow_natCast, zpow_natCast] at same
  have whole : (n : ℚ) = ((2 ^ s * (m * 2 ^ k) : ℤ) : ℚ) := by
    rw [same]
    push_cast
    ring
  exact_mod_cast whole

/-- Beyond `2 ^ 53` counting on by one leaves a whole number where it is, or
moves it by two to a multiple of four. -/
theorem rounded_add_one {n : ℤ} (h : Kept (n : ℚ)) (large : 2 ^ 53 < |n + 1|) (even : 2 ∣ n) :
    rounded (n + 1) = n ∧ (4 ∣ n ∨ 2 ^ 54 ≤ |n + 1|)
      ∨ rounded (n + 1) = (n + 2 : ℤ) ∧ ¬ 4 ∣ n := by
  have size : ((|n + 1| : ℤ) : ℚ) = |(n : ℚ) + 1| := by push_cast; rfl
  have upper := abs_lt_of_lastPlace ((n : ℚ) + 1)
  have beyond : (2 : ℚ) ^ (53 : ℤ) < |(n : ℚ) + 1| := by
    rw [← size]
    exact_mod_cast large
  have place := (zpow_lt_zpow_iff_right₀ one_lt_two).mp (beyond.trans upper)
  obtain ⟨t, ht⟩ := Int.eq_ofNat_of_zero_le (show 0 ≤ lastPlace ((n : ℚ) + 1) by omega)
  have lower : 2 ^ (t + 52) ≤ |n + 1| := by
    have nonzero : (n : ℚ) + 1 ≠ 0 := abs_pos.mp ((two_zpow_pos _).trans beyond)
    have low := (le_abs_of_lastPlace nonzero).resolve_left (by omega)
    rw [ht, ← size] at low
    exact_mod_cast low
  have divides : 2 ^ t ∣ n := by
    refine h.two_pow_dvd ?_
    have half : (2 : ℤ) ^ (t + 52) = 2 * 2 ^ (t + 51) := by ring
    rw [le_abs] at lower ⊢
    omega
  obtain ⟨j, rfl⟩ := divides
  have scaled : rounded (((2 ^ t * j : ℤ) : ℚ) + 1) = nearestEven (j + 1 / 2 ^ t) * 2 ^ t := by
    have unit : (2 : ℚ) ^ t ≠ 0 := by positivity
    unfold rounded
    rw [ht, zpow_natCast]
    push_cast
    rw [add_div, mul_div_cancel_left₀ _ unit]
  rw [scaled]
  rcases Nat.lt_or_ge t 2 with short | long
  · obtain rfl : t = 1 := by omega
    rw [pow_one, nearestEven_add_half]
    split_ifs with even_j
    · exact Or.inl ⟨by push_cast; ring, Or.inl (by omega)⟩
    · exact Or.inr ⟨by push_cast; ring, by omega⟩
  · have small : (1 : ℚ) / 2 ^ t < 1 / 2 := by
      refine one_div_lt_one_div_of_lt two_pos ?_
      calc (2 : ℚ) < 2 ^ 2 := by norm_num
        _ ≤ 2 ^ t := pow_le_pow_right₀ one_le_two long
    rw [nearestEven_add (by positivity) small]
    refine Or.inl ⟨by push_cast; ring, Or.inr ?_⟩
    exact (pow_le_pow_right₀ one_le_two (by omega)).trans lower

-- ============================================================= counting

/-- The number after a number, where infinities stay what they are. -/
def next (q : ℚ) : ℚ := if |q| < limit then nearest (q + 1) else q

/-- Counting never goes back. -/
theorem le_next {q : ℚ} (h : Kept q) : q ≤ next q := by
  unfold next
  split_ifs with finite
  · exact le_nearest h finite.le (le_add_of_nonneg_right zero_le_one)
  · exact le_rfl

/-- Within 53 digits counting is exact. -/
theorem next_intCast {n : ℤ} (low : -2 ^ 53 ≤ n) (high : n < 2 ^ 53) :
    next n = (n + 1 : ℤ) := by
  have digits : |n| ≤ 2 ^ 53 := abs_le.mpr ⟨low, high.le⟩
  unfold next
  rw [if_pos (abs_intCast_lt_limit digits), ← nearest_intCast (n := n + 1)]
  · push_cast
    rfl
  · exact abs_le.mpr ⟨by omega, by omega⟩

/-- Where counting ends. -/
def lastCount : ℤ := 2 ^ 53

/-- Counting does not pass its last number. -/
theorem next_le_lastCount {q : ℚ} (le : q ≤ lastCount) : next q ≤ lastCount := by
  have stays : nearest (lastCount + 1) = lastCount := by
    have digits : |lastCount| ≤ 2 ^ 53 := by decide
    have same : rounded (lastCount + 1) = lastCount := by
      rcases rounded_add_one (kept_intCast digits) (by decide) (by decide) with ⟨same, -⟩ | ⟨-, odd⟩
      · exact same
      · exact absurd (by decide) odd
    rw [nearest_eq_rounded, same]
    rw [same]
    exact (abs_intCast_lt_limit digits).le
  unfold next
  split_ifs with finite
  · rw [← stays]
    exact nearest_mono (add_le_add_left le 1)
  · exact le

/-- A whole number too large to be counted on from moves once at most. -/
theorem next_next {n : ℤ} (h : Kept (n : ℚ)) (beyond : n < -2 ^ 53 - 2 ∨ 2 ^ 53 < n) :
    next (next n) = next n := by
  have large : 2 ^ 53 ≤ |n| := le_abs.mpr (by omega)
  have even : 2 ∣ n := h.two_pow_dvd (s := 1) large
  have after : 2 ^ 53 < |n + 1| := lt_abs.mpr (by omega)
  by_cases finite : |(n : ℚ)| < limit
  · have once : next n = nearest (n + 1) := if_pos finite
    by_cases again : |nearest ((n : ℚ) + 1)| < limit
    · have step : nearest ((n : ℚ) + 1) = rounded (n + 1) := nearest_eq_rounded_of_lt again
      have twice : next (next n) = nearest (rounded (n + 1) + 1) := by
        rw [once, next, if_pos again, step]
      rw [twice, once, step]
      rcases rounded_add_one h after even with ⟨same, -⟩ | ⟨moved, odd⟩
      · rw [same, step, same]
      · rw [step, moved] at again
        rw [moved]
        have kept : Kept ((n + 2 : ℤ) : ℚ) := moved ▸ kept_rounded _
        have stays : rounded ((n + 2 : ℤ) + 1) = (n + 2 : ℤ) := by
          rcases rounded_add_one kept (lt_abs.mpr (by omega)) (by omega) with ⟨same, -⟩ | ⟨-, other⟩
          · exact same
          · omega
        rw [nearest_eq_rounded, stays]
        rw [stays]
        exact again.le
    · rw [once, next, if_neg again]
  · have same : next n = n := if_neg finite
    rw [same, same]

/-- What counting on from a whole number comes to. -/
def countedOn (n : ℤ) : ℚ := if -2 ^ 53 - 2 ≤ n ∧ n ≤ 2 ^ 53 then lastCount else next n

/-- From anywhere up to the last number counting comes to rest there. -/
theorem countedOn_floor {q : ℚ} (low : -(lastCount : ℚ) ≤ q) (high : q ≤ lastCount) :
    countedOn ⌊q⌋ = lastCount := by
  rw [← Int.cast_neg] at low
  have above : -2 ^ 53 ≤ ⌊q⌋ := Int.le_floor.mpr low
  have below : ⌊q⌋ ≤ 2 ^ 53 := Int.cast_le.mp ((Int.floor_le q).trans high)
  exact if_pos ⟨by omega, below⟩

/-- However long it goes on, counting does not pass where it comes to rest. -/
theorem iterate_next_le {n : ℤ} (h : Kept (n : ℚ)) (k : ℕ) : next^[k] n ≤ countedOn n := by
  unfold countedOn
  split_ifs with near
  · have start : (n : ℚ) ≤ lastCount := by exact_mod_cast near.2
    induction k with
    | zero => exact start
    | succ k ih =>
      rw [Function.iterate_succ_apply']
      exact next_le_lastCount ih
  · cases k with
    | zero => exact le_next h
    | succ k =>
      rw [Function.iterate_succ_apply, Function.iterate_fixed (next_next h (by omega))]

/-- So many steps count so many numbers within 53 digits. -/
theorem iterate_next_intCast {n : ℤ} (low : -2 ^ 53 ≤ n) {k : ℕ} (high : n + k ≤ 2 ^ 53) :
    next^[k] n = (n + k : ℤ) := by
  induction k with
  | zero => simp
  | succ k ih =>
    rw [Function.iterate_succ_apply', ih (by push_cast at high; omega), next_intCast (by omega)
      (by push_cast at high; omega)]
    push_cast
    ring

/-- Counting on comes to its end. -/
theorem exists_iterate_next {n : ℤ} (h : Kept (n : ℚ)) : ∃ k, next^[k] n = countedOn n := by
  have from_low : ∀ m : ℤ, -2 ^ 53 ≤ m → m ≤ 2 ^ 53 → ∃ k, next^[k] m = lastCount := by
    intro m low high
    refine ⟨(2 ^ 53 - m).toNat, ?_⟩
    rw [iterate_next_intCast low (by omega)]
    unfold lastCount
    norm_cast
    omega
  unfold countedOn
  split_ifs with near
  · by_cases low : -2 ^ 53 ≤ n
    · exact from_low n low near.2
    · -- the odd number is not held, and from the even one counting skips it
      have even : 2 ∣ n := h.two_pow_dvd (s := 1) (le_abs.mpr (by omega))
      obtain rfl : n = -2 ^ 53 - 2 := by omega
      have once : next (-2 ^ 53 - 2 : ℤ) = (-2 ^ 53 : ℤ) := by
        rcases rounded_add_one h (by decide) (by decide) with ⟨-, kept⟩ | ⟨moved, -⟩
        · exact absurd kept (by decide)
        · have inside : |((-2 ^ 53 - 2 : ℤ) : ℚ)| < limit := by
            have size : |((-2 ^ 53 - 2 : ℤ) : ℚ)| ≤ 2 ^ (54 : ℤ) := by norm_num [abs_le]
            unfold limit
            exact size.trans_lt (zpow_lt_zpow_right₀ one_lt_two (by norm_num))
          have result : (-2 ^ 53 - 2 + 2 : ℤ) = -2 ^ 53 := by norm_num
          rw [result] at moved
          rw [next, if_pos inside, nearest_eq_rounded, moved]
          rw [moved]
          exact (abs_intCast_lt_limit (by decide)).le
      obtain ⟨k, hk⟩ := from_low (-2 ^ 53) le_rfl (by omega)
      exact ⟨k + 1, by rw [Function.iterate_succ_apply, once, hk]⟩
  · exact ⟨1, rfl⟩

-- =============================================================== floats

variable {x y : Float} {p q : ℚ}

/-- One is added as `next` says. -/
theorem HasValue.next (hx : HasValue x p) : HasValue (x + Scalar.one) (next p) := by
  unfold Binary64.next
  split_ifs with finite
  · exact hx.add hasValue_one finite abs_one_lt_limit
  · exact (hx.of_infinite finite hasValue_one abs_one_lt_limit).1

theorem HasValue.iterate_next (hx : HasValue x p) (k : ℕ) :
    HasValue ((· + Scalar.one)^[k] x) (Binary64.next^[k] p) := by
  induction k with
  | zero => exact hx
  | succ k ih =>
    rw [Function.iterate_succ_apply', Function.iterate_succ_apply']
    exact ih.next

/-- A number times a positive one, where infinities stay what they are. -/
def times (p q : ℚ) : ℚ := if |p| < limit then nearest (p * q) else p

/-- A product with a finite factor above zero is what `times` says. -/
theorem HasValue.times (hx : HasValue x p) (hy : HasValue y q) (positive : 0 < q)
    (finite : q < limit) : HasValue (x * y) (times p q) := by
  have inside : |q| < limit := by rwa [abs_of_pos positive]
  unfold Binary64.times
  split_ifs with within
  · exact hx.mul hy within inside
  · exact (hx.of_infinite within hy inside).2 positive

/-- Repetitions of one length keep their order, also where they are rounded. -/
theorem times_mono {p' : ℚ} (le : p ≤ p') (hp : |p| ≤ limit) (hp' : |p'| ≤ limit) (nonneg : 0 ≤ q) :
    times p q ≤ times p' q := by
  obtain ⟨low, high⟩ := abs_le.mp hp
  obtain ⟨low', high'⟩ := abs_le.mp hp'
  unfold times
  split_ifs with finite finite' finite'
  · exact nearest_mono (mul_le_mul_of_nonneg_right le nonneg)
  · -- what is infinite and not below a finite number is not below anything
    have top : limit ≤ p' := by
      obtain ⟨above, -⟩ := abs_lt.mp finite
      rcases le_abs.mp (not_lt.mp finite') with high | low
      · exact high
      · linarith
    exact (nearest_le_limit _).trans top
  · have bottom : p ≤ -limit := by
      obtain ⟨-, below⟩ := abs_lt.mp finite'
      rcases le_abs.mp (not_lt.mp finite) with high | low
      · linarith
      · linarith
    exact bottom.trans (neg_limit_le_nearest _)
  · exact le

end Binary64

end Metrograph

/-
The binary64 number nearest to a rational.

# Rounding

A rational is written over the power of two that leaves it 53 binary
digits before the point, or over `2 ^ -1074` if that power is smaller
(`lastPlace`), and rounded to a whole number there, a half to the even
neighbour (`rounded`). Beyond the range the result stands at `2 ^ 1024`
(`nearest`).

# What rounding keeps

Two facts carry everything that is said about rounded arithmetic: numbers
with 53 binary digits stay as they are (`nearest_eq_self`), and rounding
is monotone (`nearest_mono`). So a number of 53 digits that bounds an
exact result bounds the rounded one as well, and no error has to be
estimated. Where the distance matters, it is at most half a unit in the
last place, which is `2 ^ -53` of the result unless the result lies below
the smallest power of two with all its digits (`abs_rounded_sub_le`).

Powers of two that two different last places have in common separate
them, which is why monotonicity is not only that of rounding to a whole
number.
-/
import Mathlib.Data.Int.Log
import Mathlib.Data.Rat.Floor
import Mathlib.Tactic.Linarith
import Mathlib.Tactic.Positivity
import Mathlib.Tactic.Ring
import Metrograph.Scalar

namespace Metrograph

-- ======================================================= whole numbers

namespace Scalar

theorem nearestEven_eq (q : ℚ) :
    nearestEven q = if Int.fract q < 1 / 2 then ⌊q⌋ else if 1 / 2 < Int.fract q then ⌊q⌋ + 1
      else if ⌊q⌋ % 2 = 0 then ⌊q⌋ else ⌊q⌋ + 1 := rfl

/-- A whole number is rounded to itself. -/
theorem nearestEven_intCast (n : ℤ) : nearestEven (n : ℚ) = n := by
  simp [nearestEven_eq]

/-- No rational is further than a half from what it is rounded to. -/
theorem abs_nearestEven_sub_le (q : ℚ) : |(nearestEven q : ℚ) - q| ≤ 1 / 2 := by
  have whole := Int.floor_add_fract q
  have low := Int.fract_nonneg q
  have high := Int.fract_lt_one q
  rw [nearestEven_eq, abs_le]
  split_ifs <;> push_cast <;> constructor <;> linarith

/-- Rounding to whole numbers keeps the order. -/
theorem nearestEven_mono {q r : ℚ} (le : q ≤ r) : nearestEven q ≤ nearestEven r := by
  by_contra down
  have step : (nearestEven r : ℚ) + 1 ≤ nearestEven q := by
    exact_mod_cast Int.add_one_le_of_lt (not_le.mp down)
  have from_q := (abs_le.mp (abs_nearestEven_sub_le q)).2
  have from_r := (abs_le.mp (abs_nearestEven_sub_le r)).1
  have same : q = r := by linarith
  exact down (by rw [same])

/-- The even neighbour is taken on both sides of zero, so the sign goes through. -/
theorem nearestEven_neg (q : ℚ) : nearestEven (-q) = -nearestEven q := by
  by_cases whole : q = ⌊q⌋
  · rw [whole, ← Int.cast_neg, nearestEven_intCast, nearestEven_intCast]
  · have low : (⌊q⌋ : ℚ) < q := lt_of_le_of_ne (Int.floor_le q) (Ne.symm whole)
    have high := Int.lt_floor_add_one q
    have other : ⌊-q⌋ = -⌊q⌋ - 1 := by
      rw [Int.floor_eq_iff]
      push_cast
      constructor <;> linarith
    rw [nearestEven_eq, nearestEven_eq, Int.fract, Int.fract, other]
    push_cast
    split_ifs <;> first | omega | (exfalso; linarith)

end Scalar

namespace Binary64

open Scalar (nearestEven nearestEven_intCast nearestEven_mono nearestEven_neg
  abs_nearestEven_sub_le)

-- ======================================================= the last place

/-- The exponent of the last binary digit that is kept of a rational. -/
def lastPlace (q : ℚ) : ℤ := max (Int.log 2 |q| - 52) (-1074)

/-- A rational rounded to 53 binary digits. -/
def rounded (q : ℚ) : ℚ := nearestEven (q / 2 ^ lastPlace q) * 2 ^ lastPlace q

theorem two_zpow_pos (t : ℤ) : (0 : ℚ) < 2 ^ t := zpow_pos two_pos t

/-- A power of two is a whole number of units of any place to its right. -/
theorem exists_mul_two_zpow {t e : ℤ} (le : t ≤ e) : ∃ n : ℕ, (2 : ℚ) ^ e = n * 2 ^ t := by
  obtain ⟨k, rfl⟩ := Int.le.dest le
  exact ⟨2 ^ k, by rw [zpow_add₀ two_ne_zero, zpow_natCast, mul_comm, Nat.cast_pow, Nat.cast_ofNat]⟩

theorem le_lastPlace (q : ℚ) : -1074 ≤ lastPlace q := le_max_right _ _

theorem lastPlace_neg (q : ℚ) : lastPlace (-q) = lastPlace q := by
  unfold lastPlace
  rw [abs_neg]

/-- From its last place on a rational has at most 53 digits. -/
theorem abs_lt_of_lastPlace (q : ℚ) : |q| < 2 ^ (lastPlace q + 53) := by
  refine (Int.lt_zpow_succ_log_self one_lt_two |q|).trans_le ?_
  have : Int.log 2 |q| - 52 ≤ lastPlace q := le_max_left _ _
  exact zpow_le_zpow_right₀ one_le_two (by omega)

/-- It has all 53 of them, unless its last place is the last one there is. -/
theorem le_abs_of_lastPlace {q : ℚ} (nonzero : q ≠ 0) :
    lastPlace q = -1074 ∨ 2 ^ (lastPlace q + 52) ≤ |q| := by
  by_cases small : lastPlace q = -1074
  · exact Or.inl small
  · have large : lastPlace q = Int.log 2 |q| - 52 := by
      unfold lastPlace at small ⊢
      omega
    rw [large, sub_add_cancel]
    exact Or.inr (Int.zpow_log_le_self one_lt_two (abs_pos.mpr nonzero))

/-- The last place is where 53 digits end, or `-1074`. -/
theorem lastPlace_eq {q : ℚ} {t : ℤ} (nonzero : q ≠ 0) (least : -1074 ≤ t)
    (high : |q| < 2 ^ (t + 53)) (low : t = -1074 ∨ 2 ^ (t + 52) ≤ |q|) : lastPlace q = t := by
  have positive := abs_pos.mpr nonzero
  have upper := (Int.lt_zpow_iff_log_lt one_lt_two positive).mp high
  unfold lastPlace
  rcases low with rfl | low
  · omega
  · have lower := (Int.zpow_le_iff_le_log one_lt_two positive).mp low
    omega

/-- The last place moves to the left as the size grows. -/
theorem lastPlace_mono {q r : ℚ} (nonzero : q ≠ 0) (le : |q| ≤ |r|) :
    lastPlace q ≤ lastPlace r :=
  max_le_max (sub_le_sub_right (Int.log_mono_right (abs_pos.mpr nonzero) le) 52) le_rfl

-- =========================================================== the digits

/-- The rationals with 53 binary digits, the last of them no further to the
right than the place `-1074`. -/
def Kept (q : ℚ) : Prop := ∃ m e : ℤ, |m| < 2 ^ 53 ∧ -1074 ≤ e ∧ q = m * 2 ^ e

/-- A digit more does no harm if it is the only one. -/
theorem kept_of_le {m e : ℤ} (digits : |m| ≤ 2 ^ 53) (least : -1074 ≤ e) :
    Kept (m * 2 ^ e) := by
  rcases digits.lt_or_eq with less | carried
  · exact ⟨m, e, less, least, rfl⟩
  · have even : m / 2 * 2 = m ∧ |m / 2| < 2 ^ 53 := by
      rcases eq_or_eq_neg_of_abs_eq carried with rfl | rfl <;> norm_num
    refine ⟨m / 2, e + 1, even.2, by omega, ?_⟩
    have halves : (m / 2 : ℤ) * 2 = (m : ℚ) := by exact_mod_cast even.1
    rw [zpow_add_one₀ two_ne_zero, ← halves]
    ring

theorem kept_zero : Kept 0 := ⟨0, 0, by norm_num, by norm_num, by norm_num⟩

/-- Whole numbers of 53 digits are kept. -/
theorem kept_intCast {n : ℤ} (digits : |n| ≤ 2 ^ 53) : Kept n := by
  have kept := kept_of_le digits (show -1074 ≤ 0 by norm_num)
  rwa [zpow_zero, mul_one] at kept

/-- So are the powers of two down to the last place there is. -/
theorem kept_two_zpow {t : ℤ} (least : -1074 ≤ t) : Kept (2 ^ t) := by
  have kept := kept_of_le (m := 1) (by norm_num) least
  rwa [Int.cast_one, one_mul] at kept

theorem Kept.neg {q : ℚ} (h : Kept q) : Kept (-q) := by
  obtain ⟨m, e, digits, least, rfl⟩ := h
  exact ⟨-m, e, by rwa [abs_neg], least, by push_cast; ring⟩

/-- Numbers of 53 digits are whole multiples of the smallest one. -/
theorem Kept.whole {q : ℚ} (h : Kept q) : ∃ n : ℤ, q = n * 2 ^ (-1074 : ℤ) := by
  obtain ⟨m, e, -, least, rfl⟩ := h
  obtain ⟨n, hn⟩ := exists_mul_two_zpow least
  exact ⟨m * n, by rw [hn, Int.cast_mul, Int.cast_natCast, mul_assoc]⟩

-- ============================================================= rounding

theorem rounded_zero : rounded 0 = 0 := by
  have zero : nearestEven 0 = 0 := by exact_mod_cast nearestEven_intCast 0
  unfold rounded
  rw [zero_div, zero, Int.cast_zero, zero_mul]

/-- Rounding looks at the size only. -/
theorem rounded_neg (q : ℚ) : rounded (-q) = -rounded q := by
  unfold rounded
  rw [lastPlace_neg, neg_div, nearestEven_neg, Int.cast_neg, neg_mul]

/-- Rounding over any place that has the digits of a rational. -/
theorem rounded_eq {q : ℚ} {t : ℤ} (least : -1074 ≤ t) (high : |q| < 2 ^ (t + 53))
    (low : t = -1074 ∨ 2 ^ (t + 52) ≤ |q|) : rounded q = nearestEven (q / 2 ^ t) * 2 ^ t := by
  by_cases zero : q = 0
  · have none : nearestEven 0 = 0 := by exact_mod_cast nearestEven_intCast 0
    rw [zero, rounded_zero, zero_div, none, Int.cast_zero, zero_mul]
  · unfold rounded
    rw [lastPlace_eq zero least high low]

/-- A rational of size up to `2 ^ (t + n)` is rounded to at most `2 ^ n` units of
the place `t`. -/
theorem abs_digits_le {q : ℚ} {t : ℤ} {n : ℕ} (high : |q| ≤ 2 ^ (t + n)) :
    |nearestEven (q / 2 ^ t)| ≤ 2 ^ n := by
  have scaled : |q / 2 ^ t| ≤ (2 ^ n : ℤ) := by
    rw [abs_div, abs_of_pos (two_zpow_pos t), div_le_iff₀ (two_zpow_pos t)]
    rw [zpow_add₀ two_ne_zero, zpow_natCast] at high
    push_cast
    linarith
  obtain ⟨low, high⟩ := abs_le.mp scaled
  have upper := nearestEven_mono high
  have lower := nearestEven_mono low
  rw [← Int.cast_neg, nearestEven_intCast] at lower
  rw [nearestEven_intCast] at upper
  exact abs_le.mpr ⟨lower, upper⟩

/-- One of `2 ^ (t + n)` or more is rounded to at least `2 ^ n` of these units. -/
theorem le_digits {q : ℚ} {t : ℤ} {n : ℕ} (low : 2 ^ (t + n) ≤ q) :
    2 ^ n ≤ nearestEven (q / 2 ^ t) := by
  have scaled : ((2 ^ n : ℤ) : ℚ) ≤ q / 2 ^ t := by
    rw [le_div_iff₀ (two_zpow_pos t)]
    rw [zpow_add₀ two_ne_zero, zpow_natCast] at low
    push_cast
    linarith
  have lower := nearestEven_mono scaled
  rwa [nearestEven_intCast] at lower

/-- What rounding gives is kept, also where the digits carry into one more. -/
theorem kept_rounded (q : ℚ) : Kept (rounded q) :=
  kept_of_le (abs_digits_le (n := 53) (abs_lt_of_lastPlace q).le) (le_lastPlace q)

/-- Numbers of 53 digits stay as they are. -/
theorem rounded_eq_self {q : ℚ} (h : Kept q) : rounded q = q := by
  by_cases zero : q = 0
  · rw [zero, rounded_zero]
  obtain ⟨m, e, digits, least, rfl⟩ := h
  have short : |(m : ℚ) * 2 ^ e| < 2 ^ (e + 53) := by
    have bound : (|m| : ℚ) < 2 ^ 53 := by exact_mod_cast digits
    rw [abs_mul, abs_of_pos (two_zpow_pos e), add_comm, zpow_add₀ two_ne_zero]
    exact mul_lt_mul_of_pos_right (by exact_mod_cast bound) (two_zpow_pos e)
  have place : lastPlace ((m : ℚ) * 2 ^ e) ≤ e := by
    have upper := (Int.lt_zpow_iff_log_lt one_lt_two (abs_pos.mpr zero)).mp short
    unfold lastPlace
    omega
  obtain ⟨k, hk⟩ := Int.eq_ofNat_of_zero_le (sub_nonneg.mpr place)
  unfold rounded
  generalize lastPlace ((m : ℚ) * 2 ^ e) = t at hk
  obtain rfl : e = t + k := by omega
  have whole : (m : ℚ) * 2 ^ (t + k : ℤ) / 2 ^ t = ((m * 2 ^ k : ℤ) : ℚ) := by
    rw [zpow_add₀ two_ne_zero, zpow_natCast]
    push_cast
    field_simp
  rw [whole, nearestEven_intCast, zpow_add₀ two_ne_zero, zpow_natCast]
  push_cast
  ring

theorem rounded_nonneg {q : ℚ} (h : 0 ≤ q) : 0 ≤ rounded q := by
  have digits : nearestEven 0 ≤ nearestEven (q / 2 ^ lastPlace q) :=
    nearestEven_mono (div_nonneg h (two_zpow_pos _).le)
  have zero : nearestEven 0 = 0 := by exact_mod_cast nearestEven_intCast 0
  rw [zero] at digits
  exact mul_nonneg (by exact_mod_cast digits) (two_zpow_pos _).le

/-- Rounding is monotone from zero on. -/
theorem rounded_mono_of_nonneg {q r : ℚ} (nonneg : 0 ≤ q) (le : q ≤ r) :
    rounded q ≤ rounded r := by
  rcases nonneg.eq_or_lt with rfl | positive
  · rw [rounded_zero]
    exact rounded_nonneg le
  have sizes : |q| ≤ |r| := by rwa [abs_of_pos positive, abs_of_pos (positive.trans_le le)]
  rcases (lastPlace_mono positive.ne' sizes).eq_or_lt with same | further
  · unfold rounded
    rw [same]
    exact mul_le_mul_of_nonneg_right (Int.cast_le.mpr (nearestEven_mono
      (div_le_div_of_nonneg_right le (two_zpow_pos _).le))) (two_zpow_pos _).le
  · -- the power of two between the digits of the one and those of the other
    have below : rounded q ≤ 2 ^ (lastPlace q + 53) := by
      have digits := (abs_le.mp (abs_digits_le (n := 53) (abs_lt_of_lastPlace q).le)).2
      unfold rounded
      rw [add_comm, zpow_add₀ two_ne_zero]
      exact mul_le_mul_of_nonneg_right (by exact_mod_cast digits) (two_zpow_pos _).le
    have above : 2 ^ (lastPlace r + 52) ≤ rounded r := by
      have nonzero : r ≠ 0 := (positive.trans_le le).ne'
      have low : 2 ^ (lastPlace r + (52 : ℕ)) ≤ r := by
        rcases le_abs_of_lastPlace nonzero with least | low
        · have := le_lastPlace q
          omega
        · rwa [abs_of_pos (positive.trans_le le)] at low
      have digits := le_digits low
      unfold rounded
      rw [add_comm, zpow_add₀ two_ne_zero]
      exact mul_le_mul_of_nonneg_right (by exact_mod_cast digits) (two_zpow_pos _).le
    exact below.trans ((zpow_le_zpow_right₀ one_le_two (by omega)).trans above)

/-- Rounding keeps the order, from one last place to the next as well. -/
theorem rounded_mono {q r : ℚ} (le : q ≤ r) : rounded q ≤ rounded r := by
  by_cases from_zero : 0 ≤ q
  · exact rounded_mono_of_nonneg from_zero le
  by_cases to_zero : 0 ≤ r
  · have low := rounded_nonneg (neg_nonneg.mpr (not_le.mp from_zero).le)
    rw [rounded_neg] at low
    exact (neg_nonneg.mp low).trans (rounded_nonneg to_zero)
  · have mirrored := rounded_mono_of_nonneg (neg_nonneg.mpr (not_le.mp to_zero).le)
      (neg_le_neg le)
    rwa [rounded_neg, rounded_neg, neg_le_neg_iff] at mirrored

/-- The size of what a rational is rounded to is what its size is rounded to. -/
theorem abs_rounded (q : ℚ) : |rounded q| = rounded |q| := by
  rcases le_total 0 q with nonneg | nonpos
  · rw [abs_of_nonneg nonneg, abs_of_nonneg (rounded_nonneg nonneg)]
  · have mirrored := rounded_nonneg (neg_nonneg.mpr nonpos)
    rw [abs_of_nonpos nonpos, rounded_neg]
    rw [rounded_neg] at mirrored
    exact abs_of_nonpos (neg_nonneg.mp mirrored)

/-- Rounding moves a rational by at most half a unit in its last place. -/
theorem abs_rounded_sub_le_half (q : ℚ) : |rounded q - q| ≤ 2 ^ lastPlace q / 2 := by
  have unit := two_zpow_pos (lastPlace q)
  have moved := abs_nearestEven_sub_le (q / 2 ^ lastPlace q)
  have scaled : rounded q - q
      = (nearestEven (q / 2 ^ lastPlace q) - q / 2 ^ lastPlace q) * 2 ^ lastPlace q := by
    unfold rounded
    rw [sub_mul, div_mul_cancel₀ _ unit.ne']
  rw [scaled, abs_mul, abs_of_pos unit]
  linarith [mul_le_mul_of_nonneg_right moved unit.le]

/-- Half a unit of the last place against the least number with 53 digits there. -/
theorem half_unit_eq (t : ℤ) : (2 : ℚ) ^ t / 2 = 2 ^ (t + 52) * 2 ^ (-53 : ℤ) := by
  rw [← zpow_add₀ two_ne_zero, div_eq_mul_inv, ← zpow_sub_one₀ two_ne_zero]
  congr 1
  ring

/-- That is a small part of the rational, or half of the smallest number. -/
theorem abs_rounded_sub_le_size (q : ℚ) :
    |rounded q - q| ≤ |q| * 2 ^ (-53 : ℤ) + 2 ^ (-1075 : ℤ) := by
  have half := abs_rounded_sub_le_half q
  have size := mul_nonneg (abs_nonneg q) (two_zpow_pos (-53)).le
  have smallest := two_zpow_pos (-1075)
  by_cases zero : q = 0
  · rw [zero, rounded_zero, sub_zero, abs_zero, zero_mul, zero_add]
    exact smallest.le
  rcases le_abs_of_lastPlace zero with last | full
  · rw [last, div_eq_mul_inv, ← zpow_sub_one₀ two_ne_zero] at half
    exact half.trans (le_add_of_nonneg_left size)
  · rw [half_unit_eq] at half
    have bound := mul_le_mul_of_nonneg_right full (two_zpow_pos (-53)).le
    exact (half.trans bound).trans (le_add_of_nonneg_right smallest.le)

/-- It is a small part of the result, unless there is no place further to the
right. -/
theorem abs_rounded_sub_le (q : ℚ) :
    lastPlace q = -1074 ∨ |rounded q - q| ≤ |rounded q| * 2 ^ (-53 : ℤ) := by
  have half := abs_rounded_sub_le_half q
  by_cases zero : q = 0
  · right
    simp [zero, rounded_zero]
  refine (le_abs_of_lastPlace zero).imp id fun low => half.trans ?_
  have kept : Kept (2 ^ (lastPlace q + 52)) :=
    kept_two_zpow ((le_lastPlace q).trans (by omega))
  have large : 2 ^ (lastPlace q + 52) ≤ |rounded q| := by
    rw [abs_rounded, ← rounded_eq_self kept]
    exact rounded_mono low
  rw [half_unit_eq]
  exact mul_le_mul_of_nonneg_right large (two_zpow_pos _).le

/-- A rational that is not too small moves by a small part of any bound of the
result. -/
theorem abs_rounded_sub_le_of_le {q b : ℚ} (le : |rounded q| ≤ b) (normal : 2 ^ (-1022 : ℤ) ≤ b) :
    |rounded q - q| ≤ b * 2 ^ (-53 : ℤ) := by
  rcases abs_rounded_sub_le q with last | small
  · have half := abs_rounded_sub_le_half q
    rw [last, div_eq_mul_inv, ← zpow_sub_one₀ two_ne_zero] at half
    have parts : (2 : ℚ) ^ (-1074 - 1 : ℤ) = 2 ^ (-1022 : ℤ) * 2 ^ (-53 : ℤ) := by
      rw [← zpow_add₀ two_ne_zero]
      congr 1
    rw [parts] at half
    exact half.trans (mul_le_mul_of_nonneg_right normal (two_zpow_pos _).le)
  · exact small.trans (mul_le_mul_of_nonneg_right le (two_zpow_pos _).le)

/-- A sum of two numbers with 53 digits moves by a small part of the result,
however small it is. -/
theorem abs_rounded_add_sub_le {p q : ℚ} (hp : Kept p) (hq : Kept q) :
    |rounded (p + q) - (p + q)| ≤ |rounded (p + q)| * 2 ^ (-53 : ℤ) := by
  rcases abs_rounded_sub_le (p + q) with last | small
  · obtain ⟨m, rfl⟩ := hp.whole
    obtain ⟨n, rfl⟩ := hq.whole
    have exact_sum : rounded (m * 2 ^ (-1074 : ℤ) + n * 2 ^ (-1074 : ℤ))
        = m * 2 ^ (-1074 : ℤ) + n * 2 ^ (-1074 : ℤ) := by
      unfold rounded
      rw [last, ← add_mul, mul_div_cancel_right₀ _ (two_zpow_pos _).ne', ← Int.cast_add,
        nearestEven_intCast]
    rw [exact_sum, sub_self, abs_zero]
    exact mul_nonneg (abs_nonneg _) (two_zpow_pos _).le
  · exact small

-- ============================================================ the range

/-- The first power of two beyond the range. -/
@[irreducible]
def limit : ℚ := 2 ^ (1024 : ℤ)

/-- A rational rounded to 53 binary digits, or the end of the range. -/
def nearest (q : ℚ) : ℚ := max (-limit) (min (rounded q) limit)

theorem limit_pos : 0 < limit := by
  unfold limit
  exact two_zpow_pos _

/-- The powers of two below the limit of the range. -/
theorem two_zpow_lt_limit_iff {t : ℤ} : (2 : ℚ) ^ t < limit ↔ t < 1024 := by
  unfold limit
  exact zpow_lt_zpow_iff_right₀ one_lt_two

theorem abs_two_zpow_le_limit {t : ℤ} (most : t ≤ 1024) : |(2 : ℚ) ^ t| ≤ limit := by
  rw [abs_of_pos (two_zpow_pos t)]
  unfold limit
  exact zpow_le_zpow_right₀ one_le_two most

/-- The limit would be kept if the range did not end in front of it. -/
theorem kept_limit : Kept limit := by
  unfold limit
  exact kept_two_zpow (by norm_num)

theorem nearest_neg (q : ℚ) : nearest (-q) = -nearest q := by
  have far := limit_pos
  unfold nearest
  rw [rounded_neg]
  rcases le_total (rounded q) limit with high | high <;>
    rcases le_total (-limit) (rounded q) with low | low <;>
    simp only [min_def, max_def] <;> split_ifs <;> linarith

/-- Cutting off at the ends of the range keeps the order too. -/
theorem nearest_mono {q r : ℚ} (le : q ≤ r) : nearest q ≤ nearest r :=
  max_le_max le_rfl (min_le_min_right _ (rounded_mono le))

/-- What a computation gives is kept. -/
theorem kept_nearest (q : ℚ) : Kept (nearest q) := by
  unfold nearest
  rcases max_choice (-limit) (min (rounded q) limit) with low | inside
  · rw [low]
    exact kept_limit.neg
  · rw [inside]
    rcases min_choice (rounded q) limit with inside | high
    · rw [inside]
      exact kept_rounded q
    · rw [high]
      exact kept_limit

/-- Inside the range nothing is cut off. -/
theorem nearest_eq_rounded {q : ℚ} (inside : |rounded q| ≤ limit) : nearest q = rounded q := by
  obtain ⟨low, high⟩ := abs_le.mp inside
  unfold nearest
  rw [min_eq_left high, max_eq_right low]

theorem nearest_eq_rounded_of_lt {q : ℚ} (inside : |nearest q| < limit) :
    nearest q = rounded q := by
  have far := limit_pos
  obtain ⟨low, high⟩ := abs_lt.mp inside
  refine nearest_eq_rounded (abs_le.mpr ⟨?_, ?_⟩)
  · by_contra beyond
    rw [nearest, min_eq_left (by linarith), max_eq_left (by linarith)] at low
    exact lt_irrefl _ low
  · by_contra beyond
    rw [nearest, min_eq_right (by linarith), max_eq_right (by linarith)] at high
    exact lt_irrefl _ high

/-- Numbers of 53 digits within the range stay as they are. -/
theorem nearest_eq_self {q : ℚ} (h : Kept q) (inside : |q| ≤ limit) : nearest q = q := by
  have same := rounded_eq_self h
  rw [nearest_eq_rounded (by rwa [same]), same]

/-- The error of one rounding, in terms of a bound of the result. -/
theorem abs_nearest_sub_le {q b : ℚ} (le : |nearest q| ≤ b) (inside : b < limit)
    (normal : 2 ^ (-1022 : ℤ) ≤ b) : |nearest q - q| ≤ b * 2 ^ (-53 : ℤ) := by
  have same := nearest_eq_rounded_of_lt (le.trans_lt inside)
  rw [same] at le ⊢
  exact abs_rounded_sub_le_of_le le normal

/-- The error of a sum: small sums are exact, so no least place appears in it. -/
theorem abs_nearest_add_sub_le {p q b : ℚ} (hp : Kept p) (hq : Kept q)
    (le : |nearest (p + q)| ≤ b) (inside : b < limit) :
    |nearest (p + q) - (p + q)| ≤ b * 2 ^ (-53 : ℤ) := by
  have same := nearest_eq_rounded_of_lt (le.trans_lt inside)
  rw [same] at le ⊢
  exact (abs_rounded_add_sub_le hp hq).trans
    (mul_le_mul_of_nonneg_right le (two_zpow_pos _).le)

/-- Whole numbers up to `2 ^ 53` are within the range. -/
theorem abs_intCast_lt_limit {n : ℤ} (digits : |n| ≤ 2 ^ 53) : |(n : ℚ)| < limit := by
  have size : |(n : ℚ)| ≤ 2 ^ (53 : ℤ) := by exact_mod_cast digits
  exact size.trans_lt (two_zpow_lt_limit_iff.mpr (by norm_num))

/-- Whole numbers of 53 digits are computed as they are. -/
theorem nearest_intCast {n : ℤ} (digits : |n| ≤ 2 ^ 53) : nearest n = n :=
  nearest_eq_self (kept_intCast digits) (abs_intCast_lt_limit digits).le

theorem kept_one : Kept 1 := by
  have kept := kept_intCast (n := 1) (by norm_num)
  rwa [Int.cast_one] at kept

theorem one_lt_limit : 1 < limit := by
  have inside := abs_intCast_lt_limit (n := 1) (by norm_num)
  rwa [Int.cast_one, abs_one] at inside

theorem abs_one_lt_limit : |(1 : ℚ)| < limit := by
  rw [abs_one]
  exact one_lt_limit

theorem one_le_limit : |(1 : ℚ)| ≤ limit := abs_one_lt_limit.le

theorem abs_zero_lt_limit : |(0 : ℚ)| < limit := by
  rw [abs_zero]
  exact limit_pos

theorem nearest_zero : nearest 0 = 0 :=
  nearest_eq_self kept_zero abs_zero_lt_limit.le

/-- A number of 53 digits below a rational stays below it. -/
theorem le_nearest {d q : ℚ} (kept : Kept d) (inside : |d| ≤ limit) (le : d ≤ q) :
    d ≤ nearest q := by
  have mono := nearest_mono le
  rwa [nearest_eq_self kept inside] at mono

/-- Rounding does not pass a kept number. -/
theorem nearest_le {d q : ℚ} (kept : Kept d) (inside : |d| ≤ limit) (le : q ≤ d) :
    nearest q ≤ d := by
  have mono := nearest_mono le
  rwa [nearest_eq_self kept inside] at mono

theorem nearest_le_limit (q : ℚ) : nearest q ≤ limit :=
  max_le (neg_le_self limit_pos.le) (min_le_right _ _)

/-- No result lies below the range. -/
theorem neg_limit_le_nearest (q : ℚ) : -limit ≤ nearest q := le_max_left _ _

/-- What was rounded is not rounded further. -/
theorem nearest_nearest (q : ℚ) : nearest (nearest q) = nearest q :=
  nearest_eq_self (kept_nearest q) (abs_le.mpr ⟨neg_limit_le_nearest q, nearest_le_limit q⟩)

/-- Beyond the range everything is the limit. -/
theorem nearest_of_limit_le {q : ℚ} (beyond : limit ≤ q) : nearest q = limit :=
  le_antisymm (nearest_le_limit q)
    (le_nearest kept_limit (abs_of_pos limit_pos).le beyond)

/-- Rounding does not cross zero. -/
theorem nearest_nonneg {q : ℚ} (h : 0 ≤ q) : 0 ≤ nearest q := by
  have mono := nearest_mono h
  rwa [nearest_zero] at mono

/-- Rounding treats both signs alike. -/
theorem abs_nearest (q : ℚ) : |nearest q| = nearest |q| := by
  rcases le_total 0 q with nonneg | nonpos
  · rw [abs_of_nonneg nonneg, abs_of_nonneg (nearest_nonneg nonneg)]
  · have mirrored := nearest_nonneg (neg_nonneg.mpr nonpos)
    rw [nearest_neg] at mirrored
    rw [abs_of_nonpos nonpos, abs_of_nonpos (neg_nonneg.mp mirrored), nearest_neg]

section Powers

variable {q : ℚ} {t : ℤ} (least : -1074 ≤ t) (most : t ≤ 1024)

include least most

/-- Rounding does not pass powers of two. -/
theorem two_zpow_le_nearest (le : 2 ^ t ≤ q) : 2 ^ t ≤ nearest q :=
  le_nearest (kept_two_zpow least) (abs_two_zpow_le_limit most) le

/-- Rounding does not pass a power of two. -/
theorem nearest_le_two_zpow (le : q ≤ 2 ^ t) : nearest q ≤ 2 ^ t :=
  nearest_le (kept_two_zpow least) (abs_two_zpow_le_limit most) le

/-- What is computed to be below a power of two is below it. -/
theorem lt_two_zpow_of_nearest (less : nearest q < 2 ^ t) : q < 2 ^ t := by
  by_contra large
  exact absurd less (not_lt.mpr (two_zpow_le_nearest least most (not_lt.mp large)))

end Powers

theorem two_pow_lt_limit {n : ℕ} (few : n ≤ 53) : (2 : ℚ) ^ n < limit := by
  rw [← zpow_natCast]
  exact two_zpow_lt_limit_iff.mpr (by omega)

theorem nearest_le_two_pow {q : ℚ} {n : ℕ} (few : n ≤ 53) (le : q ≤ 2 ^ n) : nearest q ≤ 2 ^ n := by
  rw [← zpow_natCast] at le ⊢
  exact nearest_le_two_zpow (by omega) (by omega) le

/-- Whole numbers and halves are held, so rounding does not pass them. -/
theorem half_le_nearest {n : ℤ} (digits : |n| ≤ 2 ^ 53) {q : ℚ} (le : (n : ℚ) / 2 ≤ q) :
    (n : ℚ) / 2 ≤ nearest q := by
  have half : (n : ℚ) / 2 = n * 2 ^ (-1 : ℤ) := by
    rw [zpow_neg_one, div_eq_mul_inv]
  have size : |(n : ℚ) / 2| ≤ limit := by
    rw [abs_div, abs_two]
    exact (half_le_self (abs_nonneg _)).trans (abs_intCast_lt_limit digits).le
  refine le_nearest ?_ size le
  rw [half]
  exact kept_of_le digits (by norm_num)

end Binary64

end Metrograph

/-
Sums, differences, products and quotients of binary64 numbers are the
rational ones, rounded.

# One rounding step

Every operation computes a whole number over some place, with what is left
over kept in a round bit and a sticky bit, and hands both to the same
rounding step. The two bits tell a rational from its neighbours in halves
(`Truncates`), also after further digits have been shifted out
(`Truncates.shift`), and halves are what rounding to the nearest looks at
(`Truncates.rounded`). So the step is right whenever the whole number was
computed at or below the last place of the result
(`roundsTo_roundWithAccuracy`), and each operation has to show no more
than that.

# Infinities

A result beyond the range becomes infinite and has the end of the range as
its value, which is what the rational result is rounded to. Of the
operations on infinite numbers themselves only those are described that do
not depend on which of them is meant.
-/
import Mathlib.Tactic.FieldSimp
import Metrograph.Proofs.Scalar.Packing

namespace Metrograph.Binary64

open Float.Model (UnpackedFloat totalExponent)
open Float.Model.Format (binary64)
open Float.Model.UnpackedFloat (Sign Accuracy ExtendedMantissa shiftToExponent
  shiftToTargetExponent roundWithAccuracy decreaseExponent divCore accuracyOfFraction)
open Scalar (nearestEven nearestEven_eq nearestEven_intCast)

-- ================================================================= units

/-- A whole number with a round bit and a sticky bit is a rational whose digits
behind the point were cut off: it is told from its neighbours in halves. -/
def Truncates (em : ExtendedMantissa) (q : ℚ) : Prop :=
  if em.roundBit then
    if em.stickyBit then em.mantissa + 1 / 2 < q ∧ q < em.mantissa + 1 else q = em.mantissa + 1 / 2
  else if em.stickyBit then em.mantissa < q ∧ q < em.mantissa + 1 / 2 else q = em.mantissa

variable {em : ExtendedMantissa} {q : ℚ}

/-- What was cut off is less than one. -/
theorem Truncates.bounds (h : Truncates em q) : (em.mantissa : ℚ) ≤ q ∧ q < em.mantissa + 1 := by
  unfold Truncates at h
  split_ifs at h <;> constructor <;> linarith

/-- The two bits decide as rounding to the nearest does. -/
theorem Truncates.rounded (h : Truncates em q) : (em.roundedMantissa : ℤ) = nearestEven q := by
  have whole : ⌊q⌋ = em.mantissa := Int.floor_eq_iff.mpr (by exact_mod_cast h.bounds)
  rw [nearestEven_eq, Int.fract, whole]
  rcases em with ⟨m, _ | _, _ | _⟩ <;>
    simp only [Truncates, if_true, if_false, Bool.false_eq_true, Int.cast_natCast] at h ⊢ <;>
    simp only [ExtendedMantissa.roundedMantissa, ExtendedMantissa.accuracy,
      Accuracy.roundToNearestEven]
  · rw [if_pos (by linarith)]
  · rw [if_pos (by linarith)]
  · rw [if_neg (by linarith), if_neg (by linarith)]
    split_ifs <;> omega
  · rw [if_neg (by linarith), if_pos (by linarith)]
    push_cast
    rfl

/-- Shifting one digit out halves what is represented. -/
theorem Truncates.half (h : Truncates em q) : Truncates em.shiftRightOne (q / 2) := by
  rcases em with ⟨m, r, s⟩
  have parts : (m : ℚ) = (m % 2 : ℕ) + 2 * (m / 2 : ℕ) := by
    exact_mod_cast (Nat.mod_add_div m 2).symm
  rcases Nat.mod_two_eq_zero_or_one m with even | odd
  · rw [even] at parts
    cases r <;> cases s <;> simp [Truncates, ExtendedMantissa.shiftRightOne, even] at h ⊢ <;>
      first | constructor <;> linarith | linarith
  · rw [odd] at parts
    cases r <;> cases s <;> simp [Truncates, ExtendedMantissa.shiftRightOne, odd] at h ⊢ <;>
      first | constructor <;> linarith | linarith

/-- Any number of digits may be shifted out. -/
theorem Truncates.shift (h : Truncates em q) (n : ℕ) : Truncates (em >>> n) (q / 2 ^ n) := by
  show Truncates (n.repeat ExtendedMantissa.shiftRightOne em) _
  induction n with
  | zero =>
    rw [pow_zero, div_one]
    exact h
  | succ n ih =>
    rw [pow_succ, ← div_div]
    exact ih.half

/-- Nothing is left over of a whole number. -/
theorem truncates_exact (m : ℕ) : Truncates (.ofMantissaAndAccuracy m .exact) m := by
  simp [Truncates, ExtendedMantissa.ofMantissaAndAccuracy]

/-- What is left of a division tells the quotient from its neighbours. -/
theorem truncates_fraction (m num den : ℕ) (lt : num < den) :
    Truncates (.ofMantissaAndAccuracy m (accuracyOfFraction num den)) (m + num / den) := by
  have positive : (0 : ℚ) < den := by exact_mod_cast (Nat.zero_le num).trans_lt lt
  unfold accuracyOfFraction
  by_cases none : num = 0
  · rw [if_pos none, none]
    simpa using truncates_exact m
  rw [if_neg none]
  have left : (0 : ℚ) < num := by exact_mod_cast Nat.pos_of_ne_zero none
  have share : (0 : ℚ) < num / den := div_pos left positive
  rcases lt_trichotomy (2 * num) den with less | half | more
  · have below : (num : ℚ) / den < 1 / 2 := by
      rw [div_lt_iff₀ positive]
      have : (2 * num : ℚ) < den := by exact_mod_cast less
      linarith
    rw [compare_lt_iff_lt.mpr less]
    simp only [Truncates, ExtendedMantissa.ofMantissaAndAccuracy, if_true, if_false,
      Bool.false_eq_true]
    constructor <;> linarith
  · have middle : (num : ℚ) / den = 1 / 2 := by
      rw [div_eq_iff positive.ne']
      have : (2 * num : ℚ) = den := by exact_mod_cast half
      linarith
    rw [compare_eq_iff_eq.mpr half, middle]
    rfl
  · have above : 1 / 2 < (num : ℚ) / den := by
      rw [lt_div_iff₀ positive]
      have : (den : ℚ) < 2 * num := by exact_mod_cast more
      linarith
    have whole : (num : ℚ) / den < 1 := (div_lt_one positive).mpr (by exact_mod_cast lt)
    rw [compare_gt_iff_gt.mpr more]
    simp only [Truncates, ExtendedMantissa.ofMantissaAndAccuracy, if_true]
    constructor <;> linarith

-- ============================================================== rounding

/-- A number in parts that has been rounded from a rational. -/
structure RoundsTo (f : UnpackedFloat) (q : ℚ) : Prop where
  canonical : Canonical f
  defined : f.isNaN = false
  worth_eq : worth f = rounded q

/-- The place that a significand is rounded to. -/
def target (m : ℕ) (e : ℤ) : ℤ := max (m.log2 + 1 + e - 53) (-1074)

theorem le_target (m : ℕ) (e : ℤ) : -1074 ≤ target m e := le_max_right _ _

/-- The second half of rounding: a significand that was carried over into one
more digit is shifted once more. -/
def settled (s : Sign) (r : ℕ) (t : ℤ) : UnpackedFloat :=
  let (em, e) := shiftToTargetExponent binary64 r t .exact
  if h : em.mantissa = 0 then .zero s else .finite s em.mantissa e (Nat.pos_of_ne_zero h)

/-- Shifting to the target place never shifts digits in. -/
theorem shiftToTargetExponent_eq (m : ℕ) (e : ℤ) (acc : Accuracy) :
    shiftToTargetExponent binary64 m e acc =
      (ExtendedMantissa.ofMantissaAndAccuracy m acc >>> (target m e - e).toNat,
        e + ((target m e - e).toNat : ℤ)) := rfl

/-- A significand of 53 digits is taken as it is. -/
theorem settled_of_lt (s : Sign) {r : ℕ} {t : ℤ} (digits : r < 2 ^ 53) (least : -1074 ≤ t) :
    settled s r t = if h : r = 0 then .zero s else .finite s r t (Nat.pos_of_ne_zero h) := by
  have stay : (target r t - t).toNat = 0 := by
    have log : r = 0 ∨ r.log2 < 53 := by
      by_cases zero : r = 0
      · exact Or.inl zero
      · exact Or.inr ((Nat.log2_lt zero).mpr digits)
    unfold target
    rcases log with rfl | log
    · have : Nat.log2 0 = 0 := rfl
      omega
    · omega
  unfold settled
  rw [shiftToTargetExponent_eq, stay]
  show (if h : r = 0 then UnpackedFloat.zero s
    else .finite s r (t + 0) (Nat.pos_of_ne_zero h)) = _
  rw [add_zero]

/-- One that carries into another digit moves its place by one. -/
theorem settled_of_carry (s : Sign) (t : ℤ) (least : -1074 ≤ t) :
    settled s (2 ^ 53) t = .finite s (2 ^ 52) (t + 1) (Nat.two_pow_pos 52) := by
  have on : (target (2 ^ 53) t - t).toNat = 1 := by
    unfold target
    rw [Nat.log2_two_pow]
    omega
  unfold settled
  rw [shiftToTargetExponent_eq, on]
  rfl

/-- The rounding step ends in a number that fits, whether or not its digits carry. -/
theorem roundsTo_settled (s : Sign) {r : ℕ} {t : ℤ} {q : ℚ} (digits : r ≤ 2 ^ 53)
    (least : -1074 ≤ t) (full : t = -1074 ∨ 2 ^ 52 ≤ r)
    (is_rounded : s.apply r * 2 ^ t = rounded q) : RoundsTo (settled s r t) q := by
  rcases digits.lt_or_eq with digits | rfl
  · rw [settled_of_lt s digits least]
    by_cases zero : r = 0
    · have none : ((s.apply (0 : ℕ) : ℤ) : ℚ) = 0 := by cases s <;> rfl
      rw [dif_pos zero]
      refine ⟨trivial, rfl, ?_⟩
      rw [← is_rounded, zero, worth_zero, none, zero_mul]
    · rw [dif_neg zero]
      exact ⟨⟨digits, least, full⟩, rfl, is_rounded⟩
  · rw [settled_of_carry s t least]
    refine ⟨⟨by norm_num, by omega, Or.inr le_rfl⟩, rfl, ?_⟩
    have halves : s.apply (2 ^ 53 : ℕ) = s.apply (2 ^ 52 : ℕ) * 2 := by
      cases s <;> norm_num [Sign.apply]
    rw [← is_rounded, halves, worth_finite, zpow_add_one₀ two_ne_zero]
    push_cast
    ring

/-- A sign is a factor, also among the rationals. -/
theorem apply_cast (s : Sign) (n : ℤ) : ((s.apply n : ℤ) : ℚ) = s.apply 1 * n := by
  cases s <;> simp [Sign.apply]

/-- Signs pass through rounding. -/
theorem rounded_apply (s : Sign) (q : ℚ) : rounded (s.apply 1 * q) = s.apply 1 * rounded q := by
  cases s <;> simp [Sign.apply, rounded_neg]

theorem mantissa_ofMantissaAndAccuracy (m : ℕ) (acc : Accuracy) :
    (ExtendedMantissa.ofMantissaAndAccuracy m acc).mantissa = m := by
  rcases acc with _ | _ | _ | _ <;> rfl

/-- From the target place on there are at most 53 digits. -/
theorem lt_two_pow_target {m : ℕ} (e : ℤ) {q : ℚ} (high : q < m + 1) :
    q * 2 ^ e < 2 ^ (target m e + 53) := by
  have next : ((m + 1 : ℕ) : ℚ) ≤ 2 ^ ((m.log2 + 1 : ℕ) : ℤ) := by
    rw [zpow_natCast]
    exact_mod_cast Nat.lt_log2_self
  calc q * 2 ^ e
      < 2 ^ ((m.log2 + 1 : ℕ) : ℤ) * 2 ^ e := by
        refine mul_lt_mul_of_pos_right (high.trans_le ?_) (two_zpow_pos e)
        exact_mod_cast next
    _ = 2 ^ (((m.log2 + 1 : ℕ) : ℤ) + e) := (zpow_add₀ two_ne_zero _ _).symm
    _ ≤ 2 ^ (target m e + 53) := by
        refine zpow_le_zpow_right₀ one_le_two ?_
        unfold target
        omega

/-- There are exactly 53, unless the target place is the last one there is. -/
theorem two_pow_target_le {m : ℕ} {e : ℤ} {q : ℚ} (low : (m : ℚ) ≤ q) (room : e ≤ target m e) :
    target m e = -1074 ∨ 2 ^ (target m e + 52) ≤ q * 2 ^ e := by
  by_cases last : target m e = -1074
  · exact Or.inl last
  have top : target m e + 52 = m.log2 + e := by
    unfold target at last ⊢
    omega
  have nonzero : m ≠ 0 := by
    rintro rfl
    have : Nat.log2 0 = 0 := rfl
    omega
  have first : ((2 ^ m.log2 : ℕ) : ℚ) ≤ q := (Nat.cast_le.mpr (Nat.log2_self_le nonzero)).trans low
  right
  rw [top, zpow_add₀ two_ne_zero, zpow_natCast]
  exact mul_le_mul_of_nonneg_right (by exact_mod_cast first) (two_zpow_pos e).le

/-- Rounding a significand that has all digits, or whose place has none further
to the right, gives the rounded rational. -/
theorem roundsTo_roundWithAccuracy (s : Sign) {m : ℕ} {e : ℤ} {acc : Accuracy} {q : ℚ}
    (truncates : Truncates (.ofMantissaAndAccuracy m acc) q) (room : e ≤ target m e) :
    RoundsTo (roundWithAccuracy binary64 s m e acc) (s.apply 1 * (q * 2 ^ e)) := by
  obtain ⟨low, high⟩ := truncates.bounds
  rw [mantissa_ofMantissaAndAccuracy] at low high
  have nonneg : 0 ≤ q * 2 ^ e := mul_nonneg ((Nat.cast_nonneg m).trans low) (two_zpow_pos e).le
  have upper : |q * 2 ^ e| < 2 ^ (target m e + 53) := by
    rw [abs_of_nonneg nonneg]
    exact lt_two_pow_target e high
  have lower := two_pow_target_le low room
  obtain ⟨n, hn⟩ := Int.eq_ofNat_of_zero_le (sub_nonneg.mpr room)
  have scaled : q / 2 ^ n = q * 2 ^ e / 2 ^ target m e := by
    have place : target m e = e + n := by omega
    rw [place, zpow_add₀ two_ne_zero, zpow_natCast]
    field_simp
  have shifted := (truncates.shift n).rounded
  rw [scaled] at shifted
  have split : roundWithAccuracy binary64 s m e acc = settled s
      (ExtendedMantissa.ofMantissaAndAccuracy m acc >>> (target m e - e).toNat).roundedMantissa
      (e + ((target m e - e).toNat : ℤ)) := rfl
  rw [split, hn, Int.toNat_natCast, ← hn, add_sub_cancel]
  generalize (ExtendedMantissa.ofMantissaAndAccuracy m acc >>> n).roundedMantissa = r at shifted
  refine roundsTo_settled s ?_ (le_target m e) ?_ ?_
  · have digits := (abs_le.mp (abs_digits_le (n := 53) upper.le)).2
    rw [← shifted] at digits
    exact_mod_cast digits
  · refine lower.imp id fun low => ?_
    have digits := le_digits (n := 52) low
    rw [← shifted] at digits
    exact_mod_cast digits
  · rw [rounded_apply, rounded_eq (le_target m e) upper, ← shifted, apply_cast, mul_assoc]
    refine lower.imp id fun low => ?_
    rwa [abs_of_nonneg nonneg]

/-- Moving to a place on the right multiplies the significand. -/
theorem decreaseExponent_eq (m : ℕ) {e t : ℤ} (le : t ≤ e) :
    decreaseExponent m e t = (m * 2 ^ (e - t).toNat, t) := by
  show (m <<< (e - t).toNat, e - ((e - t).toNat : ℤ)) = _
  rw [Nat.shiftLeft_eq, Int.toNat_of_nonneg (by omega), sub_sub_cancel]

/-- Nothing is moved to the left. -/
theorem decreaseExponent_of_le (m : ℕ) {e t : ℤ} (le : e ≤ t) :
    decreaseExponent m e t = (m, e) := by
  have none : (e - t).toNat = 0 := by omega
  show (m <<< (e - t).toNat, e - ((e - t).toNat : ℤ)) = _
  rw [none, Nat.shiftLeft_zero, Nat.cast_zero, sub_zero]

/-- Multiplying by a power of two adds digits. -/
theorem log2_mul_two_pow {m : ℕ} (nonzero : m ≠ 0) (n : ℕ) :
    (m * 2 ^ n).log2 = m.log2 + n := by
  induction n with
  | zero => rw [pow_zero, mul_one, add_zero]
  | succ n ih =>
    have shifted : m * 2 ^ (n + 1) = 2 * (m * 2 ^ n) := by ring
    rw [shifted, Nat.log2_two_mul (by positivity), ih, add_assoc]

/-- Moving to another place does not change what is represented. -/
theorem decreased_worth (m : ℕ) {e t : ℤ} (le : t ≤ e) :
    ((m * 2 ^ (e - t).toNat : ℕ) : ℚ) * 2 ^ t = m * 2 ^ e := by
  obtain ⟨n, hn⟩ := Int.eq_ofNat_of_zero_le (sub_nonneg.mpr le)
  obtain rfl : e = n + t := by omega
  rw [hn, Int.toNat_natCast, zpow_add₀ two_ne_zero, zpow_natCast]
  push_cast
  ring

/-- Rounding a number in parts that is exact so far. -/
theorem roundsTo_round (s : Sign) {m : ℕ} (positive : 0 < m) (e : ℤ) :
    RoundsTo (UnpackedFloat.round binary64 s m e) (s.apply 1 * (m * 2 ^ e)) := by
  show RoundsTo (roundWithAccuracy binary64 s (decreaseExponent m e (target m e)).1
    (decreaseExponent m e (target m e)).2 .exact) _
  rcases le_total e (target m e) with room | wide
  · rw [decreaseExponent_of_le m room]
    exact roundsTo_roundWithAccuracy s (truncates_exact m) room
  · rw [decreaseExponent_eq m wide, ← decreased_worth m wide]
    refine roundsTo_roundWithAccuracy s (truncates_exact _) ?_
    obtain ⟨n, hn⟩ := Int.eq_ofNat_of_zero_le (sub_nonneg.mpr wide)
    have log : (m * 2 ^ n).log2 = m.log2 + n := log2_mul_two_pow positive.ne' n
    rw [hn, Int.toNat_natCast]
    unfold target at hn ⊢
    rw [log]
    omega

/-- The same of a significand with its sign. -/
theorem roundsTo_normalize (n e : ℤ) (zero : Sign) :
    RoundsTo (UnpackedFloat.normalize binary64 n e zero) (n * 2 ^ e) := by
  unfold UnpackedFloat.normalize
  obtain ⟨m, rfl | rfl⟩ := Int.eq_nat_or_neg n
  · rcases Nat.eq_zero_or_pos m with rfl | positive
    · exact ⟨trivial, rfl, (worth_zero zero).trans (by simp [rounded_zero])⟩
    · have rounds := roundsTo_round .positive positive e
      rw [compare_gt_iff_gt.mpr (by exact_mod_cast positive)]
      simpa [Sign.apply] using rounds
  · rcases Nat.eq_zero_or_pos m with rfl | positive
    · exact ⟨trivial, rfl, (worth_zero zero).trans (by simp [rounded_zero])⟩
    · have rounds := roundsTo_round .negative positive e
      rw [compare_lt_iff_lt.mpr (by omega)]
      simpa [Sign.apply] using rounds

-- ============================================================ operations

/-- The parts of a number that fits stand for a kept rational. -/
theorem kept_worth {f : UnpackedFloat} (h : Canonical f) : Kept (worth f) := by
  rcases f with (_ | _) | _ | _ | ⟨(_ | _), m, e, hm⟩
  · rw [worth_infinity_negative]
    exact kept_limit.neg
  · rw [worth_infinity_positive]
    exact kept_limit
  · exact kept_zero
  · exact kept_zero
  · rw [worth_neg_sign]
    exact Kept.neg ⟨m, e, by exact_mod_cast h.digits, h.least, rfl⟩
  · exact ⟨m, e, by exact_mod_cast h.digits, h.least, rfl⟩

/-- A number that fits is rounded already. -/
theorem roundsTo_self {f : UnpackedFloat} (h : Canonical f) (defined : f.isNaN = false) :
    RoundsTo f (worth f) :=
  ⟨h, defined, (rounded_eq_self (kept_worth h)).symm⟩

theorem roundsTo_zero (s : Sign) : RoundsTo (.zero s) 0 := roundsTo_self trivial rfl

theorem worth_neg (f : UnpackedFloat) : worth f.neg = -worth f := by
  rcases f with (_ | _) | _ | _ | ⟨(_ | _), m, e, hm⟩
  · exact worth_infinity_positive.trans (neg_eq_iff_eq_neg.mpr worth_infinity_negative).symm
  · exact worth_infinity_negative.trans (congrArg _ worth_infinity_positive.symm)
  · exact neg_zero.symm
  · exact neg_zero.symm
  · exact (neg_eq_iff_eq_neg.mpr (worth_neg_sign m e hm)).symm
  · exact worth_neg_sign m e hm

variable {a b : UnpackedFloat}

/-- Moving to another place does not change what is represented, signs included. -/
theorem decreased_apply (s : Sign) (m : ℕ) {e t : ℤ} (le : t ≤ e) :
    ((s.apply (decreaseExponent m e t).1 : ℤ) : ℚ) * 2 ^ t = s.apply m * 2 ^ e := by
  rw [decreaseExponent_eq m le, apply_cast, apply_cast s m, mul_assoc, mul_assoc]
  exact congrArg _ (by exact_mod_cast decreased_worth m le)

/-- The sum is computed exactly at the smaller place, and then rounded. -/
theorem roundsTo_add (ha : Canonical a) (hb : Canonical b) (fa : a.isFinite = true)
    (fb : b.isFinite = true) : RoundsTo (UnpackedFloat.add binary64 a b) (worth a + worth b) := by
  rcases a with _ | _ | s | ⟨s, m, e, hm⟩
  · cases fa
  · cases fa
  · rcases b with _ | _ | s' | ⟨s', n, f, hn⟩
    · cases fb
    · cases fb
    · rw [worth_zero, worth_zero, add_zero]
      cases s <;> cases s' <;> exact roundsTo_zero _
    · rw [worth_zero, zero_add]
      exact roundsTo_self hb rfl
  · rcases b with _ | _ | s' | ⟨s', n, f, hn⟩
    · cases fb
    · cases fb
    · rw [worth_zero, add_zero]
      exact roundsTo_self ha rfl
    · have rounds := roundsTo_normalize (s.apply (decreaseExponent m e (min e f)).1
        + s'.apply (decreaseExponent n f (min e f)).1) (min e f) .positive
      rw [Int.cast_add, add_mul, decreased_apply s m (min_le_left e f),
        decreased_apply s' n (min_le_right e f)] at rounds
      exact rounds

/-- A difference is the sum with the negated number. -/
theorem roundsTo_sub (ha : Canonical a) (hb : Canonical b) (fa : a.isFinite = true)
    (fb : b.isFinite = true) : RoundsTo (UnpackedFloat.sub binary64 a b) (worth a - worth b) := by
  rcases a with _ | _ | s | ⟨s, m, e, hm⟩
  · cases fa
  · cases fa
  · rcases b with _ | _ | s' | ⟨s', n, f, hn⟩
    · cases fb
    · cases fb
    · rw [worth_zero, worth_zero, sub_zero]
      cases s <;> cases s' <;> exact roundsTo_zero _
    · rw [worth_zero, zero_sub, ← worth_neg]
      exact roundsTo_self hb rfl
  · rcases b with _ | _ | s' | ⟨s', n, f, hn⟩
    · cases fb
    · cases fb
    · rw [worth_zero, sub_zero]
      exact roundsTo_self ha rfl
    · have rounds := roundsTo_normalize (s.apply (decreaseExponent m e (min e f)).1
        - s'.apply (decreaseExponent n f (min e f)).1) (min e f) .positive
      rw [Int.cast_sub, sub_mul, decreased_apply s m (min_le_left e f),
        decreased_apply s' n (min_le_right e f)] at rounds
      exact rounds

/-- A product of significands has all digits, or its place is far to the right. -/
theorem Fits.mul_room {m n : ℕ} {e f : ℤ} (h : Fits m e) (h' : Fits n f) (hm : 0 < m)
    (hn : 0 < n) : e + f ≤ target (m * n) (e + f) := by
  have product : 0 < m * n := Nat.mul_pos hm hn
  by_cases all : 2 ^ 52 ≤ m * n
  · have log := (Nat.le_log2 product.ne').mpr all
    unfold target
    omega
  · have least_m : e = -1074 := h.full.resolve_right fun wide =>
      all (wide.trans (Nat.le_mul_of_pos_right m hn))
    have least_n : f = -1074 := h'.full.resolve_right fun wide =>
      all (wide.trans (Nat.le_mul_of_pos_left n hm))
    have := le_target (m * n) (e + f)
    omega

/-- The sign of a product. -/
theorem apply_mul_sign (s s' : Sign) : (((s * s').apply 1 : ℤ) : ℚ) = s.apply 1 * s'.apply 1 := by
  have signs : (s * s').apply 1 = s.apply 1 * s'.apply 1 := by cases s <;> cases s' <;> rfl
  rw [signs, Int.cast_mul]

/-- The sign of a quotient. -/
theorem apply_div_sign (s s' : Sign) : (((s / s').apply 1 : ℤ) : ℚ) = s.apply 1 / s'.apply 1 := by
  have signs : (s / s').apply 1 = s.apply 1 * s'.apply 1 := by cases s <;> cases s' <;> rfl
  rw [signs, Int.cast_mul]
  cases s <;> cases s' <;> norm_num [Sign.apply]

/-- A product is computed digit by digit and then rounded. -/
theorem mul_finite (s s' : Sign) {m n : ℕ} (e f : ℤ) (hm : 0 < m) (hn : 0 < n) :
    UnpackedFloat.mul binary64 (.finite s m e hm) (.finite s' n f hn) =
      roundWithAccuracy binary64 (s * s') (m * n) (e + f) .exact := rfl

/-- A quotient is computed to enough digits and then rounded. -/
theorem div_finite (s s' : Sign) {m n : ℕ} (e f : ℤ) (hm : 0 < m) (hn : 0 < n) :
    UnpackedFloat.div binary64 (.finite s m e hm) (.finite s' n f hn) =
      roundWithAccuracy binary64 (s / s') (divCore binary64 m e n f).1
        (divCore binary64 m e n f).2.1 (divCore binary64 m e n f).2.2 := rfl

/-- The product of the significands is exact before it is rounded. -/
theorem roundsTo_mul (ha : Canonical a) (hb : Canonical b) (fa : a.isFinite = true)
    (fb : b.isFinite = true) : RoundsTo (UnpackedFloat.mul binary64 a b) (worth a * worth b) := by
  rcases a with _ | _ | s | ⟨s, m, e, hm⟩
  · cases fa
  · cases fa
  · rcases b with _ | _ | s' | ⟨s', n, f, hn⟩
    · cases fb
    · cases fb
    · rw [worth_zero, zero_mul]
      exact roundsTo_zero _
    · rw [worth_zero, zero_mul]
      exact roundsTo_zero _
  · rcases b with _ | _ | s' | ⟨s', n, f, hn⟩
    · cases fb
    · cases fb
    · rw [worth_zero, mul_zero]
      exact roundsTo_zero _
    · have rounds := roundsTo_roundWithAccuracy (s * s') (truncates_exact (m * n))
        (Fits.mul_room ha hb hm hn)
      have product : (((s * s').apply 1 : ℤ) : ℚ) * ((m * n : ℕ) * 2 ^ (e + f))
          = worth (.finite s m e hm) * worth (.finite s' n f hn) := by
        rw [worth_finite, worth_finite, apply_cast s m, apply_cast s' n, apply_mul_sign,
          zpow_add₀ two_ne_zero]
        push_cast
        ring
      rw [mul_finite, ← product]
      exact rounds

/-- The place that a division goes to before it is rounded. -/
def quotientPlace (m : ℕ) (e : ℤ) (n : ℕ) (f : ℤ) : ℤ :=
  min (e - f) (max (m.log2 + 1 + e - (n.log2 + 1 + f) - 53) (-1074))

/-- The digits of a quotient, its place, and what the remainder tells of the rest. -/
theorem divCore_eq (m : ℕ) (e : ℤ) (n : ℕ) (f : ℤ) :
    divCore binary64 m e n f =
      (m * 2 ^ (e - f - quotientPlace m e n f).toNat / n, quotientPlace m e n f,
        accuracyOfFraction (m * 2 ^ (e - f - quotientPlace m e n f).toNat % n) n) := by
  rw [← Nat.shiftLeft_eq]
  rfl

/-- The dividend is only ever lengthened. -/
theorem quotientPlace_le (m : ℕ) (e : ℤ) (n : ℕ) (f : ℤ) : quotientPlace m e n f ≤ e - f :=
  min_le_left _ _

/-- A quotient has all digits, or its place is far to the right. -/
theorem quotient_room {m n : ℕ} (hm : 0 < m) (hn : 0 < n) (e f : ℤ) :
    quotientPlace m e n f ≤ target (m * 2 ^ (e - f - quotientPlace m e n f).toNat / n)
      (quotientPlace m e n f) := by
  obtain ⟨k, hk⟩ := Int.eq_ofNat_of_zero_le (sub_nonneg.mpr (quotientPlace_le m e n f))
  rw [hk, Int.toNat_natCast]
  by_cases last : quotientPlace m e n f ≤ -1074
  · exact last.trans (le_target _ _)
  have steps : n.log2 + 53 ≤ m.log2 + k := by
    unfold quotientPlace at last hk
    omega
  have large : n * 2 ^ 52 ≤ m * 2 ^ k :=
    calc n * 2 ^ 52 ≤ 2 ^ (n.log2 + 1) * 2 ^ 52 := Nat.mul_le_mul_right _ Nat.lt_log2_self.le
      _ = 2 ^ (n.log2 + 53) := by rw [← pow_add]
      _ ≤ 2 ^ (m.log2 + k) := Nat.pow_le_pow_right two_pos steps
      _ = 2 ^ m.log2 * 2 ^ k := pow_add _ _ _
      _ ≤ m * 2 ^ k := Nat.mul_le_mul_right _ (Nat.log2_self_le hm.ne')
  have all : 2 ^ 52 ≤ m * 2 ^ k / n := (Nat.le_div_iff_mul_le hn).mpr (by rwa [mul_comm])
  have log := (Nat.le_log2 (by omega)).mpr all
  unfold target
  omega

/-- A whole quotient and what its remainder tells of the rest. -/
theorem truncates_quotient (m : ℕ) {n : ℕ} (hn : 0 < n) :
    Truncates (.ofMantissaAndAccuracy (m / n) (accuracyOfFraction (m % n) n)) (m / n : ℚ) := by
  have positive : (0 : ℚ) < n := by exact_mod_cast hn
  have parts : (m : ℚ) = n * (m / n : ℕ) + (m % n : ℕ) := by
    exact_mod_cast (Nat.div_add_mod m n).symm
  have quotient : (m : ℚ) / n = (m / n : ℕ) + (m % n : ℕ) / n := by
    rw [div_eq_iff positive.ne', add_mul, div_mul_cancel₀ _ positive.ne', mul_comm]
    exact parts
  rw [quotient]
  exact truncates_fraction _ _ _ (Nat.mod_lt m hn)

/-- Lengthening the dividend does not change the quotient. -/
theorem quotient_value (m : ℕ) (e : ℤ) {n : ℕ} (hn : 0 < n) (f : ℤ) :
    ((m * 2 ^ (e - f - quotientPlace m e n f).toNat : ℕ) / n : ℚ) * 2 ^ quotientPlace m e n f
      = m * 2 ^ e / (n * 2 ^ f) := by
  have positive : (n : ℚ) ≠ 0 := by exact_mod_cast hn.ne'
  have place := two_zpow_pos f
  have moved := decreased_worth m (quotientPlace_le m e n f)
  rw [zpow_sub₀ two_ne_zero] at moved
  rw [div_mul_eq_mul_div, moved]
  field_simp

/-- A quotient has enough digits for one rounding to be right. -/
theorem roundsTo_div (ha : Canonical a) (hb : Canonical b) (fa : a.isFinite = true)
    (fb : b.isFinite = true) (nonzero : worth b ≠ 0) :
    RoundsTo (UnpackedFloat.div binary64 a b) (worth a / worth b) := by
  rcases b with _ | _ | s' | ⟨s', n, f, hn⟩
  · cases fb
  · cases fb
  · exact absurd rfl nonzero
  · rcases a with _ | _ | s | ⟨s, m, e, hm⟩
    · cases fa
    · cases fa
    · rw [worth_zero, zero_div]
      exact roundsTo_zero _
    · have rounds := roundsTo_roundWithAccuracy (s / s')
        (truncates_quotient (m * 2 ^ (e - f - quotientPlace m e n f).toNat) hn)
        (quotient_room hm hn e f)
      have quotient : worth (.finite s m e hm) / worth (.finite s' n f hn)
          = (s / s').apply 1 * (m * 2 ^ e / (n * 2 ^ f)) := by
        rw [worth_finite, worth_finite, apply_cast s m, apply_cast s' n, apply_div_sign, mul_assoc,
          mul_assoc, mul_div_mul_comm]
        rfl
      rw [div_finite, divCore_eq, quotient, ← quotient_value m e hn f]
      exact rounds

-- =============================================================== floats

/-- An infinity swallows every summand but the other infinity. -/
theorem add_infinity {f : UnpackedFloat} {s : Sign} (h : f.isFinite = true ∨ f = .infinity s) :
    UnpackedFloat.add binary64 (.infinity s) f = .infinity s
      ∧ UnpackedFloat.add binary64 f (.infinity s) = .infinity s := by
  rcases h with finite | rfl
  · cases f with
    | notANumber => cases finite
    | infinity s' => cases finite
    | zero s' => exact ⟨rfl, rfl⟩
    | finite s' m e hm => exact ⟨rfl, rfl⟩
  · cases s <;> exact ⟨rfl, rfl⟩

/-- An infinity stays one if something finite is taken from it, or it from
something finite. -/
theorem sub_infinity {f : UnpackedFloat} (s : Sign) (finite : f.isFinite = true) :
    UnpackedFloat.sub binary64 (.infinity s) f = .infinity s
      ∧ UnpackedFloat.sub binary64 f (.infinity s) = .infinity (-s) := by
  cases f with
  | notANumber => cases finite
  | infinity s' => cases finite
  | zero s' => exact ⟨rfl, rfl⟩
  | finite s' m e hm => exact ⟨rfl, rfl⟩

/-- The infinities have the ends of the range as their values. -/
theorem hasValue_infinity (s : Sign) :
    HasValue (.ofModel (.pack (.infinity s))) (worth (.infinity s)) := by
  have packed := hasValue_pack (f := .infinity s) trivial rfl
  obtain ⟨low, high⟩ := abs_le.mp (inKindRange_worth (f := .infinity s) ⟨trivial, rfl⟩).size_le
  rwa [min_eq_left high, max_eq_right low] at packed

namespace HasValue

variable {x y : Float} {p q : ℚ}

/-- A number that was rounded in parts has as float the nearest value in range. -/
theorem ofRounded {f : UnpackedFloat} (h : RoundsTo f q) :
    HasValue (.ofModel (.pack f)) (nearest q) := by
  have packed := hasValue_pack h.canonical h.defined
  rwa [h.worth_eq] at packed

/-- A value inside the range is that of a finite number. -/
theorem isFinite_unpack (hx : HasValue x p) (finite : |p| < limit) :
    x.toModel.unpack.isFinite = true := hx.isFinite_iff.mpr finite

/-- The sum of finite numbers is the sum of their values, rounded. -/
theorem add (hx : HasValue x p) (hy : HasValue y q) (fx : |p| < limit) (fy : |q| < limit) :
    HasValue (x + y) (nearest (p + q)) := by
  have rounds := roundsTo_add (packed_toModel x).1 (packed_toModel y).1 (hx.isFinite_unpack fx)
    (hy.isFinite_unpack fy)
  rw [← value_eq_worth, ← value_eq_worth, hx.value_eq, hy.value_eq] at rounds
  exact ofRounded rounds

/-- A difference of finite numbers is the rational one, rounded. -/
theorem sub (hx : HasValue x p) (hy : HasValue y q) (fx : |p| < limit) (fy : |q| < limit) :
    HasValue (x - y) (nearest (p - q)) := by
  have rounds := roundsTo_sub (packed_toModel x).1 (packed_toModel y).1 (hx.isFinite_unpack fx)
    (hy.isFinite_unpack fy)
  rw [← value_eq_worth, ← value_eq_worth, hx.value_eq, hy.value_eq] at rounds
  exact ofRounded rounds

/-- A product of finite numbers is the rational one, rounded. -/
theorem mul (hx : HasValue x p) (hy : HasValue y q) (fx : |p| < limit) (fy : |q| < limit) :
    HasValue (x * y) (nearest (p * q)) := by
  have rounds := roundsTo_mul (packed_toModel x).1 (packed_toModel y).1 (hx.isFinite_unpack fx)
    (hy.isFinite_unpack fy)
  rw [← value_eq_worth, ← value_eq_worth, hx.value_eq, hy.value_eq] at rounds
  exact ofRounded rounds

/-- A quotient of finite numbers is the rational one, rounded, unless it divides
by zero. -/
theorem div (hx : HasValue x p) (hy : HasValue y q) (fx : |p| < limit) (fy : |q| < limit)
    (nonzero : q ≠ 0) : HasValue (x / y) (nearest (p / q)) := by
  have divisor : worth y.toModel.unpack ≠ 0 := by rwa [← value_eq_worth, hy.value_eq]
  have rounds := roundsTo_div (packed_toModel x).1 (packed_toModel y).1 (hx.isFinite_unpack fx)
    (hy.isFinite_unpack fy) divisor
  rw [← value_eq_worth, ← value_eq_worth, hx.value_eq, hy.value_eq] at rounds
  exact ofRounded rounds

/-- A defined number is inside the range or one of the infinities. -/
theorem finite_or_infinite (hx : HasValue x p) :
    |p| < limit ∨ ∃ s, x.toModel.unpack = .infinity s ∧ p = worth (.infinity s) := by
  by_cases finite : |p| < limit
  · exact Or.inl finite
  · right
    have infinite : ¬ x.toModel.unpack.isFinite = true := fun h => finite (hx.isFinite_iff.mp h)
    have defined : x.toModel.unpack.isNaN = false := hx.defined
    have own := hx.value_eq
    rw [value_eq_worth] at own
    revert infinite defined own
    cases x.toModel.unpack with
    | infinity s => exact fun _ _ own => ⟨s, rfl, own.symm⟩
    | notANumber => exact fun _ defined => by cases defined
    | zero s => exact fun infinite => absurd rfl infinite
    | finite s m e hm => exact fun infinite => absurd rfl infinite

/-- A finite number makes no difference to an infinite one, nor does a positive
factor. -/
theorem of_infinite (hx : HasValue x p) (infinite : ¬ |p| < limit) (hy : HasValue y q)
    (finite : |q| < limit) : HasValue (x + y) p ∧ (0 < q → HasValue (x * y) p) := by
  obtain ⟨s, shape, rfl⟩ := hx.finite_or_infinite.resolve_left infinite
  have other := hy.isFinite_unpack finite
  constructor
  · show HasValue (.ofModel (.pack (UnpackedFloat.add binary64 _ _))) _
    rw [shape, (add_infinity (Or.inl other)).1]
    exact hasValue_infinity s
  · intro positive
    show HasValue (.ofModel (.pack (UnpackedFloat.mul binary64 _ _))) _
    have inside := hy.inKindRange
    revert inside other
    rw [shape]
    rcases y.toModel.unpack with _ | _ | s' | ⟨(_ | _), m, e, hm⟩ <;> intro other inside
    · cases other
    · cases other
    · exact absurd inside positive.ne'
    · exact absurd inside.2 positive.not_gt
    · cases s <;> exact hasValue_infinity _

/-- A difference of which one number is infinite and the other finite. -/
theorem sub_of_infinite (hx : HasValue x p) (infinite : ¬ |p| < limit) (hy : HasValue y q)
    (finite : |q| < limit) : HasValue (x - y) p ∧ HasValue (y - x) (-p) := by
  obtain ⟨s, shape, rfl⟩ := hx.finite_or_infinite.resolve_left infinite
  obtain ⟨minuend, subtrahend⟩ := sub_infinity s (hy.isFinite_unpack finite)
  constructor
  · show HasValue (.ofModel (.pack (UnpackedFloat.sub binary64 _ _))) _
    rw [shape, minuend]
    exact hasValue_infinity s
  · show HasValue (.ofModel (.pack (UnpackedFloat.sub binary64 _ _))) _
    rw [shape, subtrahend, ← worth_neg]
    exact hasValue_infinity (-s)

/-- Divided by an infinity everything finite is zero. -/
theorem div_infinite (hx : HasValue x p) (hy : HasValue y q) (fx : |p| < limit)
    (infinite : ¬ |q| < limit) : HasValue (x / y) 0 := by
  obtain ⟨s, shape, -⟩ := hy.finite_or_infinite.resolve_left infinite
  have finite := hx.isFinite_unpack fx
  show HasValue (.ofModel (.pack (UnpackedFloat.div binary64 _ _))) _
  rw [shape]
  revert finite
  cases x.toModel.unpack with
  | notANumber => exact nofun
  | infinity s' => exact nofun
  | zero s' => exact fun _ => nearest_zero ▸ ofRounded (roundsTo_zero _)
  | finite s' m e hm => exact fun _ => nearest_zero ▸ ofRounded (roundsTo_zero _)

/-- An infinite summand makes a sum infinite, which is as far as rounding goes. -/
theorem add_of_nonneg (hx : HasValue x p) (hy : HasValue y q) (hp : 0 ≤ p) (hq : 0 ≤ q) :
    HasValue (x + y) (nearest (p + q)) := by
  have shape : ∀ {z : Float} {r : ℚ}, HasValue z r → 0 ≤ r →
      |r| < limit ∨ z.toModel.unpack = .infinity .positive ∧ r = limit := by
    intro z r hz nonneg
    refine hz.finite_or_infinite.imp id ?_
    rintro ⟨_ | _, infinite, rfl⟩
    · have far := limit_pos
      have negative := worth_infinity_negative
      linarith
    · exact ⟨infinite, worth_infinity_positive⟩
  have infinite : limit ≤ p + q → UnpackedFloat.add binary64 x.toModel.unpack y.toModel.unpack
      = .infinity .positive → HasValue (x + y) (nearest (p + q)) := by
    intro beyond sum
    show HasValue (.ofModel (.pack (UnpackedFloat.add binary64 _ _))) _
    rw [sum, nearest_of_limit_le beyond, ← worth_infinity_positive]
    exact hasValue_infinity .positive
  rcases shape hx hp with fx | ⟨ux, rfl⟩
  · rcases shape hy hq with fy | ⟨uy, rfl⟩
    · exact hx.add hy fx fy
    · refine infinite (le_add_of_nonneg_left hp) ?_
      rw [uy]
      exact (add_infinity (Or.inl (hx.isFinite_unpack fx))).2
  · refine infinite (le_add_of_nonneg_right hq) ?_
    rw [ux]
    rcases shape hy hq with fy | ⟨uy, rfl⟩
    · exact (add_infinity (Or.inl (hy.isFinite_unpack fy))).1
    · exact (add_infinity (Or.inr uy)).1

end HasValue

/-- The value of a number is kept. -/
theorem HasValue.kept {x : Float} {p : ℚ} (hx : HasValue x p) : Kept p := by
  rw [← hx.value_eq, value_eq_worth]
  exact kept_worth (packed_toModel x).1

/-- A value is a number of 53 digits within the range. -/
theorem HasValue.nearest_eq {x : Float} {p : ℚ} (hx : HasValue x p) : nearest p = p :=
  nearest_eq_self hx.kept hx.size_le

/-- A sign is turned around without rounding. -/
theorem HasValue.neg {x : Float} {p : ℚ} (hx : HasValue x p) : HasValue (-x) (-p) := by
  have canonical : Canonical x.toModel.unpack.neg := by
    have own := (packed_toModel x).1
    revert own
    cases x.toModel.unpack <;> exact id
  have defined : x.toModel.unpack.neg.isNaN = false := by
    have own : x.toModel.unpack.isNaN = false := hx.defined
    revert own
    cases x.toModel.unpack <;> exact id
  have packed := hasValue_pack canonical defined
  obtain ⟨low, high⟩ := abs_le.mp hx.size_le
  rw [worth_neg, ← value_eq_worth, hx.value_eq, min_eq_left (by linarith),
    max_eq_right (by linarith)] at packed
  exact packed

theorem hasValue_oneBits : HasValue (.ofBits 0x3FF0000000000000) 1 :=
  ⟨by decide +kernel, by decide +kernel⟩

theorem powersOfTen_zero (h : 0 < Float.exactlyRepresentablePowersOfTen.size) :
    Float.exactlyRepresentablePowersOfTen[0] = .ofBits 0x3FF0000000000000 := rfl

/-- A word of 64 bits becomes the number nearest to it. -/
theorem hasValue_toFloat {n : ℕ} (small : n < 2 ^ 64) :
    HasValue n.toUInt64.toFloat (nearest n) := by
  have rounds := roundsTo_normalize n.toUInt64.toNat 0 .positive
  have whole : ((n.toUInt64.toNat : ℤ) : ℚ) * 2 ^ (0 : ℤ) = n := by
    have same : n.toUInt64.toNat = n := UInt64.toNat_ofNat_of_lt small
    rw [zpow_zero, mul_one, Int.cast_natCast, same]
  rw [whole] at rounds
  exact HasValue.ofRounded rounds

/-- Without decimal places there is one rounding and no division. -/
theorem ofScientific_zero {n : ℕ} (nonzero : n ≠ 0) :
    UnpackedFloat.ofScientific binary64 n 0 =
      roundWithAccuracy binary64 .positive (n * 2 ^ 53) (-53) .exact := by
  unfold UnpackedFloat.ofScientific
  have wide : ¬ (0 : ℤ) > 2 ^ 11 := by norm_num
  have narrow : ¬ (0 : ℤ) < -(2 ^ 11 + n.log2) := by omega
  have significand : n <<< binary64.mantissaBits * 10 ^ Int.toNat 0 = n * 2 ^ 53 := by
    rw [Nat.shiftLeft_eq]
    exact mul_one _
  rw [dif_neg nonzero, if_neg wide, if_neg narrow, if_pos le_rfl, mul_finite, significand]
  rfl

theorem abs_natCast_le {n : ℕ} (small : n ≤ 2 ^ 53) : |(n : ℤ)| ≤ 2 ^ 53 := by
  rw [abs_of_nonneg (by omega)]
  exact_mod_cast small

/-- A whole number becomes the float nearest to it, however many digits it has. -/
theorem hasValue_ofNat (n : ℕ) : HasValue (Float.ofNat n) (nearest n) := by
  show HasValue (Float.ofScientific n false 0) _
  unfold Float.ofScientific
  by_cases small : n < 2 ^ 53 ∧ 0 ≤ 22
  · rw [dif_pos small]
    simp only [Bool.false_eq_true, if_false, powersOfTen_zero]
    have read := hasValue_toFloat (n := n) (by omega)
    have digits := abs_natCast_le (n := n) (by omega)
    have whole : nearest n = n := nearest_intCast digits
    rw [whole] at read ⊢
    have product := read.mul hasValue_oneBits (abs_intCast_lt_limit digits)
      (abs_intCast_lt_limit (n := 1) (by norm_num))
    rwa [mul_one, whole] at product
  · rw [dif_neg small]
    simp only [Bool.false_eq_true, if_false]
    have nonzero : n ≠ 0 := by omega
    have room : -53 ≤ target (n * 2 ^ 53) (-53) := by
      unfold target
      rw [log2_mul_two_pow nonzero]
      omega
    have rounds := roundsTo_roundWithAccuracy .positive (truncates_exact (n * 2 ^ 53)) room
    have whole : ((Sign.positive.apply 1 : ℤ) : ℚ) * ((n * 2 ^ 53 : ℕ) * 2 ^ (-53 : ℤ)) = n := by
      have unit : (2 : ℚ) ^ 53 * 2 ^ (-53 : ℤ) = 1 := by norm_num
      have sign : Sign.positive.apply 1 = 1 := rfl
      rw [sign, Nat.cast_mul, Nat.cast_pow, Nat.cast_ofNat, mul_assoc (n : ℚ), unit]
      simp
    rw [whole, ← ofScientific_zero nonzero] at rounds
    exact HasValue.ofRounded rounds

/-- A whole number becomes the number nearest to it. -/
theorem hasValue_ofInt (n : ℤ) : HasValue (Scalar.ofInt n) (nearest n) := by
  cases n with
  | ofNat n => exact hasValue_ofNat n
  | negSucc n =>
    have positive := (hasValue_ofNat (n + 1)).neg
    rw [← nearest_neg] at positive
    rw [Int.negSucc_eq]
    push_cast at positive ⊢
    exact positive

theorem hasValue_zero : HasValue Scalar.zero 0 := by
  have zero := hasValue_ofInt 0
  rwa [Int.cast_zero, nearest_zero] at zero

theorem hasValue_one : HasValue Scalar.one 1 := by
  have one := hasValue_ofInt 1
  rwa [Int.cast_one, nearest_eq_self kept_one one_le_limit] at one

/-- A count that is not too large is held. -/
theorem hasValue_count {n : ℕ} (small : n ≤ 2 ^ 53) : HasValue (Scalar.ofNat n) n := by
  have held : nearest n = n := nearest_intCast (abs_natCast_le small)
  rw [← held]
  exact hasValue_ofInt n

/-- The floor of a number is that of its value. -/
theorem HasValue.floor_eq {x : Float} {p : ℚ} (hx : HasValue x p) : Scalar.floor x = ⌊p⌋ := by
  rw [← hx.value_eq]
  rfl

/-- The ceiling of a number is that of its value. -/
theorem HasValue.ceil_eq {x : Float} {p : ℚ} (hx : HasValue x p) : Scalar.ceil x = ⌈p⌉ := by
  rw [← hx.value_eq, Scalar.ceil, Rat.ceil_eq_neg_floor_neg]
  rfl

/-- Rounding down is rounded once more, since a large floor may not be kept. -/
theorem HasValue.roundDown {x : Float} {p : ℚ} (hx : HasValue x p) :
    HasValue (Scalar.roundDown x) (nearest ⌊p⌋) := by
  rw [← hx.value_eq]
  exact hasValue_ofInt _

end Metrograph.Binary64

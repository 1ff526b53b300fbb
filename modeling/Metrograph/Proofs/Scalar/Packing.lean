/-
Binary64 numbers in parts, in bits, and as rationals.

# One form for each number

A finite number has many writings as a significand over a place. Only one
of them fits 53 binary digits and uses them all, or stands at the last
place there is (`Fits`); arithmetic ends in this form, and the bits of a
number are read back to it (`packed_unpack`). So packing followed by
unpacking changes nothing but numbers beyond the range, which become
infinite (`unpack_pack`).

# One rational for each number

A number is defined and stands for a rational, the infinities for the two
ends of the range (`HasValue`). That is all the later modules need to know
of a number: numbers are compared as their rationals (`HasValue.lt_iff`,
`HasValue.le_iff`) and are finite inside the range
(`HasValue.isFinite_iff`).
-/
import Metrograph.Proofs.Scalar.Nearest
import Metrograph.Proofs.Scalar.Order

namespace Metrograph.Binary64

open Float.Model (UnpackedFloat)
open Float.Model.Format (binary64)
open Float.Model.UnpackedFloat (Sign pack unpack packComponents packedInfinity packedZero packedNaN
  unpackMantissa unpackExponent unpackSign)

-- ========================================================== canonical parts

/-- A significand of 53 binary digits over a place, with all digits in use
unless there is no place further to the right. -/
structure Fits (m : ℕ) (e : ℤ) : Prop where
  digits : m < 2 ^ 53
  least : -1074 ≤ e
  full : e = -1074 ∨ 2 ^ 52 ≤ m

/-- A number whose significand fits its place. -/
def Canonical : UnpackedFloat → Prop
  | .finite _ m e _ => Fits m e
  | _ => True

/-- The rational that a number in parts stands for. -/
def worth : UnpackedFloat → ℚ
  | .notANumber => 0
  | .infinity s => s.apply 1 * limit
  | .zero _ => 0
  | .finite s m e _ => s.apply m * 2 ^ e

theorem worth_zero (s : Sign) : worth (.zero s) = 0 := rfl

theorem worth_finite (s : Sign) {m : ℕ} (e : ℤ) (positive : 0 < m) :
    worth (.finite s m e positive) = s.apply m * 2 ^ e := rfl

theorem worth_pos_sign (m : ℕ) (e : ℤ) (positive : 0 < m) :
    worth (.finite .positive m e positive) = m * 2 ^ e := rfl

/-- What a negative number stands for. -/
theorem worth_neg_sign (m : ℕ) (e : ℤ) (positive : 0 < m) :
    worth (.finite .negative m e positive) = -(m * 2 ^ e) := by
  show ((-(m : ℤ) : ℤ) : ℚ) * 2 ^ e = _
  rw [Int.cast_neg, Int.cast_natCast, neg_mul]

/-- The infinities stand for the ends of the range. -/
theorem worth_infinity_positive : worth (.infinity .positive) = limit := one_mul limit

theorem worth_infinity_negative : worth (.infinity .negative) = -limit := neg_one_mul limit

/-- What becomes of a number when it is packed: a place that is too far to the
left makes it infinite. -/
def cut : UnpackedFloat → UnpackedFloat
  | .finite s m e positive => if e ≤ 971 then .finite s m e positive else .infinity s
  | f => f

theorem cut_finite (s : Sign) (m : ℕ) (e : ℤ) (positive : 0 < m) :
    cut (.finite s m e positive) = if e ≤ 971 then .finite s m e positive else .infinity s := rfl

-- ==================================================================== bits

/-- The last 52 bits hold the digits. -/
theorem toNat_unpackMantissa (b : BitVec 64) :
    (@unpackMantissa binary64 b).toNat = b.toNat % 2 ^ 52 := by
  simp [unpackMantissa, BitVec.extractLsb_toNat]

/-- The eleven bits before them hold the place. -/
theorem toNat_unpackExponent (b : BitVec 64) :
    (@unpackExponent binary64 b).toNat = b.toNat / 2 ^ 52 % 2 ^ 11 := by
  simp [unpackExponent, BitVec.extractLsb_toNat, Nat.shiftRight_eq_div_pow]

/-- The first bit holds the sign. -/
theorem toNat_unpackSign (b : BitVec 64) :
    (@unpackSign binary64 b).toNat = b.toNat / 2 ^ 63 % 2 := by
  show (BitVec.extractLsb 63 63 b).toNat = _
  simp [BitVec.extractLsb_toNat, Nat.shiftRight_eq_div_pow]

/-- The bit that is not stored leads the digits. -/
theorem toNat_implicit (m : BitVec 52) : (1#1 ++ m).toNat = 2 ^ 52 + m.toNat := by
  rw [BitVec.toNat_append, ← Nat.shiftLeft_add_eq_or_of_lt m.isLt]
  rfl

theorem toNat_allOnes_exponent : (-1#11).toNat = 2047 := rfl

/-- The first bit is the sign. -/
theorem ofBitVec_unpackSign (s : Sign) (e : BitVec 11) (m : BitVec 52) :
    Sign.ofBitVec (unpackSign (packComponents binary64 s e m)) = s := by
  show Sign.ofBitVec (BitVec.extractLsb' 63 1 (s.toBitVec ++ e ++ m)) = s
  rw [BitVec.extractLsb'_append_eq_of_le (Nat.le_add_right 52 11),
    BitVec.extractLsb'_append_eq_of_le (Nat.le_refl 11)]
  cases s <;> rfl

theorem finite_congr {s : Sign} {m n : ℕ} {e f : ℤ} (hm : 0 < m) (hn : 0 < n) (significand : m = n)
    (place : e = f) : UnpackedFloat.finite s m e hm = .finite s n f hn := by
  subst significand place
  rfl

/-- The number in parts that a sign and the two other fields stand for. -/
def ofFields (s : Sign) (e : BitVec 11) (m : BitVec 52) : UnpackedFloat :=
  if e = -1#11 then if m = 0#52 then .infinity s else .notANumber
  else if e = 0#11 then
    if h : m = 0#52 then .zero s
    else .finite s m.toNat (-1074) (by simpa [BitVec.toNat_pos, BitVec.pos_iff_ne_zero])
  else .finite s (1#1 ++ m).toNat ((e.toNat : ℤ) - 1075) (by rw [toNat_implicit]; omega)

/-- Bits are read as what the three fields in them stand for. -/
theorem unpack_eq_ofFields (b : BitVec 64) : unpack binary64 b =
    ofFields (Sign.ofBitVec (@unpackSign binary64 b)) (@unpackExponent binary64 b)
      (@unpackMantissa binary64 b) := by
  refine ite_congr rfl (fun _ => rfl) fun _ => ite_congr rfl (fun lowest => ?_) fun _ => rfl
  refine dite_congr rfl (fun _ => rfl) fun _ => finite_congr _ _ rfl ?_
  rw [lowest]
  rfl

/-- So are bits that were put together from three fields. -/
theorem unpack_packComponents (s : Sign) (e : BitVec 11) (m : BitVec 52) :
    unpack binary64 (packComponents binary64 s e m) = ofFields s e m := by
  rw [unpack_eq_ofFields, ofBitVec_unpackSign, UnpackedFloat.unpackExponent_packComponents,
    UnpackedFloat.unpackMantissa_packComponents]

/-- An infinity is read back from its bits. -/
theorem unpack_packedInfinity (s : Sign) :
    unpack binary64 (packedInfinity binary64 s) = .infinity s := by
  unfold packedInfinity
  rw [unpack_packComponents]
  rfl

/-- Packing and unpacking leaves a number that fits as it is, unless its place
is out of range. -/
theorem unpack_pack {f : UnpackedFloat} (h : Canonical f) :
    unpack binary64 (pack binary64 f) = cut f := by
  cases f with
  | notANumber => rfl
  | infinity s => exact unpack_packedInfinity s
  | zero s => cases s <;> rfl
  | finite s m e positive =>
    obtain ⟨digits, least, full⟩ := h
    show unpack binary64 (if 2 ^ 11 ≤ (e + 1023 + 52).toNat + 1 then packedInfinity binary64 s
      else if m.log2 + 1 = 53 then
        packComponents binary64 s (BitVec.ofNat 11 (e + 1023 + 52).toNat) (BitVec.ofNat 52 m)
      else packComponents binary64 s 0#11 (BitVec.ofNat 52 m)) = _
    by_cases beyond : 2 ^ 11 ≤ (e + 1023 + 52).toNat + 1
    · have far : ¬ e ≤ 971 := by omega
      rw [if_pos beyond, unpack_packedInfinity, cut_finite, if_neg far]
    have near : e ≤ 971 := by omega
    have log := Nat.log2_lt positive.ne' (k := 53)
    rw [if_neg beyond, cut_finite, if_pos near]
    have place : (BitVec.ofNat 11 (e + 1023 + 52).toNat).toNat = (e + 1075).toNat := by
      rw [BitVec.toNat_ofNat]
      omega
    by_cases normal : 2 ^ 52 ≤ m
    · have all : m.log2 + 1 = 53 := by
        have low := (Nat.le_log2 positive.ne').mpr normal
        have high := (Nat.log2_lt positive.ne').mpr digits
        omega
      rw [if_pos all, unpack_packComponents, ofFields, if_neg, if_neg]
      · refine finite_congr _ _ ?_ ?_
        · have fraction : (BitVec.ofNat 52 m).toNat = m - 2 ^ 52 := by
            rw [BitVec.toNat_ofNat, Nat.mod_eq_sub_mod normal, Nat.mod_eq_of_lt (by omega)]
          rw [toNat_implicit]
          omega
        · rw [place]
          omega
      · intro zero
        rw [zero] at place
        simp at place
        omega
      · intro ones
        rw [ones, toNat_allOnes_exponent] at place
        omega
    · have last : e = -1074 := full.resolve_right normal
      have few : ¬ m.log2 + 1 = 53 := by
        have high := (Nat.log2_lt positive.ne').mpr (not_le.mp normal)
        omega
      have fraction : (BitVec.ofNat 52 m).toNat = m := by
        rw [BitVec.toNat_ofNat, Nat.mod_eq_of_lt (not_le.mp normal)]
      rw [if_neg few, unpack_packComponents, ofFields, if_neg (by decide), if_pos rfl, dif_neg]
      · exact finite_congr _ _ fraction last.symm
      · intro zero
        rw [zero] at fraction
        simp at fraction
        omega

/-- A number that fits and whose place is in range. -/
def Packed (f : UnpackedFloat) : Prop := Canonical f ∧ cut f = f

/-- The sign bit, read. -/
def signOf (b : BitVec 64) : Sign := Sign.ofBitVec (@unpackSign binary64 b)

/-- The sign of a number is that of its first bit. -/
theorem signOf_eq (b : BitVec 64) :
    signOf b = if b.toNat / 2 ^ 63 % 2 = 1 then .negative else .positive := by
  have bit : @unpackSign binary64 b = 0#1 ↔ b.toNat / 2 ^ 63 % 2 = 0 := by
    rw [← BitVec.toNat_inj, toNat_unpackSign, BitVec.toNat_ofNat, Nat.zero_mod]
  unfold signOf Sign.ofBitVec
  simp only [bit]
  split_ifs <;> first | rfl | omega

/-- Reading a number off its bits. -/
theorem unpack_eq (b : BitVec 64) : unpack binary64 b =
    let fraction : ℕ := b.toNat % 2 ^ 52
    let field : ℕ := b.toNat / 2 ^ 52 % 2 ^ 11
    if field = 2047 then if fraction = 0 then .infinity (signOf b) else .notANumber
    else if field = 0 then
      if h : fraction = 0 then .zero (signOf b)
      else .finite (signOf b) fraction (-1074) (Nat.pos_of_ne_zero h)
    else .finite (signOf b) (2 ^ 52 + fraction) (field - 1075 : ℤ)
      (Nat.add_pos_left (Nat.two_pow_pos 52) fraction) := by
  have fraction := toNat_unpackMantissa b
  have field := toNat_unpackExponent b
  have ones : @unpackExponent binary64 b = -1#11 ↔ b.toNat / 2 ^ 52 % 2 ^ 11 = 2047 := by
    rw [← BitVec.toNat_inj, field, toNat_allOnes_exponent]
  have zeros : @unpackExponent binary64 b = 0#11 ↔ b.toNat / 2 ^ 52 % 2 ^ 11 = 0 := by
    rw [← BitVec.toNat_inj, field, BitVec.toNat_ofNat, Nat.zero_mod]
  have blank : @unpackMantissa binary64 b = 0#52 ↔ b.toNat % 2 ^ 52 = 0 := by
    rw [← BitVec.toNat_inj, fraction, BitVec.toNat_ofNat, Nat.zero_mod]
  rw [unpack_eq_ofFields]
  refine ite_congr (propext ones) (fun _ => ite_congr (propext blank) (fun _ => rfl) fun _ => rfl)
    fun _ => ite_congr (propext zeros) (fun _ => ?_) fun _ => ?_
  · exact dite_congr (propext blank) (fun _ => rfl) fun _ => finite_congr _ _ fraction rfl
  · refine finite_congr _ _ ?_ (by rw [field])
    rw [toNat_implicit, fraction]

/-- What bits hold fits, and its place is in range. -/
theorem packed_unpack (b : BitVec 64) : Packed (unpack binary64 b) := by
  have fraction := Nat.mod_lt b.toNat (show 0 < 2 ^ 52 by positivity)
  have field := Nat.mod_lt (b.toNat / 2 ^ 52) (show 0 < 2 ^ 11 by positivity)
  rw [unpack_eq]
  refine iteInduction (motive := Packed) (fun _ => ?_) fun infinite =>
    iteInduction (motive := Packed) (fun lowest => ?_) fun lowest => ?_
  · exact iteInduction (motive := Packed) (fun _ => ⟨trivial, rfl⟩) fun _ => ⟨trivial, rfl⟩
  · by_cases blank : b.toNat % 2 ^ 52 = 0
    · rw [dif_pos blank]
      exact ⟨trivial, rfl⟩
    · rw [dif_neg blank]
      exact ⟨⟨by omega, le_rfl, Or.inl rfl⟩, rfl⟩
  · exact ⟨⟨by omega, by omega, Or.inr (Nat.le_add_right _ _)⟩, if_pos (by omega)⟩

-- =============================================================== floats

theorem size_parts (negative : Bool) (m : ℕ) (e : ℤ) :
    (Parts.mk negative m e).size = m * 2 ^ e := by
  unfold Parts.size
  dsimp only
  split_ifs with natural
  · obtain ⟨n, rfl⟩ := Int.eq_ofNat_of_zero_le natural
    rw [Int.toNat_natCast, zpow_natCast, Nat.pow_eq]
    push_cast
    rfl
  · obtain ⟨n, hn⟩ := Int.eq_ofNat_of_zero_le (show 0 ≤ -e by omega)
    obtain rfl : e = -n := by omega
    rw [neg_neg, Int.toNat_natCast, Rat.mkRat_eq_div, zpow_neg, zpow_natCast, Nat.pow_eq]
    push_cast
    rfl

/-- The value of a number in parts, with its sign in front. -/
theorem value_parts (b : BitVec 64) (m : ℕ) (e : ℤ) :
    (Parts.mk (decide (b.toNat / 2 ^ 63 % 2 = 1)) m e).value = (signOf b).apply m * 2 ^ e := by
  unfold Parts.value
  rw [size_parts, signOf_eq]
  by_cases bit : b.toNat / 2 ^ 63 % 2 = 1
  · rw [if_pos (decide_eq_true bit), if_pos bit]
    simp [Sign.apply]
  · rw [if_neg (by simpa using bit), if_neg bit]
    rfl

/-- The limit is the least 53-digit number one place too far to the left. -/
theorem limit_eq : limit = 2 ^ 52 * 2 ^ (972 : ℤ) := by
  unfold limit
  rw [← zpow_natCast, ← zpow_add₀ two_ne_zero]
  exact congrArg _ (by norm_num)

theorem apply_mul (s : Sign) (m n : ℤ) : s.apply (m * n) = s.apply m * n := by
  cases s <;> simp [Sign.apply]

/-- The rational of a number's bits is that of its parts. -/
theorem worth_unpack (b : BitVec 64) : worth (unpack binary64 b) =
    if (unpack binary64 b).isNaN then 0 else (partsOfBits b.toNat).value := by
  unfold partsOfBits
  rw [unpack_eq]
  dsimp only [Nat.pow_eq]
  by_cases infinite : b.toNat / 2 ^ 52 % 2 ^ 11 = 2047
  · rw [if_pos infinite]
    by_cases blank : b.toNat % 2 ^ 52 = 0
    · have high : ¬ b.toNat / 2 ^ 52 % 2 ^ 11 = 0 := by omega
      rw [if_pos blank, if_neg high, value_parts, blank, infinite]
      show ((signOf b).apply 1 : ℚ) * limit = ((signOf b).apply (1 * 2 ^ 52) : ℤ) * 2 ^ (972 : ℤ)
      rw [limit_eq, apply_mul, Int.cast_mul, Int.cast_pow, Int.cast_ofNat, mul_assoc]
    · rw [if_neg blank]
      rfl
  · rw [if_neg infinite]
    by_cases lowest : b.toNat / 2 ^ 52 % 2 ^ 11 = 0
    · rw [if_pos lowest, if_pos lowest, value_parts]
      by_cases blank : b.toNat % 2 ^ 52 = 0
      · rw [dif_pos blank, blank]
        show (0 : ℚ) = ((signOf b).apply 0 : ℤ) * 2 ^ (-1074 : ℤ)
        cases signOf b <;> simp [Sign.apply]
      · rw [dif_neg blank]
        rfl
    · rw [if_neg lowest, if_neg lowest, value_parts]
      rfl

/-- A number stands for what its parts do. -/
theorem value_eq_worth (x : Float) : Scalar.value x = worth x.toModel.unpack :=
  (worth_unpack x.toBits.toBitVec).symm

-- ================================================================ order

theorem Fits.pos {m : ℕ} {e : ℤ} (h : 0 < m) : (0 : ℚ) < m * 2 ^ e :=
  mul_pos (by exact_mod_cast h) (two_zpow_pos e)

/-- A number of 53 digits lies below the next power of two. -/
theorem Fits.lt {m : ℕ} {e : ℤ} (h : Fits m e) : (m : ℚ) * 2 ^ e < 2 ^ (e + 53) := by
  rw [add_comm, zpow_add₀ two_ne_zero]
  exact mul_lt_mul_of_pos_right (by exact_mod_cast h.digits) (two_zpow_pos e)

/-- A number whose place is in range is in range. -/
theorem Fits.lt_limit {m : ℕ} {e : ℤ} (h : Fits m e) (near : e ≤ 971) :
    (m : ℚ) * 2 ^ e < limit := by
  unfold limit
  exact h.lt.trans_le (zpow_le_zpow_right₀ one_le_two (by omega))

/-- A number whose place is out of range is out of range. -/
theorem Fits.limit_le {m : ℕ} {e : ℤ} (h : Fits m e) (far : ¬ e ≤ 971) :
    limit ≤ (m : ℚ) * 2 ^ e := by
  have all := h.full.resolve_left (by omega)
  rw [limit_eq]
  exact mul_le_mul (by exact_mod_cast all) (zpow_le_zpow_right₀ one_le_two (by omega))
    (two_zpow_pos _).le (by positivity)

/-- Of two numbers that fit, that with the place further to the left is the
larger one. -/
theorem Fits.lt_of_place {m n : ℕ} {e f : ℤ} (h : Fits m e) (h' : Fits n f) (lt : e < f) :
    (m : ℚ) * 2 ^ e < n * 2 ^ f := by
  have all : 2 ^ 52 ≤ n := h'.full.resolve_left (by have := h.least; omega)
  have low : (2 : ℚ) ^ (f + 52) ≤ n * 2 ^ f := by
    rw [add_comm, zpow_add₀ two_ne_zero]
    exact mul_le_mul_of_nonneg_right (by exact_mod_cast all) (two_zpow_pos f).le
  exact h.lt.trans_le ((zpow_le_zpow_right₀ one_le_two (by omega)).trans low)

/-- Numbers that use all digits are compared by their places first. -/
theorem Fits.compare_eq {m n : ℕ} {e f : ℤ} (h : Fits m e) (h' : Fits n f) :
    (compare e f).then (compare m n) = compare ((m : ℚ) * 2 ^ e) (n * 2 ^ f) := by
  rcases lt_trichotomy e f with lt | rfl | gt
  · rw [compare_lt_iff_lt.mpr lt, compare_lt_iff_lt.mpr (h.lt_of_place h' lt)]
    rfl
  · rw [compare_eq_iff_eq.mpr rfl, Ordering.then]
    rcases lt_trichotomy m n with lt | rfl | gt
    · rw [compare_lt_iff_lt.mpr lt, compare_lt_iff_lt.mpr
        (mul_lt_mul_of_pos_right (by exact_mod_cast lt) (two_zpow_pos e))]
    · rw [compare_eq_iff_eq.mpr rfl, compare_eq_iff_eq.mpr rfl]
    · rw [compare_gt_iff_gt.mpr gt, compare_gt_iff_gt.mpr
        (mul_lt_mul_of_pos_right (by exact_mod_cast gt) (two_zpow_pos e))]
  · rw [compare_gt_iff_gt.mpr gt, compare_gt_iff_gt.mpr (h'.lt_of_place h gt)]
    rfl

/-- A number that can be packed as it is has its place in range. -/
theorem near_of_packed {s : Sign} {m : ℕ} {e : ℤ} {h : 0 < m}
    (packed : Packed (.finite s m e h)) : Fits m e ∧ e ≤ 971 := by
  obtain ⟨fits, same⟩ := packed
  refine ⟨fits, ?_⟩
  by_contra far
  rw [cut_finite, if_neg far] at same
  cases same

/-- A rational lies in the range of the numbers of one kind and sign. -/
def InKindRange : UnpackedFloat → ℚ → Prop
  | .notANumber, q => q = 0
  | .infinity .negative, q => q = -limit
  | .finite .negative .., q => -limit < q ∧ q < 0
  | .zero _, q => q = 0
  | .finite .positive .., q => 0 < q ∧ q < limit
  | .infinity .positive, q => q = limit

/-- Every kind of number stands for rationals of one range. -/
theorem inKindRange_worth {f : UnpackedFloat} (packed : Packed f) : InKindRange f (worth f) := by
  rcases f with (_ | _) | _ | _ | ⟨(_ | _), m, e, hm⟩
  · exact worth_infinity_negative
  · exact worth_infinity_positive
  · rfl
  · rfl
  · obtain ⟨fits, near⟩ := near_of_packed packed
    rw [worth_neg_sign]
    exact ⟨neg_lt_neg (fits.lt_limit near), neg_lt_zero.mpr (Fits.pos hm)⟩
  · obtain ⟨fits, near⟩ := near_of_packed packed
    exact ⟨Fits.pos hm, fits.lt_limit near⟩

/-- No range goes past the limit. -/
theorem InKindRange.size_le {f : UnpackedFloat} {q : ℚ} (h : InKindRange f q) : |q| ≤ limit := by
  have far := limit_pos
  rw [abs_le]
  unfold InKindRange at h
  rcases f with (_ | _) | _ | _ | ⟨(_ | _), m, e, hm⟩ <;> dsimp only at h
  all_goals constructor <;> linarith

theorem compare_neg_neg (x y : ℚ) : compare (-x) (-y) = (compare x y).swap := by
  rcases lt_trichotomy x y with lt | rfl | gt
  · rw [compare_lt_iff_lt.mpr lt, compare_gt_iff_gt.mpr (neg_lt_neg lt)]
    rfl
  · rw [compare_eq_iff_eq.mpr rfl, compare_eq_iff_eq.mpr rfl]
    rfl
  · rw [compare_gt_iff_gt.mpr gt, compare_lt_iff_lt.mpr (neg_lt_neg gt)]
    rfl

/-- Numbers are compared as the rationals they stand for. -/
theorem compare_eq {a b : UnpackedFloat} (ha : Packed a) (hb : Packed b)
    (da : a.isNaN = false) (db : b.isNaN = false) :
    a.compare b = some (compare (worth a) (worth b)) := by
  have far := limit_pos
  have here := inKindRange_worth ha
  have there := inKindRange_worth hb
  unfold InKindRange at here there
  rcases a with (_ | _) | _ | _ | ⟨(_ | _), m, e, hm⟩ <;>
    rcases b with (_ | _) | _ | _ | ⟨(_ | _), n, f, hn⟩ <;>
    try cases da <;> try cases db
  case finite.negative.finite.negative.refl.refl =>
    rw [worth_neg_sign, worth_neg_sign, compare_neg_neg,
      ← (near_of_packed ha).1.compare_eq (near_of_packed hb).1]
    rfl
  case finite.positive.finite.positive.refl.refl =>
    rw [worth_pos_sign, worth_pos_sign, ← (near_of_packed ha).1.compare_eq (near_of_packed hb).1]
    rfl
  -- two kinds or signs lie apart, and all zeros and equal infinities are equal
  all_goals
    dsimp only at here there
    symm
    first
      | exact congrArg some (compare_lt_iff_lt.mpr (by linarith))
      | exact congrArg some (compare_gt_iff_gt.mpr (by linarith))
      | exact congrArg some (compare_eq_iff_eq.mpr (by linarith))

-- =============================================================== floats

/-- A number is defined and stands for a rational; the infinities stand for
the ends of the range. -/
structure HasValue (x : Float) (q : ℚ) : Prop where
  defined : x.isNaN = false
  value_eq : Scalar.value x = q

/-- The parts of a float are such that packing leaves them as they are. -/
theorem packed_toModel (x : Float) : Packed x.toModel.unpack := packed_unpack x.toBits.toBitVec

/-- A finite number has the value it stands for. -/
theorem hasValue_of_isFinite {x : Float} (h : x.isFinite = true) : HasValue x (Scalar.value x) :=
  ⟨not_isNaN_of_isFinite h, rfl⟩

/-- A number that was packed stands for the same rational, or for the end of
the range that it lies beyond. -/
theorem worth_cut {f : UnpackedFloat} (h : Canonical f) :
    worth (cut f) = max (-limit) (min (worth f) limit) := by
  have far := limit_pos
  by_cases same : cut f = f
  · have packed : Packed f := ⟨h, same⟩
    obtain ⟨low, high⟩ := abs_le.mp (inKindRange_worth packed).size_le
    rw [same, min_eq_left high, max_eq_right low]
  · rcases f with s | _ | s | ⟨s, m, e, hm⟩
    · exact absurd rfl same
    · exact absurd rfl same
    · exact absurd rfl same
    · have beyond : ¬ e ≤ 971 := fun near => same (if_pos near)
      have large := Fits.limit_le h beyond
      rw [cut_finite, if_neg beyond]
      cases s
      · rw [worth_neg_sign, min_eq_left (by linarith), max_eq_left (by linarith)]
        exact worth_infinity_negative
      · rw [worth_pos_sign, min_eq_right large, max_eq_right (by linarith)]
        exact worth_infinity_positive

/-- Packing defines nothing that was not defined before. -/
theorem isNaN_cut (f : UnpackedFloat) : (cut f).isNaN = f.isNaN := by
  rcases f with s | _ | s | ⟨s, m, e, hm⟩
  · rfl
  · rfl
  · rfl
  · exact iteInduction (motive := (UnpackedFloat.isNaN · = false)) (fun _ => rfl) fun _ => rfl

/-- The finite numbers are those inside the range. -/
theorem InKindRange.isFinite_iff {f : UnpackedFloat} {q : ℚ} (h : InKindRange f q)
    (defined : f.isNaN = false) : f.isFinite = true ↔ |q| < limit := by
  have far := limit_pos
  rw [abs_lt]
  unfold InKindRange at h
  rcases f with (_ | _) | _ | _ | ⟨(_ | _), m, e, hm⟩ <;> dsimp only at h
  · exact iff_of_false Bool.false_ne_true fun ⟨low, _⟩ => by linarith
  · exact iff_of_false Bool.false_ne_true fun ⟨_, high⟩ => by linarith
  · cases defined
  all_goals exact iff_of_true rfl ⟨by linarith, by linarith⟩

/-- A number that was computed in parts has as float the rational it stands for,
cut off at the ends of the range. -/
theorem hasValue_pack {f : UnpackedFloat} (h : Canonical f) (defined : f.isNaN = false) :
    HasValue (.ofModel (.pack f)) (max (-limit) (min (worth f) limit)) := by
  have read : (Float.ofModel (.pack f)).toModel.unpack = cut f := unpack_pack h
  refine ⟨?_, ?_⟩
  · show (Float.ofModel (.pack f)).toModel.unpack.isNaN = false
    rw [read, isNaN_cut, defined]
  · rw [value_eq_worth, read, worth_cut h]

namespace HasValue

variable {x y : Float} {p q : ℚ}

/-- A value lies in the range of the number's own kind. -/
theorem inKindRange (hx : HasValue x p) : InKindRange x.toModel.unpack p := by
  have inside := inKindRange_worth (packed_toModel x)
  rwa [← value_eq_worth, hx.value_eq] at inside

/-- No value lies outside the range. -/
theorem size_le (hx : HasValue x p) : |p| ≤ limit := hx.inKindRange.size_le

theorem compare_eq (hx : HasValue x p) (hy : HasValue y q) :
    x.toModel.unpack.compare y.toModel.unpack = some (compare p q) := by
  rw [← hx.value_eq, ← hy.value_eq, value_eq_worth, value_eq_worth]
  exact Binary64.compare_eq (packed_toModel x) (packed_toModel y) hx.defined hy.defined

/-- Defined numbers are ordered as their values. -/
theorem lt_iff (hx : HasValue x p) (hy : HasValue y q) : x < y ↔ p < q := by
  show decide (x.toModel < y.toModel) = true ↔ _
  rw [decide_eq_true_iff]
  show (x.toModel.unpack.compare y.toModel.unpack == some .lt) = true ↔ _
  rw [hx.compare_eq hy, beq_iff_eq, Option.some_inj, compare_lt_iff_lt]

/-- The same of the order with equality. -/
theorem le_iff (hx : HasValue x p) (hy : HasValue y q) : x ≤ y ↔ p ≤ q := by
  show decide (x.toModel ≤ y.toModel) = true ↔ _
  rw [decide_eq_true_iff]
  show (x.toModel.unpack.compare y.toModel.unpack).any (·.isLE) = true ↔ _
  rw [hx.compare_eq hy, Option.any_some, Ordering.isLE_iff_ne_gt]
  exact compare_le_iff_le

/-- A defined number is finite exactly if its value is inside the range. -/
theorem isFinite_iff (hx : HasValue x p) : x.isFinite = true ↔ |p| < limit :=
  hx.inKindRange.isFinite_iff hx.defined

end HasValue

end Metrograph.Binary64

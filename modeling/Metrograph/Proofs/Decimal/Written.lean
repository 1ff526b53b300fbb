/-
What is written of a number is how a number is spelled.

Every layout writes a finite number so that a JSON text could hold it
(`spelled_text`). The one thing that could go wrong are leading zeros: a
number is spelled with one only if it has no other digit before the point.

# No leading zeros

The digits of a whole number begin with a zero only if the number is zero,
so the digits that are laid out must not be those of zero. They are the
shortest ones that lie among the reals that round to the number, and zero
does not lie there: the gap below a number is at most half a unit of its
significand, and the significand is at least one (`contains_zero`).
-/
import Mathlib.Data.Rat.Cast.Order
import Mathlib.Tactic.Positivity
import Metrograph.Decimal.Layout
import Metrograph.Proofs.Decimal.Whole
import Metrograph.Proofs.Json.Spelling
import Metrograph.Proofs.Scalar.Order

namespace Metrograph.Decimal

open Json (Numeral)
open Json.Numeral (Whole Point Power Spelled signChars)

-- ======================================================= whole numbers

variable {ds : List Char} {d : Char}

theorem digits_append {a b : List Char} (first : Text.Digits a) (later : Text.Digits b) :
    Text.Digits (a ++ b) := by
  intro c hc
  rcases List.mem_append.mp hc with hc | hc
  · exact first c hc
  · exact later c hc

theorem digits_zeros (n : Nat) : Text.Digits (List.replicate n '0') := by
  intro c hc
  rw [List.eq_of_mem_replicate hc]
  rfl

/-- A whole number other than zero has no leading zero. -/
theorem toDigits_ne_zero_cons {n : Nat} (nonzero : n ≠ 0) (rest : List Char) :
    Nat.toDigits 10 n ≠ '0' :: rest := by
  induction n using Nat.strongRecOn generalizing rest with
  | ind n ih =>
      rw [Nat.toDigits_eq_if (by decide)]
      split
      next small =>
        intro same
        exact nonzero (Nat.digitChar_eq_zero.mp (List.cons.inj same).1)
      next large =>
        have front := ih (n / 10) (by omega) (by omega)
        cases digits : Nat.toDigits 10 (n / 10) with
        | nil => exact absurd digits Nat.toDigits_ne_nil
        | cons d ds =>
            intro same
            rw [List.cons_append] at same
            exact front ds (by rw [digits, (List.cons.inj same).1])

/-- The digits of a number other than zero do not begin with a zero. -/
theorem toDigits_cons {n : Nat} (nonzero : n ≠ 0) :
    ∃ d ds, Nat.toDigits 10 n = d :: ds ∧ d ≠ '0' := by
  cases digits : Nat.toDigits 10 n with
  | nil => exact absurd digits Nat.toDigits_ne_nil
  | cons d ds =>
      refine ⟨d, ds, rfl, ?_⟩
      rintro rfl
      exact toDigits_ne_zero_cons nonzero ds digits

/-- Digits after one that is not zero stand before a point. -/
theorem whole_cons (lead : d ≠ '0') (digits : Text.Digits (d :: ds)) : Whole (d :: ds) where
  some := List.cons_ne_nil d ds
  digits := digits
  lead _ same := absurd (List.cons.inj same).1 lead

/-- A whole number is written as the digits before a point are. -/
theorem whole_toDigits (n : Nat) : Whole (Nat.toDigits 10 n) := by
  by_cases zero : n = 0
  · subst zero
    exact ⟨Nat.toDigits_ne_nil, digits_toDigits 0, fun rest same => (List.cons.inj same).2.symm⟩
  · obtain ⟨d, ds, same, lead⟩ := toDigits_cons zero
    have digits := digits_toDigits n
    rw [same] at digits ⊢
    exact whole_cons lead digits

-- ============================================================== layouts

variable (negative : Bool)

/-- A number without a fraction. -/
theorem spelled_whole (before : Whole ds) :
    Spelled ⟨negative, ds, none, none⟩ (signChars negative ++ ds) := by
  have spelled := Spelled.mk negative before .none .none
  rwa [List.append_nil, List.append_nil] at spelled

/-- A number with a fraction. -/
theorem spelled_point {whole : List Char} (before : Whole whole) (some : ds ≠ [])
    (digits : Text.Digits ds) :
    Spelled ⟨negative, whole, ds, none⟩ (signChars negative ++ (whole ++ '.' :: ds)) := by
  have spelled := Spelled.mk negative before (.digits some digits) .none
  rwa [List.append_nil] at spelled

/-- A whole number with or without a mark. -/
theorem spelled_mark (wholeMark : Bool) (before : Whole ds) : ∃ n : Numeral,
    n.Spelled (signChars negative ++ (ds ++ if wholeMark then ['.', '0'] else [])) := by
  cases wholeMark with
  | true => exact ⟨_, spelled_point negative before (List.cons_ne_nil '0' []) (digits_zeros 1)⟩
  | false =>
      rw [if_neg Bool.false_ne_true, List.append_nil]
      exact ⟨_, spelled_whole negative before⟩

/-- Digits without a leading zero make a number wherever the point is put. -/
theorem spelled_positionalText (wholeMark : Bool) (lead : d ≠ '0')
    (digits : Text.Digits (d :: ds)) (power : Int) : ∃ n : Numeral,
    n.Spelled (signChars negative ++ positionalText wholeMark (d :: ds) power) := by
  unfold positionalText
  by_cases small : power < 0
  · rw [if_pos small]
    exact ⟨_, spelled_point negative (whole_toDigits 0)
      (List.append_ne_nil_of_right_ne_nil _ (List.cons_ne_nil d ds))
      (digits_append (digits_zeros _) digits)⟩
  · rw [if_neg small]
    dsimp only
    by_cases padded : (d :: ds).length ≤ power.toNat + 1
    · rw [if_pos padded]
      exact spelled_mark negative wholeMark
        (whole_cons lead (digits_append digits (digits_zeros _)))
    · have after : (d :: ds).drop (power.toNat + 1) ≠ [] :=
        List.ne_nil_of_length_pos (by rw [List.length_drop]; omega)
      have before : Whole ((d :: ds).take (power.toNat + 1)) :=
        whole_cons lead fun c hc => digits c (List.mem_of_mem_take (i := power.toNat + 1) hc)
      rw [if_neg padded]
      exact ⟨_, spelled_point negative before after fun c hc => digits c (List.mem_of_mem_drop hc)⟩

/-- An exponent is spelled with its sign in front. -/
theorem power_chars (plus : Bool) (power : Int) : ∃ exponent, Power exponent
    ('e' :: ((if power < 0 then ['-'] else if plus then ['+'] else [])
      ++ Nat.toDigits 10 power.natAbs)) := by
  have some : Nat.toDigits 10 power.natAbs ≠ [] := Nat.toDigits_ne_nil
  have digits := digits_toDigits power.natAbs
  split
  · exact ⟨_, .minus some digits⟩
  · cases plus with
    | true => exact ⟨_, .plus some digits⟩
    | false => exact ⟨_, .up some digits⟩

/-- One digit before the point makes a number with any exponent. -/
theorem spelled_scientificText (plus : Bool) (lead : d ≠ '0')
    (digits : Text.Digits (d :: ds)) (power : Int) : ∃ n : Numeral,
    n.Spelled (signChars negative ++ scientificText plus (d :: ds) power) := by
  obtain ⟨exponent, scaled⟩ := power_chars plus power
  have first : Whole [d] := whole_cons lead fun c hc =>
    digits c (List.mem_cons.mpr (Or.inl (List.mem_singleton.mp hc)))
  cases ds with
  | nil => exact ⟨_, Spelled.mk negative first .none scaled⟩
  | cons c ds =>
      exact ⟨_, Spelled.mk negative first
        (.digits (List.cons_ne_nil c ds) fun c hc => digits c (List.mem_cons_of_mem d hc)) scaled⟩

-- ========================================================== no zero digits

/-- Taking zeros off the end leaves something. -/
theorem strip_ne_zero {n : Digits} (nonzero : n.digits ≠ 0) : n.strip.digits ≠ 0 := by
  induction n using Digits.strip.induct with
  | case1 n tens ih =>
      rw [Digits.strip, if_pos tens]
      exact ih (by dsimp only; omega)
  | case2 n stays =>
      rw [Digits.strip, if_neg stays]
      exact nonzero

theorem size_pos {p : Binary64.Parts} (nonzero : p.significand ≠ 0) : 0 < p.size := by
  have pos : 0 < p.significand := Nat.pos_of_ne_zero nonzero
  have power (n : Nat) : 0 < Nat.pow 2 n := Nat.pow_pos (by decide)
  unfold Binary64.Parts.size
  split
  · exact Nat.cast_pos.mpr (Nat.mul_pos pos (power _))
  · rw [Rat.mkRat_eq_div]
    exact div_pos (by exact_mod_cast pos) (by exact_mod_cast power _)

/-- Zero rounds to no other number. -/
theorem contains_zero {p : Binary64.Parts} (nonzero : p.significand ≠ 0) :
    (roundingInterval p).contains 0 = false := by
  have lower : 0 < (roundingInterval p).lower := by
    refine mul_pos (Nat.cast_pos.mpr ?_) (size_pos one_ne_zero)
    split <;> omega
  unfold Interval.contains
  split
  · rw [decide_eq_false lower.not_ge, Bool.false_and]
  · rw [decide_eq_false lower.le.not_gt, Bool.false_and]

/-- A neighbour on the grid is not zero unless zero rounds to the number. -/
theorem nearestOnGrid_ne_zero {tie : Tie} {i : Interval} {q : Rat} {exponent : Int} {n : Digits}
    (apart : i.contains 0 = false) (found : nearestOnGrid tie i q exponent = some n) :
    n.digits ≠ 0 := by
  -- the neighbour below is not zero once it lies in the interval
  have below {k : Nat} (inside : i.contains (k * tenTo exponent) = true) : k ≠ 0 := by
    rintro rfl
    rw [Nat.cast_zero, zero_mul, apart] at inside
    cases inside
  unfold nearestOnGrid at found
  dsimp only at found
  generalize (q / tenTo exponent).floor.toNat = k at found
  split at found
  next => cases found
  next low _ =>
    cases found
    exact below low
  next =>
    cases found
    exact Nat.succ_ne_zero k
  next low _ =>
    have either (takeLow : Bool) : (if takeLow then k else k + 1) ≠ 0 := by
      cases takeLow with
      | true => exact below low
      | false => exact Nat.succ_ne_zero k
    cases found
    exact either _

/-- The exact digits of a number other than zero are not those of zero. -/
theorem exact_ne_zero {p : Binary64.Parts} (nonzero : p.significand ≠ 0) :
    (exact p).digits ≠ 0 := by
  unfold exact
  split
  · exact Nat.mul_ne_zero nonzero (Nat.pow_pos (by decide)).ne'
  · exact Nat.mul_ne_zero nonzero (Nat.pow_pos (by decide)).ne'

/-- The shortest digits of a number other than zero are not those of zero. -/
theorem shortest_ne_zero (tie : Tie) {p : Binary64.Parts} (nonzero : p.significand ≠ 0) :
    (shortest tie p).digits ≠ 0 := by
  unfold shortest
  dsimp only
  refine strip_ne_zero ?_
  cases found : (List.range 17).findSome? fun n =>
      nearestOnGrid tie (roundingInterval p) p.size (magnitude p.size - (n + 1 : Nat)) with
  | none => exact exact_ne_zero nonzero
  | some n =>
      obtain ⟨_, _, grid⟩ := List.exists_of_findSome?_eq_some found
      exact nearestOnGrid_ne_zero (contains_zero nonzero) grid

-- ================================================================= texts

variable (layout : Layout)

/-- A number without its sign is written as a number is spelled. -/
theorem spelled_magnitudeText (p : Binary64.Parts) :
    ∃ n : Numeral, n.Spelled (signChars negative ++ layout.magnitudeText p) := by
  unfold Layout.magnitudeText
  split
  · exact spelled_mark negative layout.wholeMark (whole_toDigits 0)
  next nonzero =>
    have digits := digits_toDigits (shortest layout.tie p).digits
    obtain ⟨d, ds, same, lead⟩ := toDigits_cons (shortest_ne_zero layout.tie nonzero)
    dsimp only
    rw [same] at digits ⊢
    split
    · exact spelled_positionalText negative layout.wholeMark lead digits _
    · exact spelled_scientificText negative layout.exponentPlus lead digits _

/-- Every finite number is written as a number is spelled. -/
theorem spelled_text {x : Float} (finite : x.isFinite = true) :
    ∃ n : Numeral, n.Spelled (layout.text x).toList := by
  unfold Layout.text
  rw [Binary64.not_isNaN_of_isFinite finite, if_neg Bool.false_ne_true]
  dsimp only
  rw [if_pos finite, String.toList_ofList]
  exact spelled_magnitudeText _ layout _

end Metrograph.Decimal

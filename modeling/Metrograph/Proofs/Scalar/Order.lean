/-
The order of the scalars.

The order of the rationals is the usual one. The order of binary64 is that
of the parts of a number: its sign, then its exponent, then its
significand, the last two the other way round below zero (`rank`). The two
zeros have one rank and an undefined number has none, so it is neither
below nor above anything. From the ranks it follows that also on binary64
"less than" is irreflexive and transitive, undefined numbers included.
-/
import Mathlib.Data.Prod.Lex
import Mathlib.Order.Defs.Unbundled
import Mathlib.Order.RelClasses
import Metrograph.Scalar.Binary64

namespace Metrograph

namespace Binary64

open Float.Model (UnpackedFloat)

theorem not_isNaN_of_isFinite {x : Float} (finite : x.isFinite = true) : x.isNaN = false := by
  have finite : x.toModel.unpack.isFinite = true := finite
  show x.toModel.unpack.isNaN = false
  cases parts : x.toModel.unpack with
  | notANumber =>
      rw [parts] at finite
      cases finite
  | infinity | zero | finite => rfl

/-- Where a number stands among all that are defined. -/
def rank : UnpackedFloat → Option (Int ×ₗ Int ×ₗ Int)
  | .notANumber => none
  | .infinity .negative => some (toLex (-2, toLex (0, 0)))
  | .finite .negative m e _ => some (toLex (-1, toLex (-e, -m)))
  | .zero _ => some (toLex (0, toLex (0, 0)))
  | .finite .positive m e _ => some (toLex (1, toLex (e, m)))
  | .infinity .positive => some (toLex (2, toLex (0, 0)))

/-- Numbers in parts are compared by their ranks. -/
theorem unpacked_lt_iff (a b : UnpackedFloat) :
    a.lt b = true ↔ ∃ p ∈ rank a, ∃ q ∈ rank b, p < q := by
  unfold UnpackedFloat.lt UnpackedFloat.compare rank
  rcases a with (_ | _) | _ | (_ | _) | ⟨(_ | _), m, e, _⟩ <;>
    rcases b with (_ | _) | _ | (_ | _) | ⟨(_ | _), n, f, _⟩ <;>
    dsimp only <;>
    simp [Prod.Lex.toLex_lt_toLex, Ordering.then_eq_lt,
      Ordering.then_eq_gt, compare_lt_iff_lt, compare_gt_iff_gt]
  -- what is left are two infinities, whose signs are compared
  all_goals rfl

/-- Numbers are compared by their ranks. -/
theorem lt_iff_rank (x y : Float) :
    x < y ↔ ∃ p ∈ rank x.toModel.unpack, ∃ q ∈ rank y.toModel.unpack, p < q := by
  rw [← unpacked_lt_iff]
  show decide (x.toModel < y.toModel) = true ↔ _
  rw [decide_eq_true_iff]
  rfl

end Binary64

instance isStrictOrder_float : IsStrictOrder Float (· < ·) where
  irrefl x h := by
    obtain ⟨p, hp, q, hq, lt⟩ := (Binary64.lt_iff_rank x x).mp h
    rw [Option.mem_unique hp hq] at lt
    exact lt_irrefl q lt
  trans x y z h h' := by
    obtain ⟨p, hp, q, hq, lt⟩ := (Binary64.lt_iff_rank x y).mp h
    obtain ⟨q', hq', r, hr, lt'⟩ := (Binary64.lt_iff_rank y z).mp h'
    rw [Option.mem_unique hq' hq] at lt'
    exact (Binary64.lt_iff_rank x z).mpr ⟨p, hp, r, hr, lt.trans lt'⟩

end Metrograph

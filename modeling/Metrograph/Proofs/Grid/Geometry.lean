/-
What a geometry that can be drawn is like.

The check goes through the parts of a geometry one after the other and
stops at the first that is wrong. Nothing is compared with anything else:
a geometry can be drawn exactly if each of its parts is in order by
itself (`Drawable`), so a geometry that can be drawn stays so when one
part is exchanged for another that is in order.
-/
import Metrograph.Grid.Layout

namespace Metrograph.Grid

variable {α : Type} [Scalar α]

/-- Every part of a geometry is in order. -/
structure Geometry.Drawable (g : Geometry α) : Prop where
  rows_ne_nil : g.rows ≠ []
  beats_ne_zero : ∀ beats ∈ g.rows, beats ≠ 0
  margin_finite : Scalar.isFinite g.margin = true
  margin_nonneg : ¬ g.margin < Scalar.zero
  width_ne_zero : g.width ≠ 0
  height_ne_zero : g.height ≠ 0
  width_le : g.width ≤ maxCanvas
  height_le : g.height ≤ maxCanvas

namespace Geometry

variable {g : Geometry α}

/-- No row is found empty if every row has beats. -/
theorem findIdx?_empty_row (rows : List Nat) :
    rows.findIdx? (· == 0) = none ↔ ∀ beats ∈ rows, beats ≠ 0 := by
  rw [List.findIdx?_eq_none_iff]
  simp only [beq_eq_false_iff_ne]

/-- Nothing is wrong with a geometry exactly if each of its parts is in
order. -/
theorem fault?_eq_none : g.fault? = none ↔ g.Drawable := by
  unfold fault?
  constructor
  · intro free
    split at free
    · cases free
    next rows =>
    split at free
    · cases free
    next full =>
    split at free
    · cases free
    next placed =>
    split at free
    · cases free
    next area =>
    split at free
    · cases free
    next small =>
    obtain ⟨finite, nonneg⟩ := not_or.mp placed
    obtain ⟨wide, high⟩ := not_or.mp area
    obtain ⟨narrow, low⟩ := not_or.mp small
    exact ⟨rows, (findIdx?_empty_row _).mp full, Decidable.not_not.mp finite, nonneg, wide, high,
      Nat.le_of_not_lt narrow, Nat.le_of_not_lt low⟩
  · intro d
    rw [if_neg d.rows_ne_nil, (findIdx?_empty_row _).mpr d.beats_ne_zero]
    dsimp only
    rw [if_neg (not_or.mpr ⟨Decidable.not_not.mpr d.margin_finite, d.margin_nonneg⟩),
      if_neg (not_or.mpr ⟨d.width_ne_zero, d.height_ne_zero⟩),
      if_neg (not_or.mpr ⟨Nat.not_lt_of_le d.width_le, Nat.not_lt_of_le d.height_le⟩)]

/-- A geometry is accepted exactly if it can be drawn. -/
theorem layout_eq_ok : (∃ l, g.layout = .ok l) ↔ g.Drawable := by
  rw [← fault?_eq_none]
  unfold layout
  split
  next free => exact ⟨fun _ => free, fun _ => ⟨_, rfl⟩⟩
  next fault found =>
    refine ⟨fun ⟨_, h⟩ => ?_, fun free => ?_⟩
    · cases h
    · rw [found] at free
      cases free

end Geometry

theorem Layout.isDrawable (l : Layout α) : l.geometry.Drawable :=
  Geometry.fault?_eq_none.mp l.drawable

end Metrograph.Grid

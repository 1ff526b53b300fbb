/-
Which texts a key accepts.

A key accepts a text if the text stands for a value (`Kind.Reads`), the
value has its place on the number line, and the grid can still be drawn
with it. Only the last of these looks at what other keys hold, and it
looks at each of them by itself: once the grid at hand can be drawn,
another key's value neither helps nor harms (`drawable_put`).

So it does not matter which store is asked. A text that a new store takes
is taken by every store, whatever was done to it, and leaves there the one
value it stands for (`Key.Accepts.setText`).
-/
import Metrograph.Proofs.Config.Soundness
import Metrograph.Proofs.Grid.Geometry

namespace Metrograph.Config

-- ============================================================== reading

/-- A value is what a text of its kind stands for. A rhythm is typed in: its
field keeps the text as it was given. -/
def Kind.Reads : (kind : Kind) → String → kind.Carrier → Prop
  | .pattern, text, f => f.text = text ∧ Rhythm.compile text = .ok f.loop
  | kind, text, x => Value.read kind text = .ok ⟨kind, x⟩

/-- What a key holds is what a text stands for. -/
def Holds (c : Config) (key : Key) (text : String) : Prop := key.kind.Reads text (c.get key)

/-- What is read as a kind is of that kind. -/
theorem kind_of_read {kind : Kind} {text : String} {v : Value}
    (read : Value.read kind text = .ok v) : v.kind = kind := by
  unfold Value.read at read
  cases kind with
  | number | count | toggle | counts | pattern =>
      dsimp only at read
      split at read
      next =>
        cases read
        rfl
      next => cases read

namespace Store

variable {s : Store} {key : Key} {text : String}

/-- A value of the key's own kind can be handed over either way. -/
theorem setValue_eq_set (s : Store) (key : Key) (x : key.kind.Carrier) :
    s.setValue key ⟨key.kind, x⟩ = s.set key x := by
  unfold setValue
  rw [dif_pos rfl]

/-- A value with a place on the number line that is not of the grid is put
under its key and followed up by the key's side. -/
theorem set_eq_settle (s : Store) {key : Key} (x : key.kind.Carrier)
    (placed : unplaced key.kind x = none) (flat : key.affectsGeometry = false) :
    s.set key x = settle { s with config := s.config.put key x } key := by
  unfold set
  rw [placed]
  dsimp only
  rw [if_neg (by rw [flat]; exact Bool.false_ne_true)]

/-- A text that stands for a value is as good as the value. -/
theorem setText_of_reads {x : key.kind.Carrier} (reads : key.kind.Reads text x) :
    s.setText key text = s.set key x := by
  have typed {f : PatternField} (pattern : Kind.pattern.Reads text f) (old : PatternField) :
      old.edit text = (f, none) := by
    obtain ⟨rfl, compiled⟩ := pattern
    unfold PatternField.edit
    rw [compiled]
  cases key with
  | audioSubdivisions | visualSubdivisions =>
      rw [set_eq_settle s x rfl rfl]
      unfold setText
      dsimp only
      rw [typed reads]
      rfl
  | _ =>
      rw [← setValue_eq_set]
      unfold setText
      dsimp only
      rw [show Value.read _ text = _ from reads]

/-- A text is only taken if it stands for a value. -/
theorem reads_of_setText {change : Change} (taken : (s.setText key text).answer = .ok change) :
    ∃ x, key.kind.Reads text x := by
  have compiles {old : PatternField} {t : Store} {key : Key}
      (taken : (t.settleEdit key (old.edit text).2).answer = .ok change) :
      ∃ f, Kind.pattern.Reads text f := by
    unfold PatternField.edit at taken
    cases compiled : (Rhythm.compile text : Except _ (Rhythm.Loop Float)) with
    | ok loop => exact ⟨⟨text, loop⟩, rfl, compiled⟩
    | error fault =>
        rw [compiled] at taken
        cases taken
  cases key with
  | audioSubdivisions | visualSubdivisions =>
      unfold setText at taken
      dsimp only at taken
      exact compiles taken
  | _ =>
      unfold setText at taken
      dsimp only at taken
      split at taken
      next v read =>
        obtain ⟨kind, x⟩ := v
        cases kind_of_read read
        exact ⟨x, read⟩
      next => cases taken

-- ============================================================== writing

/-- A value that is taken has its place on the number line, and the grid can
be drawn with it. -/
theorem fits_of_set {x : key.kind.Carrier} {change : Change}
    (taken : (s.set key x).answer = .ok change) : unplaced key.kind x = none
      ∧ (key.affectsGeometry = true → (s.config.put key x).display.geometry.Drawable) := by
  unfold set at taken
  cases placed : unplaced key.kind x with
  | some number =>
      rw [placed] at taken
      cases taken
  | none =>
      refine ⟨rfl, fun grid => ?_⟩
      rw [placed] at taken
      dsimp only at taken
      rw [if_pos grid] at taken
      rcases replaceGeometry_cases s (s.config.put key x) with
        ⟨fault, refused⟩ | ⟨layout, -, drawable, -⟩
      · rw [refused] at taken
        cases taken
      · exact Grid.Geometry.layout_eq_ok.mp ⟨layout, drawable⟩

/-- A value with a place on the number line with which the grid can be drawn
is taken, and is then what the key holds. -/
theorem set_of_fits {x : key.kind.Carrier} (placed : unplaced key.kind x = none)
    (drawable : key.affectsGeometry = true → (s.config.put key x).display.geometry.Drawable) :
    (∃ change, (s.set key x).answer = .ok change)
      ∧ (s.set key x).store.config = s.config.put key x := by
  cases grid : key.affectsGeometry with
  | false =>
      rw [set_eq_settle s x placed grid]
      unfold settle
      cases key.side with
      | backend | display => exact ⟨⟨_, rfl⟩, rfl⟩
  | true =>
      obtain ⟨layout, laid⟩ := Grid.Geometry.layout_eq_ok.mpr (drawable grid)
      unfold set replaceGeometry
      rw [placed]
      dsimp only
      rw [if_pos grid, laid]
      exact ⟨⟨_, rfl⟩, rfl⟩

end Store

-- ============================================================ acceptance

/-- Where one grid can be drawn with a value of one of its keys, so can every
grid that can be drawn at all. -/
theorem drawable_put {c d : Config} {key : Key} {x : key.kind.Carrier}
    (grid : key.affectsGeometry = true) (own : c.display.geometry.Drawable)
    (fits : (d.put key x).display.geometry.Drawable) :
    (c.put key x).display.geometry.Drawable := by
  cases key with
  | beatsPerRow => exact { own with
      rows_ne_nil := fits.rows_ne_nil
      beats_ne_zero := fits.beats_ne_zero }
  | margin => exact { own with
      margin_finite := fits.margin_finite
      margin_nonneg := fits.margin_nonneg }
  | canvasWidth => exact { own with
      width_ne_zero := fits.width_ne_zero
      width_le := fits.width_le }
  | canvasHeight => exact { own with
      height_ne_zero := fits.height_ne_zero
      height_le := fits.height_le }
  | _ => cases grid

/-- What one store takes every store takes whose grid can be drawn, and under
the key there is then what the text stands for, under every other key what was
there before. -/
theorem Store.setText_of_taken {s t : Store} {key : Key} {text : String} {first : Change}
    (taken : (t.setText key text).answer = .ok first) (drawn : s.Drawn) :
    ∃ x, key.kind.Reads text x ∧ (∃ change, (s.setText key text).answer = .ok change)
      ∧ (s.setText key text).store.config = s.config.put key x := by
  obtain ⟨x, reads⟩ := Store.reads_of_setText taken
  rw [Store.setText_of_reads reads] at taken
  obtain ⟨placed, fits⟩ := Store.fits_of_set taken
  have own : s.config.display.geometry.Drawable := Grid.Geometry.layout_eq_ok.mp ⟨_, drawn⟩
  rw [Store.setText_of_reads reads]
  exact ⟨x, reads, Store.set_of_fits placed fun grid => drawable_put grid own (fits grid)⟩

/-- A text is acceptable under a key if a new store takes it. -/
def Key.Accepts (key : Key) (text : String) : Prop :=
  ∃ change, (Store.standard.setText key text).answer = .ok change

instance (key : Key) (text : String) : Decidable (key.Accepts text) :=
  decidable_of_iff ((Store.standard.setText key text).answer.toOption.isSome = true) <| by
    unfold Key.Accepts
    cases (Store.standard.setText key text).answer with
    | ok change => exact ⟨fun _ => ⟨change, rfl⟩, fun _ => rfl⟩
    | error fault =>
        exact ⟨fun taken => (Bool.false_ne_true taken).elim, fun ⟨_, taken⟩ => nomatch taken⟩

/-- What is acceptable is taken by every store whose grid can be drawn. -/
theorem Key.Accepts.setText {key : Key} {text : String} {s : Store} (accepts : key.Accepts text)
    (drawn : s.Drawn) :
    ∃ x, key.kind.Reads text x ∧ (∃ change, (s.setText key text).answer = .ok change)
      ∧ (s.setText key text).store.config = s.config.put key x := by
  obtain ⟨first, taken⟩ := accepts
  exact Store.setText_of_taken taken drawn

end Metrograph.Config

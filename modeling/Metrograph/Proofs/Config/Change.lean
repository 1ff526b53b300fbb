/-
What a change changes, and what a refused one leaves.

# Refused changes

A value that is refused was tried on a copy, or not at all, so the store is
what it was (`Follows.store_of_refused`). There is one exception, which is
meant: a rhythm is edited in place, and a text that does not compile stays
on display. Then the text under that one key is the new one, and whatever
was compiled before is still held, under that key as under every other
(`Retyped`). What goes to the engine of a rhythm is its loop, so nothing
that could be sent has changed either.

# Accepted changes

A value that is taken is put under its key (`wrote_of_set`), and `put`
reaches nothing else. What the change is said to have done is decided by
the key alone (`Key.change`), whichever way the value came in
(`Follows.change_eq`).
-/
import Metrograph.Proofs.Config.Acceptance
import Metrograph.Proofs.Config.Mirror

namespace Metrograph.Config

open Engine (Command Outbox)

/-- An operation is accepted if it answers with a change. -/
theorem accepted_iff {o : Outcome} :
    o.accepted = true ↔ ∃ change, o.answer = .ok change := by
  unfold Outcome.accepted
  cases o.answer with
  | ok change => exact ⟨fun _ => ⟨change, rfl⟩, fun _ => rfl⟩
  | error fault => exact ⟨nofun, nofun⟩

-- ============================================================== writing

theorem value_put_same (c : Config) (key : Key) (x : key.kind.Carrier) :
    (c.put key x).value key = ⟨key.kind, x⟩ :=
  congrArg (Value.mk key.kind) (get_put_same c key x)

/-- Putting a value under one key leaves the others. -/
theorem value_put_other (c : Config) {key other : Key} (x : key.kind.Carrier)
    (ne : other ≠ key) : (c.put key x).value other = c.value other :=
  congrArg (Value.mk other.kind) (get_put_other c x ne)

namespace Store

variable {s : Store} {op : Operation} {o : Outcome}

-- ============================================================== refusals

/-- The text on display under one key is another; its loop, what every other
key holds, the layout, and all that went or could go to the engine are as
before. -/
structure Retyped (before after : Store) (key : Key) (text : String) : Prop where
  outbox : after.outbox = before.outbox
  layout : after.layout = before.layout
  wire : after.wire = before.wire
  typed : ∃ f : PatternField, before.value key = ⟨.pattern, f⟩
    ∧ after.value key = ⟨.pattern, { f with text := text }⟩
  others : ∀ other, other ≠ key → after.value other = before.value other

/-- Whatever is refused leaves the store as it was, unless it was typed into a
rhythm. -/
theorem Follows.store_of_refused (h : Follows s op o) (refused : o.accepted = false)
    (aside : ∀ key text, op = .setText key text → key.kind ≠ .pattern) : o.store = s := by
  cases h with
  | refused => rfl
  | audioTyped text | visualTyped text => exact absurd rfl (aside _ text rfl)
  | stored | pushed | laidOut | resized | repeated | sent => cases refused

/-- A text that compiles is taken under a rhythm's key. -/
theorem accepted_of_compiled {key : Key} {text : String} {loop : Rhythm.Loop Float}
    (rhythm : key.kind = .pattern) (compiled : Rhythm.compile text = .ok loop) :
    (s.setText key text).accepted = true := by
  have reads : Kind.pattern.Reads text ⟨text, loop⟩ := ⟨rfl, compiled⟩
  cases key with
  | audioSubdivisions =>
      rw [@setText_of_reads s .audioSubdivisions text _ reads]
      rfl
  | visualSubdivisions =>
      rw [@setText_of_reads s .visualSubdivisions text _ reads]
      rfl
  | _ => cases rhythm

/-- A text that does not compile is refused under a rhythm's key, and stays on
display there. -/
theorem setText_of_failed {key : Key} {text : String} {reason : Rhythm.Fault}
    (rhythm : key.kind = .pattern) (failed : Rhythm.compile (α := Float) text = .error reason) :
    (s.setText key text).answer = .error (.pattern key reason)
      ∧ s.Retyped (s.setText key text).store key text := by
  have edited (f : PatternField) : f.edit text = ({ f with text := text }, some reason) := by
    unfold PatternField.edit
    rw [failed]
  cases key with
  | audioSubdivisions | visualSubdivisions =>
      unfold setText
      dsimp only
      rw [edited]
      refine ⟨rfl, rfl, rfl, rfl, ⟨_, rfl, rfl⟩, fun other ne => ?_⟩
      exact value_put_other s.config _ ne
  | _ => cases rhythm

/-- So a text that is refused under a rhythm's key is one that does not
compile. -/
theorem retyped_of_refused {key : Key} {text : String} (rhythm : key.kind = .pattern)
    (refused : (s.setText key text).accepted = false) :
    ∃ reason, Rhythm.compile (α := Float) text = .error reason
      ∧ (s.setText key text).answer = .error (.pattern key reason)
      ∧ s.Retyped (s.setText key text).store key text := by
  cases compiled : (Rhythm.compile text : Except _ (Rhythm.Loop Float)) with
  | ok loop =>
      rw [accepted_of_compiled rhythm compiled] at refused
      cases refused
  | error reason => exact ⟨reason, rfl, setText_of_failed rhythm compiled⟩

/-- A change that is refused leaves the whole store as it was: settings,
layout, and what is on its way to the engine. Only a text that does not
compile stays on display under the key of the rhythm it was typed into; the
loop that compiled last is still held there, and all else is as it was. -/
theorem refusal_is_atomic {s : Store} {op : Operation}
    (refused : (s.perform op).accepted = false) :
    ((∀ key text, op = .setText key text → key.kind ≠ .pattern) → (s.perform op).store = s)
      ∧ ∀ key text, op = .setText key text → key.kind = .pattern →
        ∃ reason, Rhythm.compile (α := Float) text = .error reason
          ∧ (s.perform op).answer = .error (.pattern key reason)
          ∧ s.Retyped (s.perform op).store key text := by
  refine ⟨(follows_perform s op).store_of_refused refused, ?_⟩
  rintro key text rfl rhythm
  exact retyped_of_refused rhythm refused

/-- A margin below nothing leaves no trace, a click rhythm that is left half
typed leaves its text. -/
theorem refusal_is_atomic_typing :
    (twoRows.perform (.set .margin (-1))).accepted = false
      ∧ (twoRows.perform (.set .margin (-1))).store = twoRows
      ∧ (twoRows.perform (.setText .audioSubdivisions "3:")).accepted = false
      ∧ twoRows.Retyped (twoRows.perform (.setText .audioSubdivisions "3:")).store
        .audioSubdivisions "3:" := by
  have below : (twoRows.perform (.set .margin (-1))).accepted = false := by decide +kernel
  have half : (twoRows.perform (.setText .audioSubdivisions "3:")).accepted = false := by
    decide +kernel
  obtain ⟨-, -, -, retyped⟩ := (refusal_is_atomic half).2 .audioSubdivisions "3:" rfl rfl
  exact ⟨below, (refusal_is_atomic below).1 nofun, half, retyped⟩

end Store

-- =============================================================== changes

/-- What an accepted change of a key comes to: another grid under four keys, a
push under the engine's, and nothing more under the others. -/
def Key.change (key : Key) : Change :=
  if key ∈ [Key.beatsPerRow, .margin, .canvasWidth, .canvasHeight] then .geometry
  else if key.side = .backend then .pushed
  else .stored

/-- The four are those of the grid. -/
theorem Key.change_eq (key : Key) : key.change
    = if key.affectsGeometry then .geometry
      else if key.side = .backend then .pushed
      else .stored := by
  cases key <;> rfl

namespace Store

variable {s : Store} {op : Operation} {o : Outcome} {change : Change} {key : Key}

/-- What a change comes to is decided by its key. -/
theorem Follows.change_eq (h : Follows s op o) (about : op.key? = some key)
    (taken : o.answer = .ok change) : change = key.change := by
  rw [key.change_eq]
  cases h with
  | refused | audioTyped | visualTyped => cases taken
  | stored _ named side flat =>
      cases about.symm.trans named
      cases taken
      simp [side, flat]
  | pushed _ named side =>
      cases about.symm.trans named
      cases taken
      have flat : key.affectsGeometry = false := by
        by_contra grid
        rw [key.side_of_affectsGeometry (eq_true_of_ne_false grid)] at side
        cases side
      simp [side, flat]
  | laidOut _ named grid =>
      cases about.symm.trans named
      cases taken
      simp [grid]
  | resized | repeated | sent => cases about

/-- One key holds a value, and every other key holds what it held before. -/
structure Wrote (before after : Store) (key : Key) (x : key.kind.Carrier) : Prop where
  get : after.get key = x
  value : after.value key = ⟨key.kind, x⟩
  others : ∀ other, other ≠ key → after.value other = before.value other

/-- A store whose configuration took a value wrote it. -/
theorem wrote_of_config {s t : Store} {x : key.kind.Carrier}
    (config : t.config = s.config.put key x) : s.Wrote t key x where
  get := by
    unfold Store.get
    rw [config]
    exact get_put_same s.config key x
  value := by
    unfold Store.value
    rw [config]
    exact value_put_same s.config key x
  others other ne := by
    unfold Store.value
    rw [config]
    exact value_put_other s.config x ne

/-- A value is taken exactly if it has its place on the number line and the
grid can be drawn with it. -/
theorem accepted_set_iff {x : key.kind.Carrier} : (s.set key x).accepted = true
      ↔ unplaced key.kind x = none
        ∧ (key.affectsGeometry = true → (s.config.put key x).display.geometry.Drawable) := by
  constructor
  · intro accepted
    obtain ⟨change, taken⟩ := accepted_iff.mp accepted
    exact fits_of_set taken
  · rintro ⟨placed, drawable⟩
    exact accepted_iff.mpr (set_of_fits placed drawable).1

theorem wrote_of_set {x : key.kind.Carrier} (taken : (s.set key x).answer = .ok change) :
    s.Wrote (s.set key x).store key x ∧ change = key.change := by
  obtain ⟨placed, drawable⟩ := fits_of_set taken
  exact ⟨wrote_of_config (set_of_fits placed drawable).2,
    (follows_perform s (.set key x)).change_eq rfl taken⟩

/-- A value that comes with its kind is taken only if the kind is the key's. -/
theorem kind_of_setValue {v : Value} (taken : (s.setValue key v).answer = .ok change) :
    ∃ x, v = ⟨key.kind, x⟩ := by
  obtain ⟨kind, data⟩ := v
  unfold setValue at taken
  split at taken
  next same =>
    cases same
    exact ⟨data, rfl⟩
  next => cases taken

/-- A value of the key's own kind is not refused for its kind. -/
theorem set_ne_typeMismatch {x : key.kind.Carrier} (asked : Key) (found : Kind) :
    (s.set key x).answer ≠ .error (.typeMismatch asked found) := by
  intro refused
  unfold set at refused
  split at refused
  · cases refused
  · dsimp only at refused
    split at refused
    · unfold replaceGeometry at refused
      split at refused <;> cases refused
    · unfold settle at refused
      split at refused <;> cases refused

/-- A canvas that is taken has the size asked for, and no other key is
touched. -/
theorem resized_of_resize {width height : UInt32}
    (taken : (s.resize width height).answer = .ok change) :
    (s.resize width height).store.get .canvasWidth = width
      ∧ (s.resize width height).store.get .canvasHeight = height
      ∧ (∀ other, other ≠ .canvasWidth → other ≠ .canvasHeight →
        (s.resize width height).store.value other = s.value other)
      ∧ change = .geometry := by
  have twice : ((s.config.put .canvasWidth width).put .canvasHeight height)
      = { s.config with
          display.canvasWidth := width
          display.canvasHeight := height } := rfl
  unfold resize at taken ⊢
  rcases replaceGeometry_cases s ((s.config.put .canvasWidth width).put .canvasHeight height) with
    ⟨fault, refused⟩ | ⟨layout, notices, -, resized⟩
  · rw [← twice, refused] at taken
    cases taken
  · rw [← twice, resized] at taken ⊢
    cases taken
    refine ⟨rfl, rfl, fun other wide high => ?_, rfl⟩
    show Config.value _ other = Config.value _ other
    rw [value_put_other _ _ high, value_put_other _ _ wide]

/-- A value that is taken is what its key holds from then on, to be read either
way, and no other key holds anything else. It is all the same whether it is
handed over as the key's own kind or with its kind, only that the kind may
then be wrong; and the key decides what the change comes to. A resize sets
the two sizes of the canvas and no other key. -/
theorem set_then_get (s : Store) :
    (∀ key v change, (s.setValue key v).answer = .ok change →
      ∃ x, v = ⟨key.kind, x⟩ ∧ s.Wrote (s.setValue key v).store key x ∧ change = key.change)
    ∧ (∀ key x, s.set key x = s.setValue key ⟨key.kind, x⟩
      ∧ ((s.set key x).accepted = true ↔ unplaced key.kind x = none
        ∧ (key.affectsGeometry = true → (s.config.put key x).display.geometry.Drawable))
      ∧ (∀ change, (s.set key x).answer = .ok change →
        s.Wrote (s.set key x).store key x ∧ change = key.change)
      ∧ ∀ asked found, (s.set key x).answer ≠ .error (.typeMismatch asked found))
    ∧ ∀ width height change, (s.resize width height).answer = .ok change →
      (s.resize width height).store.get .canvasWidth = width
        ∧ (s.resize width height).store.get .canvasHeight = height
        ∧ (∀ other, other ≠ .canvasWidth → other ≠ .canvasHeight →
          (s.resize width height).store.value other = s.value other)
        ∧ change = .geometry := by
  refine ⟨fun key v change taken => ?_, fun key x => ⟨?_, ?_, ?_, ?_⟩, ?_⟩
  · obtain ⟨x, rfl⟩ := kind_of_setValue taken
    rw [setValue_eq_set] at taken ⊢
    exact ⟨x, rfl, wrote_of_set taken⟩
  · exact (setValue_eq_set s key x).symm
  · exact accepted_set_iff
  · exact fun change taken => wrote_of_set taken
  · exact set_ne_typeMismatch
  · exact fun width height change taken => resized_of_resize taken

/-- A narrower canvas under its own key, a click volume, and a canvas with both
sizes at once. -/
theorem set_then_get_canvas :
    (twoRows.setValue .canvasWidth ⟨.count, (640 : UInt32)⟩).answer = .ok .geometry
      ∧ twoRows.Wrote (twoRows.setValue .canvasWidth ⟨.count, (640 : UInt32)⟩).store .canvasWidth
        (640 : UInt32)
      ∧ (twoRows.set .clickVolume (0.5 : Float)).answer = .ok .pushed
      ∧ twoRows.Wrote (twoRows.set .clickVolume (0.5 : Float)).store .clickVolume (0.5 : Float)
      ∧ (twoRows.resize 640 480).answer = .ok .geometry
      ∧ (twoRows.resize 640 480).store.get .canvasHeight = (480 : UInt32)
      ∧ (twoRows.resize 640 480).store.value .margin = twoRows.value .margin := by
  obtain ⟨tagged, typed, resized⟩ := set_then_get twoRows
  have narrow : (twoRows.setValue .canvasWidth ⟨.count, (640 : UInt32)⟩).answer
      = .ok .geometry := rfl
  have quiet : (twoRows.set .clickVolume (0.5 : Float)).answer = .ok .pushed := rfl
  have both : (twoRows.resize 640 480).answer = .ok .geometry := rfl
  obtain ⟨x, same, wrote, -⟩ := tagged _ _ _ narrow
  cases same
  obtain ⟨-, -, taken, -⟩ := typed .clickVolume (0.5 : Float)
  obtain ⟨-, high, others, -⟩ := resized 640 480 _ both
  exact ⟨narrow, wrote, quiet, (taken _ quiet).1, both, high, others .margin nofun nofun⟩

end Store

end Metrograph.Config

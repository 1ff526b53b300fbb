/-
What a store can be relied on to hold.

# Sound values

A number is sound if it is finite, a rhythm if its loop is what its own
text compiles to; every other value is sound (`Kind.Sound`). Fields are
never made up from a text and a foreign loop: they are the standard one,
made from a text that compiles, or typed into (`PatternField.Typed`), and
each of these leaves a loop that its text compiles to, also where what was
typed does not compile (`Typed.compiled`).

# Four ways in

A configuration is sound if every key holds a sound value, and putting a
sound value under a key keeps it so (`sound_put`). Whichever way a value
comes in, as the key's own kind, with a kind of its own, as a text or as a
size of the canvas, it is either sound by the time it is put there or the
configuration stays as it was (`sound_set`, `sound_setValue`,
`sound_setText`, `sound_resize`).
-/
import Metrograph.Proofs.Config.Operation
import Metrograph.Proofs.Grid.Geometry
import Metrograph.Proofs.Rhythm.Compiled

namespace Metrograph.Config

-- ============================================================== rhythms

namespace PatternField

/-- The loop of a field is what its text compiles to. -/
def Compiled (f : PatternField) : Prop := Rhythm.compile f.loop.source = .ok f.loop

/-- How a field comes about. -/
inductive Typed : PatternField → Prop where
  | standard : Typed standard
  | ofText {text : String} {f : PatternField} (made : ofText text = .ok f) : Typed f
  | edit {f : PatternField} (typed : Typed f) (text : String) : Typed (f.edit text).1

theorem compiled_standard : standard.Compiled :=
  eq_ok_of_toOption (by decide +kernel)

/-- A pattern that was just compiled holds the loop of its text. -/
theorem compiled_of_compile {text : String} {f : PatternField}
    (h : Rhythm.compile text = .ok f.loop) : f.Compiled := by
  unfold Compiled
  rw [Rhythm.source_of_compile h]
  exact h

/-- A pattern that is made from a text holds its loop. -/
theorem compiled_ofText {text : String} {f : PatternField} (made : ofText text = .ok f) :
    f.Compiled := by
  obtain ⟨loop, compiled, made⟩ := bind_eq_ok.mp made
  cases made
  exact compiled_of_compile compiled

/-- A text that does not compile leaves the loop, and so the text it was
compiled from. -/
theorem Compiled.edit {f : PatternField} (h : f.Compiled) (text : String) :
    (f.edit text).1.Compiled := by
  unfold PatternField.edit
  cases read : (Rhythm.compile text : Except _ (Rhythm.Loop Float)) with
  | ok loop => exact compiled_of_compile read
  | error fault => exact h

/-- Whatever was typed, the loop is that of a text that compiles. -/
theorem Typed.compiled {f : PatternField} (typed : f.Typed) : f.Compiled := by
  induction typed with
  | standard => exact compiled_standard
  | ofText made => exact compiled_ofText made
  | edit _ text before => exact before.edit text

end PatternField

-- =============================================================== values

/-- A value of a kind as it can be handed over: a rhythm was typed. -/
def Kind.Genuine : (kind : Kind) → kind.Carrier → Prop
  | .pattern, f => f.Typed
  | _, _ => True

/-- A finite number, or a rhythm with a loop that its text compiles to. -/
def Kind.Sound : (kind : Kind) → kind.Carrier → Prop
  | .number, x => x.isFinite = true
  | .pattern, f => f.Compiled
  | _, _ => True

/-- An operation that hands over no rhythm that was not typed. -/
def Operation.Genuine : Operation → Prop
  | .set key x => key.kind.Genuine x
  | .setValue _ v => v.kind.Genuine v.data
  | _ => True

/-- What is no number off the number line is sound. -/
theorem sound_of_placed {kind : Kind} {x : kind.Carrier} (genuine : kind.Genuine x)
    (placed : Store.unplaced kind x = none) : kind.Sound x := by
  cases kind with
  | number =>
      show x.isFinite = true
      unfold Store.unplaced at placed
      dsimp only at placed
      by_contra infinite
      rw [if_neg infinite] at placed
      cases placed
  | pattern => exact PatternField.Typed.compiled genuine
  | count | toggle | counts => trivial

/-- A value that was read from a text could have been made by the program. -/
theorem genuine_of_read {kind : Kind} {text : String} {v : Value}
    (read : Value.read kind text = .ok v) : v.kind.Genuine v.data := by
  unfold Value.read at read
  cases kind with
  | number | count | toggle | counts =>
      dsimp only at read
      split at read
      next =>
        cases read
        trivial
      next => cases read
  | pattern =>
      dsimp only at read
      split at read
      next f made =>
        cases read
        exact .ofText made
      next => cases read

-- ======================================================= configurations

theorem get_put_same (c : Config) (key : Key) (x : key.kind.Carrier) :
    (c.put key x).get key = x := by
  cases key <;> rfl

/-- Putting a value under one key leaves the others. -/
theorem get_put_other (c : Config) {key other : Key} (x : key.kind.Carrier) (ne : other ≠ key) :
    (c.put key x).get other = c.get other := by
  cases key <;> cases other <;> first | rfl | exact absurd rfl ne

/-- Every key holds a sound value. -/
def Sound (c : Config) : Prop := ∀ key : Key, key.kind.Sound (c.get key)

/-- Values that can be held together can be put one by one. -/
theorem sound_put {c : Config} {key : Key} {x : key.kind.Carrier} (sound : c.Sound)
    (h : key.kind.Sound x) : (c.put key x).Sound := by
  intro other
  by_cases same : other = key
  · subst same
    rw [get_put_same]
    exact h
  · rw [get_put_other c x same]
    exact sound other

/-- A grid that can be drawn has a finite margin. -/
theorem isFinite_margin {g : Grid.Geometry Float} {layout : Grid.Layout Float}
    (drawable : g.layout = .ok layout) : g.margin.isFinite = true :=
  (Grid.Geometry.layout_eq_ok.mp ⟨layout, drawable⟩).margin_finite

namespace Store

variable {s : Store}

-- ================================================================ steps

/-- Settling a change leaves the configuration sound. -/
theorem sound_settle {key : Key} (sound : s.config.Sound) : (s.settle key).store.config.Sound := by
  unfold settle
  cases key.side with
  | backend => exact sound
  | display => exact sound

/-- A geometry is replaced only by one that can be drawn. -/
theorem sound_replaceGeometry {next : Config} (sound : s.config.Sound) (h : next.Sound) :
    (s.replaceGeometry next).store.config.Sound := by
  rcases replaceGeometry_cases s next with ⟨fault, refused⟩ | ⟨layout, notices, -, taken⟩
  · rw [refused]
    exact sound
  · rw [taken]
    exact h

/-- A typed set leaves the configuration sound, accepted or not. -/
theorem sound_set {key : Key} {x : key.kind.Carrier} (genuine : key.kind.Genuine x)
    (sound : s.config.Sound) : (s.set key x).store.config.Sound := by
  unfold set
  cases placed : unplaced key.kind x with
  | some number => exact sound
  | none =>
      have put : (s.config.put key x).Sound := sound_put sound (sound_of_placed genuine placed)
      dsimp only
      split
      · exact sound_replaceGeometry sound put
      · exact sound_settle put

/-- So does a set of a value of any kind. -/
theorem sound_setValue {key : Key} {v : Value} (genuine : v.kind.Genuine v.data)
    (sound : s.config.Sound) : (s.setValue key v).store.config.Sound := by
  unfold setValue
  split
  next same =>
    obtain ⟨kind, data⟩ := v
    cases same
    exact sound_set genuine sound
  next => exact sound

theorem sound_settleEdit {key : Key} (fault : Option Rhythm.Fault) (sound : s.config.Sound) :
    (s.settleEdit key fault).store.config.Sound := by
  cases fault with
  | none => exact sound_settle sound
  | some fault => exact sound

/-- So does a text, readable or not. -/
theorem sound_setText {key : Key} {text : String} (sound : s.config.Sound) :
    (s.setText key text).store.config.Sound := by
  unfold setText
  split
  · have field : s.config.backend.audioSubdivisions.Compiled := sound .audioSubdivisions
    have typed := field.edit text
    generalize s.config.backend.audioSubdivisions.edit text = edited at typed ⊢
    exact sound_settleEdit edited.2 (@sound_put _ .audioSubdivisions edited.1 sound typed)
  · have field : s.config.display.visualSubdivisions.Compiled := sound .visualSubdivisions
    have typed := field.edit text
    generalize s.config.display.visualSubdivisions.edit text = edited at typed ⊢
    exact sound_settleEdit edited.2 (@sound_put _ .visualSubdivisions edited.1 sound typed)
  · split
    next v read => exact sound_setValue (genuine_of_read read) sound
    next => exact sound

/-- So does a new size of the canvas. -/
theorem sound_resize {width height : UInt32} (sound : s.config.Sound) :
    (s.resize width height).store.config.Sound := by
  have wide : (s.config.put .canvasWidth width).Sound :=
    @sound_put _ .canvasWidth width sound trivial
  have resized : ((s.config.put .canvasWidth width).put .canvasHeight height).Sound :=
    @sound_put _ .canvasHeight height wide trivial
  unfold resize
  exact sound_replaceGeometry sound resized

/-- Every operation keeps every key's value sound, whatever it comes to. -/
theorem sound_perform {op : Operation} (genuine : op.Genuine) (sound : s.config.Sound) :
    (s.perform op).store.config.Sound := by
  cases op with
  | set key x => exact sound_set genuine sound
  | setValue key v => exact sound_setValue genuine sound
  | setText key text => exact sound_setText sound
  | resize width height => exact sound_resize sound
  | push => exact sound
  | send c => exact sound

/-- However many operations there were, the configuration is sound. -/
theorem sound_performAll {ops : List Operation} (genuine : ∀ op ∈ ops, op.Genuine)
    (sound : s.config.Sound) : (s.performAll ops).config.Sound := by
  induction ops generalizing s with
  | nil => exact sound
  | cons op rest ih =>
      have first : op.Genuine := genuine op List.mem_cons_self
      have later : ∀ o ∈ rest, o.Genuine := fun o ho => genuine o (List.mem_cons_of_mem _ ho)
      exact ih later (sound_perform first sound)

end Store

-- ================================================================= runs

/-- The standard settings with a grid of one's own. -/
def onGrid (rows : List UInt32) (margin : Float) (width height : UInt32) : Config where
  backend := .standard
  display := { Display.standard with
    beatsPerRow := rows
    margin := margin
    canvasWidth := width
    canvasHeight := height }

theorem placed_standard :
    ∀ key ∈ Key.all, Store.unplaced key.kind (Config.standard.get key) = none := by
  decide +kernel

/-- No key is missing from the list. -/
theorem mem_all (key : Key) : key ∈ Key.all := by
  cases key <;> decide

theorem sound_standard : Config.standard.Sound := by
  intro key
  refine sound_of_placed ?_ (placed_standard key (mem_all key))
  cases key with
  | audioSubdivisions | visualSubdivisions => exact PatternField.Typed.standard
  | _ => trivial

/-- The standard configuration is sound on any grid whose margin is finite. -/
theorem sound_onGrid {rows : List UInt32} {margin : Float} {width height : UInt32}
    (placed : margin.isFinite = true) : (onGrid rows margin width height).Sound := by
  unfold onGrid
  have rowed : (Config.standard.put .beatsPerRow rows).Sound :=
    @sound_put _ .beatsPerRow rows sound_standard trivial
  have framed := @sound_put _ .margin margin rowed placed
  have wide := @sound_put _ .canvasWidth width framed trivial
  exact @sound_put _ .canvasHeight height wide trivial

/-- Whatever is done to a store, and whether it succeeds or not: the layout is
the one that the settings ask for, every number is finite, and every rhythm is
what its text compiles to. -/
theorem sound_of_operations {rows : List UInt32} {margin : Float} {width height : UInt32}
    {outbox : Engine.Outbox} {s : Store}
    (made : Store.ofConfig (onGrid rows margin width height) outbox = .ok s)
    {ops : List Operation} (genuine : ∀ op ∈ ops, op.Genuine) :
    (s.performAll ops).config.display.geometry.layout = .ok (s.performAll ops).layout
      ∧ (∀ key x, (s.performAll ops).config.value key = ⟨.number, x⟩ → x.isFinite = true)
      ∧ ∀ key (f : PatternField), (s.performAll ops).config.value key = ⟨.pattern, f⟩ →
        Rhythm.compile f.loop.source = .ok f.loop := by
  obtain ⟨drawn, -, config⟩ := Store.drawn_ofConfig made
  have placed : margin.isFinite = true := by
    unfold Store.Drawn at drawn
    rw [config] at drawn
    exact @isFinite_margin (onGrid rows margin width height).display.geometry _ drawn
  have sound : (s.performAll ops).config.Sound := by
    refine Store.sound_performAll genuine ?_
    rw [config]
    exact sound_onGrid placed
  have held : ∀ key, ((s.performAll ops).config.value key).kind.Sound
      ((s.performAll ops).config.value key).data := sound
  refine ⟨Store.drawn_performAll drawn, fun key x holds => ?_, fun key f holds => ?_⟩
  · have finite := held key
    rw [holds] at finite
    exact finite
  · have compiled := held key
    rw [holds] at compiled
    exact compiled

/-- A rhythm that compiles and is then typed on, a tempo off the number line, a
canvas without and one with an area, and a rhythm that was left half typed. -/
def edits : List Operation :=
  [.setText .audioSubdivisions "3:1", .setText .audioSubdivisions "3:",
    .setValue .bpm ⟨.number, 1 / 0⟩, .resize 0 480, .resize 640 480,
    .set .visualSubdivisions (PatternField.standard.edit "[~").1, .push]

theorem genuine_edits : ∀ op ∈ edits, op.Genuine := by
  intro op member
  unfold edits at member
  simp only [List.mem_cons, List.not_mem_nil, or_false] at member
  rcases member with rfl | rfl | rfl | rfl | rfl | rfl | rfl
  case inr.inr.inr.inr.inr.inl => exact PatternField.Typed.standard.edit "[~"
  all_goals trivial

/-- A store with two rows of its own. -/
def twoRows : Store where
  config := onGrid [3, 4] 0.5 800 600
  layout := ⟨(onGrid [3, 4] 0.5 800 600).display.geometry, rfl⟩
  outbox := .empty

/-- The store of the two rows can be made. -/
theorem ofConfig_twoRows : Store.ofConfig (onGrid [3, 4] 0.5 800 600) .empty = .ok twoRows := rfl

/-- After the edits what was typed last is on display and what compiled last is
held. -/
theorem sound_of_operations_edits :
    Store.ofConfig (onGrid [3, 4] 0.5 800 600) .empty = .ok twoRows
      ∧ (∀ op ∈ edits, op.Genuine)
      ∧ (twoRows.performAll edits).config.backend.audioSubdivisions.text = "3:"
      ∧ Rhythm.compile "3:1" = .ok (twoRows.performAll edits).config.backend.audioSubdivisions.loop
      ∧ (twoRows.performAll edits).config.backend.bpm.isFinite = true
      ∧ (twoRows.performAll edits).layout.width = 640 := by
  obtain ⟨drawn, finite, compiled⟩ := sound_of_operations ofConfig_twoRows genuine_edits
  have held := compiled .audioSubdivisions
    (twoRows.performAll edits).config.backend.audioSubdivisions rfl
  have source : (twoRows.performAll edits).config.backend.audioSubdivisions.loop.source
      = "3:1" := by decide +kernel
  rw [source] at held
  exact ⟨ofConfig_twoRows, genuine_edits, by decide +kernel, held, finite .bpm _ rfl,
    by decide +kernel⟩

end Metrograph.Config

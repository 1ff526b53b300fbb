/-
Changes to different keys have nothing to do with each other.

# Why this needs a store that came about

A text is judged by itself, except for one part of a grid, which is tried
together with the other parts as they are. If one of those could not be
drawn by itself, it would spoil every change of the others until it was put
right, and the order of two changes would count. In a store that came about
(`Reachable`) the grid can always be drawn, so each part is judged by itself
as well, and what one such store takes every other takes
(`accepted_setText`).

# Two changes

A text that is taken puts there the one value it stands for; a text that is
refused leaves the key as it was, or leaves a rhythm with another text on
display. So what a key holds afterwards depends on the text and on what the
key held before, and on nothing else (`value_setText`), and the other keys
are left alone (`value_setText_other`). Two texts under different keys
therefore come to the same, in whatever order they are given.
-/
import Metrograph.Proofs.Config.Change

namespace Metrograph.Config

open Engine (Command Outbox)

attribute [ext] Backend Display Config

-- ======================================================= configurations

/-- A configuration is what its keys hold. -/
theorem ext_value {c d : Config} (same : ∀ key, c.value key = d.value key) : c = d := by
  have held (key : Key) : c.get key = d.get key := by
    have pair := same key
    unfold value at pair
    injection pair with _ data
  exact Config.ext
    (Backend.ext (held .audioInGain) (held .audioMonitorOn) (held .beatsToLoop) (held .bpm)
      (held .bufferCompensation) (held .clickOn) (held .clickToggle) (held .clickVolume)
      (held .drumOn) (held .loopingOn) (held .playFile) (held .audioSubdivisions)
      (held .visualMonitorOn))
    (Display.ext (held .barColorMode) (held .beatsPerRow) (held .canvasHeight)
      (held .canvasWidth) (held .margin) (held .visualSubdivisions) (held .subdivisionOffset)
      (held .visualGain))

/-- A text stands for one value of a kind at most. -/
theorem Kind.Reads.unique {kind : Kind} {text : String} {x y : kind.Carrier}
    (one : kind.Reads text x) (other : kind.Reads text y) : x = y := by
  cases kind with
  | pattern =>
      obtain ⟨shown, compiled⟩ := one
      obtain ⟨shown', compiled'⟩ := other
      obtain ⟨_, _⟩ := x
      obtain ⟨_, _⟩ := y
      cases shown.trans shown'.symm
      cases compiled.symm.trans compiled'
      rfl
  | number | count | toggle | counts =>
      have read : Value.read _ text = .ok ⟨_, x⟩ := one
      have read' : Value.read _ text = .ok ⟨_, y⟩ := other
      exact eq_of_heq (Value.mk.inj (Except.ok.inj (read.symm.trans read'))).2

namespace Store

-- ========================================================== reachability

/-- The stores that come about: made over some settings, operated on, and with
an outbox that others take from or turn away from. -/
inductive Reachable : Store → Prop where
  | made {config : Config} {outbox : Outbox} {s : Store} (made : ofConfig config outbox = .ok s) :
      Reachable s
  | performed {s : Store} (before : Reachable s) (op : Operation) : Reachable (s.perform op).store
  | received {s : Store} (before : Reachable s) (outbox : Outbox) :
      Reachable { s with outbox := outbox }

/-- In a store that came about the layout is the one its settings ask for. -/
theorem Reachable.drawn {s : Store} (reachable : s.Reachable) : s.Drawn := by
  induction reachable with
  | made made => exact (drawn_ofConfig made).1
  | performed _ op before => exact (follows_perform _ op).drawn before
  | received _ _ before => exact before

/-- The same settings are drawn alike. -/
theorem Drawn.layout_eq {s t : Store} (here : s.Drawn) (there : t.Drawn)
    (same : s.config = t.config) : s.layout = t.layout := by
  unfold Drawn at here there
  rw [same] at here
  exact Except.ok.inj (here.symm.trans there)

-- ============================================================== one text

variable {s t : Store} {key other : Key} {text : String}

/-- It does not matter which store is asked whether a text is taken. -/
theorem accepted_setText (here : s.Drawn) (there : t.Drawn) :
    (s.setText key text).accepted = (t.setText key text).accepted := by
  rw [Bool.eq_iff_iff, accepted_iff, accepted_iff]
  constructor
  · rintro ⟨change, taken⟩
    obtain ⟨x, -, also, -⟩ := setText_of_taken taken there
    exact also
  · rintro ⟨change, taken⟩
    obtain ⟨x, -, also, -⟩ := setText_of_taken taken here
    exact also

/-- An operation on one key leaves every other key alone, whatever it comes
to. -/
theorem Follows.value_other {op : Operation} {o : Outcome} (h : Follows s op o)
    (about : op.key? = some key) (ne : other ≠ key) :
    o.store.value other = s.value other := by
  cases h with
  | refused => rfl
  | audioTyped | visualTyped =>
      cases about
      exact value_put_other s.config _ ne
  | stored x named | pushed x named | laidOut x named =>
      cases about.symm.trans named
      exact value_put_other s.config x ne
  | resized | repeated | sent => cases about

/-- Typing into one field leaves the values of the others, also where it is refused. -/
theorem value_setText_other (s : Store) (text : String) (ne : other ≠ key) :
    (s.setText key text).store.value other = s.value other :=
  (follows_setText key text).value_other rfl ne

/-- What a key holds after a text depends on the text and on what the key held
before. -/
theorem value_setText (here : s.Drawn) (there : t.Drawn) (same : s.value key = t.value key) :
    (s.setText key text).store.value key = (t.setText key text).store.value key := by
  have alike : (s.setText key text).accepted = (t.setText key text).accepted :=
    accepted_setText here there
  cases accepted : (s.setText key text).accepted with
  | true =>
      obtain ⟨change, taken⟩ := accepted_iff.mp accepted
      obtain ⟨x, reads, -, config⟩ := setText_of_taken taken here
      obtain ⟨y, reads', -, config'⟩ := setText_of_taken taken there
      cases reads.unique reads'
      rw [(wrote_of_config config).value, (wrote_of_config config').value]
  | false =>
      rw [accepted] at alike
      by_cases rhythm : key.kind = .pattern
      · obtain ⟨_, -, -, retyped⟩ := retyped_of_refused rhythm accepted
        obtain ⟨_, -, -, retyped'⟩ := retyped_of_refused rhythm alike.symm
        obtain ⟨f, before, after⟩ := retyped.typed
        obtain ⟨g, before', after'⟩ := retyped'.typed
        rw [before, before'] at same
        cases same
        rw [after, after']
      · have aside : ∀ k b, Operation.setText key text = .setText k b → k.kind ≠ .pattern := by
          rintro k b ⟨rfl, rfl⟩
          exact rhythm
        rw [(follows_setText key text).store_of_refused accepted aside,
          (follows_setText key text).store_of_refused alike.symm aside, same]

-- ============================================================= two texts

/-- Texts under different keys come to the same settings in either order. -/
theorem config_setText_comm (drawn : s.Drawn) {k l : Key} (ne : k ≠ l) (a b : String) :
    ((s.setText k a).store.setText l b).store.config
      = ((s.setText l b).store.setText k a).store.config := by
  have first : (s.setText k a).store.Drawn := (follows_setText k a).drawn drawn
  have second : (s.setText l b).store.Drawn := (follows_setText l b).drawn drawn
  refine ext_value fun key => ?_
  show value _ key = value _ key
  by_cases isFirst : key = k
  · subst isFirst
    rw [value_setText_other _ b ne]
    exact value_setText drawn second (value_setText_other s b ne).symm
  · by_cases isSecond : key = l
    · subst isSecond
      rw [value_setText_other _ a isFirst]
      exact value_setText first drawn (value_setText_other s a isFirst)
    · rw [value_setText_other _ b isSecond, value_setText_other s a isFirst,
        value_setText_other _ a isFirst, value_setText_other s b isSecond]

end Store

end Metrograph.Config

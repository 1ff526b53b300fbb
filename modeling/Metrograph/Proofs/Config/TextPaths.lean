/-
A text can come to a key in two ways.

It is given to the key as it is (`setText`), or it is read as a value of
the key's kind and the value is given to the key (`setValue`). Under most
keys the first is done by the second. But a rhythm is edited in place, to
keep a text that does not compile on display, and there the text is not
trimmed, while every text that is read is.

The notation skips spaces and tabs by itself, so this makes no difference
where nothing else is trimmed off (`EndsInBlanks`): then both ways take the
text or neither does, and the rhythms have the same notes and the same
length. With other white space at its ends, such as a line break, a text
that is read as a rhythm is refused by the rhythm's own key.
-/
import Metrograph.Proofs.Config.Independence
import Metrograph.Proofs.Rhythm.Padding

namespace Metrograph.Config

open Rhythm (EndsInBlanks compile)

/-- Two values are the same, or rhythms that play the same, of which the second
shows the text of the first without the white space at its ends. -/
inductive Value.PlaysAs : Value → Value → Prop
  | same (v : Value) : PlaysAs v v
  | rhythm {f g : PatternField} (text : g.text = Text.trim f.text)
      (notes : f.loop.notes = g.loop.notes) (length : f.loop.length = g.loop.length) :
      PlaysAs ⟨.pattern, f⟩ ⟨.pattern, g⟩

/-- A rhythm is read if the text compiles once it is trimmed. -/
theorem read_pattern {text : String} {v : Value} : Value.read .pattern text = .ok v
    ↔ ∃ loop, compile (Text.trim text) = .ok loop ∧ v = ⟨.pattern, ⟨Text.trim text, loop⟩⟩ := by
  constructor
  · intro read
    unfold Value.read at read
    dsimp only at read
    split at read
    next f made =>
      obtain ⟨loop, compiled, made⟩ := bind_eq_ok.mp made
      cases made
      cases read
      exact ⟨loop, compiled, rfl⟩
    next => cases read
  · rintro ⟨loop, compiled, rfl⟩
    have made : PatternField.ofText (Text.trim text) = .ok ⟨Text.trim text, loop⟩ :=
      bind_eq_ok.mpr ⟨loop, compiled, rfl⟩
    unfold Value.read
    dsimp only
    rw [made]

namespace Store

variable {s : Store} {key : Key} {text : String} {v : Value}

/-- Where no rhythm is held a text is set as it is read. -/
theorem setText_of_read (plain : key.kind ≠ .pattern) (read : Value.read key.kind text = .ok v) :
    s.setText key text = s.setValue key v := by
  cases key with
  | audioSubdivisions | visualSubdivisions => exact absurd rfl plain
  | _ =>
      unfold setText
      dsimp only
      rw [read]

/-- A text that is accepted for a field other than a pattern can be read. -/
theorem exists_read_of_accepted (plain : key.kind ≠ .pattern)
    (accepted : (s.setText key text).accepted = true) : ∃ v, Value.read key.kind text = .ok v := by
  obtain ⟨change, taken⟩ := accepted_iff.mp accepted
  obtain ⟨x, reads⟩ := reads_of_setText taken
  cases key with
  | audioSubdivisions | visualSubdivisions => exact absurd rfl plain
  | _ => exact ⟨_, reads⟩

/-- A text that compiles is set as the rhythm that it is. -/
theorem setText_of_compiled {loop : Rhythm.Loop Float} (rhythm : key.kind = .pattern)
    (compiled : compile text = .ok loop) :
    s.setText key text = s.setValue key ⟨.pattern, ⟨text, loop⟩⟩ := by
  have reads : Kind.pattern.Reads text ⟨text, loop⟩ := ⟨rfl, compiled⟩
  cases key with
  | audioSubdivisions =>
      have set := @setText_of_reads s .audioSubdivisions text _ reads
      exact set.trans (setValue_eq_set s _ _).symm
  | visualSubdivisions =>
      have set := @setText_of_reads s .visualSubdivisions text _ reads
      exact set.trans (setValue_eq_set s _ _).symm
  | _ => cases rhythm

/-- A rhythm that was read is always taken. -/
theorem answer_setValue_rhythm (rhythm : key.kind = .pattern) (f : PatternField) :
    (s.setValue key ⟨.pattern, f⟩).answer = .ok key.change := by
  cases key with
  | audioSubdivisions | visualSubdivisions => rfl
  | _ => cases rhythm

/-- A text for a pattern is accepted exactly if it compiles as it is. -/
theorem accepted_rhythm_iff (rhythm : key.kind = .pattern) :
    (s.setText key text).accepted = true
      ↔ ∃ loop : Rhythm.Loop Float, compile text = .ok loop := by
  constructor
  · intro accepted
    cases compiled : (compile text : Except Rhythm.Fault (Rhythm.Loop Float)) with
    | ok loop => exact ⟨loop, rfl⟩
    | error reason =>
        obtain ⟨change, taken⟩ := accepted_iff.mp accepted
        rw [(setText_of_failed rhythm compiled).1] at taken
        cases taken
  · rintro ⟨loop, compiled⟩
    exact accepted_of_compiled rhythm compiled

/-- A value that is taken is what the key holds. -/
theorem value_of_setValue (accepted : (s.setValue key v).accepted = true) :
    (s.setValue key v).store.value key = v := by
  obtain ⟨change, taken⟩ := accepted_iff.mp accepted
  obtain ⟨x, rfl⟩ := kind_of_setValue taken
  rw [setValue_eq_set] at taken ⊢
  exact (wrote_of_set taken).1.value

/-- A rhythm's text that is taken is one that compiles when it is trimmed, of
nothing but blanks. -/
theorem setText_iff_of_rhythm (rhythm : key.kind = .pattern) :
    (s.setText key text).accepted = true
      ↔ (∃ v, Value.read .pattern text = .ok v ∧ (s.setValue key v).accepted = true)
        ∧ EndsInBlanks text := by
  rw [accepted_rhythm_iff rhythm]
  constructor
  · rintro ⟨loop, compiled⟩
    obtain ⟨ends, trimmed⟩ := Rhythm.compile_trim compiled
    exact ⟨⟨_, read_pattern.mpr ⟨_, trimmed, rfl⟩,
      accepted_iff.mpr ⟨_, answer_setValue_rhythm rhythm _⟩⟩, ends⟩
  · rintro ⟨⟨v, read, -⟩, ends⟩
    obtain ⟨loop, compiled, -⟩ := read_pattern.mp read
    exact ⟨_, Rhythm.compile_of_trim ends compiled⟩

theorem playsAs_of_rhythm (rhythm : key.kind = .pattern) (read : Value.read .pattern text = .ok v)
    (accepted : (s.setText key text).accepted = true) :
    (s.setValue key v).answer = (s.setText key text).answer
      ∧ ((s.setText key text).store.value key).PlaysAs ((s.setValue key v).store.value key) := by
  obtain ⟨loop, compiled⟩ := (accepted_rhythm_iff rhythm).mp accepted
  obtain ⟨played, trimmed, rfl⟩ := read_pattern.mp read
  -- trimmed or not, the text compiles to the same notes
  cases trimmed.symm.trans (Rhythm.compile_trim compiled).2
  have either (f : PatternField) : (s.setValue key ⟨.pattern, f⟩).store.value key = ⟨.pattern, f⟩ :=
    value_of_setValue (accepted_iff.mpr ⟨_, answer_setValue_rhythm rhythm f⟩)
  rw [setText_of_compiled rhythm compiled, either, either, answer_setValue_rhythm rhythm,
    answer_setValue_rhythm rhythm]
  exact ⟨rfl, .rhythm rfl rfl rfl⟩

/-- A text is taken by a key exactly if it is read as a value that the key
takes, and if there is nothing but blanks to trim off a rhythm's text. Then
both ways come to the same change and leave the same value, or rhythms that
play the same, the one untrimmed and the other trimmed. -/
theorem setText_iff_read_setValue (s : Store) (key : Key) (text : String) :
    ((s.setText key text).accepted = true
        ↔ (∃ v, Value.read key.kind text = .ok v ∧ (s.setValue key v).accepted = true)
          ∧ (key.kind = .pattern → EndsInBlanks text))
      ∧ ∀ v, Value.read key.kind text = .ok v → (s.setText key text).accepted = true →
        (s.setValue key v).answer = (s.setText key text).answer
          ∧ ((s.setText key text).store.value key).PlaysAs
            ((s.setValue key v).store.value key) := by
  by_cases rhythm : key.kind = .pattern
  · rw [setText_iff_of_rhythm rhythm, rhythm]
    refine ⟨and_congr_right fun _ => ⟨fun ends _ => ends, fun ends => ends rfl⟩, ?_⟩
    rintro v read taken
    exact playsAs_of_rhythm rhythm read ((setText_iff_of_rhythm rhythm).mpr taken)
  · refine ⟨⟨fun accepted => ?_, ?_⟩, fun v read accepted => ?_⟩
    · obtain ⟨v, read⟩ := exists_read_of_accepted rhythm accepted
      rw [setText_of_read rhythm read] at accepted
      exact ⟨⟨v, read, accepted⟩, fun pattern => absurd pattern rhythm⟩
    · rintro ⟨⟨v, read, accepted⟩, -⟩
      rw [setText_of_read rhythm read]
      exact accepted
    · rw [setText_of_read rhythm read]
      exact ⟨rfl, .same _⟩

/-- A rhythm between a tab and a space, and a tempo between line breaks. -/
theorem setText_iff_read_setValue_padded :
    (∃ v, Value.read .pattern "\t3:1 " = .ok v
        ∧ (standard.setText .audioSubdivisions "\t3:1 ").accepted = true
        ∧ (standard.setValue .audioSubdivisions v).answer
          = (standard.setText .audioSubdivisions "\t3:1 ").answer
        ∧ ((standard.setText .audioSubdivisions "\t3:1 ").store.value .audioSubdivisions).PlaysAs
          ((standard.setValue .audioSubdivisions v).store.value .audioSubdivisions))
      ∧ ∃ v, Value.read .number "\n120\n" = .ok v ∧ (standard.setValue .bpm v).accepted = true
        ∧ (standard.setText .bpm "\n120\n").accepted = true := by
  have accepted : (standard.setText .audioSubdivisions "\t3:1 ").accepted = true := by
    decide +kernel
  obtain ⟨agree, alike⟩ := setText_iff_read_setValue standard .audioSubdivisions "\t3:1 "
  obtain ⟨⟨v, read, -⟩, -⟩ := agree.mp accepted
  obtain ⟨answer, plays⟩ := alike v read accepted
  have tempo : (standard.setText .bpm "\n120\n").accepted = true := by decide +kernel
  obtain ⟨⟨w, number, valued⟩, -⟩ :=
    (setText_iff_read_setValue standard .bpm "\n120\n").1.mp tempo
  exact ⟨⟨v, read, accepted, answer, plays⟩, w, number, valued, tempo⟩

/-- A rhythm with a line break behind it is read as a value that the key takes,
but the key does not take it as it is. -/
theorem setText_refuses_lineBreak :
    standard.Reachable ∧ (standard.setText .visualSubdivisions "3:1\n").accepted = false
      ∧ ∃ v, Value.read Key.visualSubdivisions.kind "3:1\n" = .ok v
        ∧ (standard.setValue .visualSubdivisions v).accepted = true := by
  have refused : (standard.setText .visualSubdivisions "3:1\n").accepted = false := by
    decide +kernel
  have trimmed : (compile (Text.trim "3:1\n") : Except _ (Rhythm.Loop Float)).toOption.isSome := by
    decide +kernel
  obtain ⟨loop, compiled⟩ := Option.isSome_iff_exists.mp trimmed
  exact ⟨.made ofConfig_standard, refused, _,
    read_pattern.mpr ⟨loop, eq_ok_of_toOption compiled, rfl⟩,
    accepted_iff.mpr ⟨_, answer_setValue_rhythm rfl _⟩⟩

end Store

end Metrograph.Config

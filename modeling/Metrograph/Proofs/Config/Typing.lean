/-
A rhythm that is being typed, from its first text through all edits.

# What a field recalls

A field has no memory of its edits: it has the text on display and one
loop. Still both are determined by the history of its texts
(`Recalls`), the text as the last one and the loop as what the last text
that compiles comes to. One edit puts its text at the end of the history,
and the recall is kept whether the text compiles or not (`Recalls.edit`).

# What is pending

Whether the last text failed is not stored either. It is read off the text
that the loop was compiled from, which is one of the history: a text that
differs from it on display has failed, since it would have become the
source of the loop; and a text that failed differs from it, since the
source has compiled (`Recalls.isPending_iff`).
-/
import Metrograph.Proofs.Config.Soundness
import Metrograph.Proofs.Rhythm.Refusal

namespace Metrograph.Config.PatternField

open Rhythm (compile error?)

/-- How a field begins, and the text that it begins with. -/
inductive Begins : PatternField → String → Prop
  | standard : Begins standard "2:1"
  | ofText {text : String} {f : PatternField} (made : ofText text = .ok f) : Begins f text

/-- A field after some edits, and what each of them found wrong. -/
def editAll (f : PatternField) : List String → PatternField × List (Option Rhythm.Fault)
  | [] => (f, [])
  | text :: rest =>
    let (next, fault) := f.edit text
    let (last, faults) := next.editAll rest
    (last, fault :: faults)

theorem editAll_cons (f : PatternField) (text : String) (rest : List String) :
    f.editAll (text :: rest) = (((f.edit text).1.editAll rest).1,
      (f.edit text).2 :: ((f.edit text).1.editAll rest).2) := by
  rw [editAll]

/-- What the last text of a history that compiles comes to. -/
def lastLoop (history : List String) : Option (Rhythm.Loop Float) :=
  history.reverse.findSome? fun text => (compile text).toOption

/-- A field shows the last text of a history, and has the last loop. -/
structure Recalls (f : PatternField) (history : List String) : Prop where
  text : history.getLast? = some f.text
  loop : lastLoop history = some f.loop

variable {f : PatternField} {history : List String} {start text : String}

/-- The last text counts if it compiles, and else those before it. -/
theorem lastLoop_concat (history : List String) (text : String) :
    lastLoop (history ++ [text]) = ((compile text).toOption).or (lastLoop history) := by
  unfold lastLoop
  rw [List.reverse_append, List.reverse_singleton, List.singleton_append, List.findSome?_cons]
  cases (compile text : Except Rhythm.Fault (Rhythm.Loop Float)).toOption <;> rfl

/-- A loop of a history is what its own text compiles to. -/
theorem compile_source {loop : Rhythm.Loop Float} (last : lastLoop history = some loop) :
    compile loop.source = .ok loop := by
  obtain ⟨text, -, compiles⟩ := List.exists_of_findSome?_eq_some last
  have compiled := eq_ok_of_toOption compiles
  rw [Rhythm.source_of_compile compiled]
  exact compiled

/-- What a field begins with compiles. -/
theorem Begins.compiled (begins : f.Begins start) :
    f.text = start ∧ compile start = .ok f.loop := by
  cases begins with
  | standard => exact ⟨rfl, compiled_standard⟩
  | ofText made =>
      obtain ⟨loop, compiled, made⟩ := bind_eq_ok.mp made
      cases made
      exact ⟨rfl, compiled⟩

/-- A field that begins with a text recalls it. -/
theorem Begins.recalls (begins : f.Begins start) : f.Recalls [start] := by
  obtain ⟨shown, compiled⟩ := begins.compiled
  refine ⟨congrArg some shown.symm, ?_⟩
  rw [← List.nil_append [start], lastLoop_concat, compiled]
  rfl

/-- An edit goes to the end of the history. -/
theorem Recalls.edit (h : f.Recalls history) (text : String) :
    (f.edit text).1.Recalls (history ++ [text]) := by
  unfold PatternField.edit
  cases compiled : (compile text : Except Rhythm.Fault (Rhythm.Loop Float)) with
  | ok loop =>
      refine ⟨List.getLast?_concat, ?_⟩
      rw [lastLoop_concat, compiled]
      rfl
  | error fault =>
      refine ⟨List.getLast?_concat, ?_⟩
      rw [lastLoop_concat, compiled]
      exact h.loop

/-- An edit finds wrong what the compilation of its text does. -/
theorem fault_edit (f : PatternField) (text : String) :
    (f.edit text).2 = error? (compile text : Except Rhythm.Fault (Rhythm.Loop Float)) := by
  unfold PatternField.edit
  cases (compile text : Except Rhythm.Fault (Rhythm.Loop Float)) <;> rfl

/-- A field recalls what it recalled before and all that is typed. -/
theorem Recalls.editAll (h : f.Recalls history) (texts : List String) :
    (f.editAll texts).1.Recalls (history ++ texts) := by
  induction texts generalizing f history with
  | nil =>
      rw [List.append_nil]
      exact h
  | cons text rest ih =>
      rw [List.append_cons, editAll_cons]
      exact ih (h.edit text)

/-- Each text that is typed is reported on by itself. -/
theorem faults_editAll (f : PatternField) (texts : List String) :
    (f.editAll texts).2
      = texts.map fun text => error? (compile text : Except Rhythm.Fault (Rhythm.Loop Float)) := by
  induction texts generalizing f with
  | nil => rfl
  | cons text rest ih =>
      rw [editAll_cons, List.map_cons, fault_edit, ih]

/-- A text on display is pending if it does not compile. -/
theorem Recalls.isPending_iff (h : f.Recalls history) : f.isPending = true
    ↔ ∃ fault, (compile f.text : Except _ (Rhythm.Loop Float)) = .error fault := by
  have source := compile_source h.loop
  have pending : f.isPending = true ↔ f.text ≠ f.loop.source := bne_iff_ne
  rw [pending]
  cases compiled : (compile f.text : Except Rhythm.Fault (Rhythm.Loop Float)) with
  | error fault =>
      refine iff_of_true (fun same => ?_) ⟨fault, rfl⟩
      rw [same, source] at compiled
      cases compiled
  | ok loop =>
      -- the last text has compiled, so its loop is the last one
      obtain ⟨before, rfl⟩ := List.getLast?_eq_some_iff.mp h.text
      have last := h.loop
      rw [lastLoop_concat, compiled] at last
      refine iff_of_false (fun other => other ?_) nofun
      rw [← Option.some.inj last]
      exact (Rhythm.source_of_compile compiled).symm

/-- Through any edits a field shows the last text and has the loop of the last
text that compiles, the one it began with counting among them. An edit fails
if and only if its text does not compile, and after it the text is pending if
and only if the edit failed. -/
theorem typing_keeps_last_loop (begins : f.Begins start) (texts : List String) :
    (start :: texts).getLast? = some (f.editAll texts).1.text
      ∧ lastLoop (start :: texts) = some (f.editAll texts).1.loop
      ∧ (f.editAll texts).2
        = texts.map (fun text => error? (compile text : Except Rhythm.Fault (Rhythm.Loop Float)))
      ∧ ((f.editAll texts).1.isPending = true
        ↔ ∃ fault, (f.editAll texts).2.getLast? = some (some fault)) := by
  have recalls := begins.recalls.editAll texts
  refine ⟨recalls.text, recalls.loop, faults_editAll f texts, ?_⟩
  rw [recalls.isPending_iff, faults_editAll, List.getLast?_map]
  cases last : texts.getLast? with
  | none =>
      -- nothing was typed, and what the field began with has compiled
      obtain rfl := List.getLast?_eq_none_iff.mp last
      obtain ⟨shown, compiled⟩ := begins.compiled
      refine iff_of_false ?_ nofun
      rw [show (f.editAll []).1.text = start from shown, compiled]
      exact nofun
  | some text =>
      have shown : some (f.editAll texts).1.text = some text := by
        rw [← recalls.text]
        exact List.getLast?_append.trans (by rw [last]; rfl)
      rw [Option.some.inj shown, Option.map_some]
      cases (compile text : Except Rhythm.Fault (Rhythm.Loop Float)) with
      | ok loop => exact iff_of_false nofun nofun
      | error fault => exact iff_of_true ⟨fault, rfl⟩ ⟨fault, rfl⟩

/-- A failed edit and a return to the text before it, then another. -/
def retyping : List String := ["3:", "3:1", "3:1|", "2:1", "2:"]

/-- A text that compiles is no longer pending, also if it was there before. -/
theorem typing_keeps_last_loop_retyping :
    standard.Begins "2:1"
      ∧ (standard.editAll retyping).1.text = "2:"
      ∧ lastLoop ("2:1" :: retyping) = some (standard.editAll retyping).1.loop
      ∧ (standard.editAll retyping).1.loop = Rhythm.Loop.standard
      ∧ (standard.editAll retyping).2.map Option.isSome = [true, false, true, false, true]
      ∧ (standard.editAll retyping).1.isPending = true
      ∧ (standard.editAll (retyping.take 4)).1.isPending = false := by
  have last : lastLoop ("2:1" :: retyping) = some Rhythm.Loop.standard := by decide +kernel
  have faults : retyping.map (fun text =>
      (error? (compile text : Except Rhythm.Fault (Rhythm.Loop Float))).isSome)
        = [true, false, true, false, true] := by decide +kernel
  have failed (text : String)
      (fails : (error? (compile text : Except _ (Rhythm.Loop Float))).isSome) :
      ∃ fault, some (error? (compile text : Except _ (Rhythm.Loop Float))) = some (some fault) := by
    obtain ⟨fault, found⟩ := Option.isSome_iff_exists.mp fails
    exact ⟨fault, congrArg some found⟩
  obtain ⟨shown, recalled, found, pending⟩ := typing_keeps_last_loop .standard retyping
  obtain ⟨-, -, found', pending'⟩ := typing_keeps_last_loop .standard (retyping.take 4)
  rw [found] at pending ⊢
  rw [found'] at pending'
  refine ⟨.standard, (Option.some.inj shown).symm, recalled, ?_, ?_, ?_, ?_⟩
  · exact (Option.some.inj (last.symm.trans recalled)).symm
  · rw [List.map_map]
    exact faults
  · exact pending.mpr (failed "2:" (by decide +kernel))
  · refine Bool.eq_false_iff.mpr fun holds => ?_
    obtain ⟨fault, found⟩ := pending'.mp holds
    have compiles : error? (compile "2:1" : Except _ (Rhythm.Loop Float)) = none := by
      decide +kernel
    cases compiles.symm.trans (Option.some.inj found)

end Metrograph.Config.PatternField

/-
What first values come to when they are given twice.

Values are added under the names they are given, so that of two texts under
one and the same name the later counts. But a key has many names, and which
of them mean the same key is only found out when the values are applied,
in the order of their names. So of several spellings of one key the
greatest counts, wherever it was given: an assignment wins over the file,
and a later assignment over an earlier one, as long as the key is not
spelled greater elsewhere.

# Applying

Values that are all acceptable are applied one by one, each to a store that
the ones before have left drawn (`applied_cons`). A key keeps what is put
there until another value names it (`get_applied_of_unnamed`), and since the
values are in ascending order, none does after the greatest spelling
(`holds_applied_greatest`).
-/
import Metrograph.CommandLine.Report
import Metrograph.Proofs.Config.Acceptance
import Metrograph.Proofs.Text.Trimming

namespace Metrograph

open Config (Key Store)

-- ================================================================ names

namespace Config.Key

/-- An equals sign is neither a capital nor a hyphen. -/
theorem mem_normalize {started : Bool} {cs : List Char} (member : '=' ∈ cs) :
    '=' ∈ normalize started cs := by
  induction cs generalizing started with
  | nil => cases member
  | cons c rest ih =>
      unfold normalize
      rcases List.mem_cons.mp member with rfl | later
      · exact List.mem_cons_self
      · split
        · exact List.mem_append_right _ (List.mem_cons_of_mem _ (ih later))
        · split
          · exact List.mem_cons_of_mem _ (ih later)
          · exact List.mem_cons_of_mem _ (ih later)

/-- No name of a key has an equals sign in it, so an assignment is cut behind its name. -/
theorem name_without_equals : ∀ key ∈ all, '=' ∉ key.name.toList := by
  decide +kernel

/-- No spelling of a key has an equals sign in it. -/
theorem without_equals {name : String} {key : Key} (named : ofName name = some key) :
    '=' ∉ name.toList := by
  intro member
  unfold ofName at named
  dsimp only at named
  have found := List.find?_some named
  have spelled : key.name.toList = normalize false (Text.trimChars name.toList) :=
    of_decide_eq_true found
  have inside : '=' ∈ key.name.toList := by
    rw [spelled]
    exact mem_normalize (Text.mem_trimChars member (by decide))
  exact name_without_equals key (mem_all key) inside

end Config.Key

-- ========================================================== assignments

namespace CommandLine

/-- A text given under a name on the command line. -/
def assignment (v : String × String) : String := v.1 ++ "=" ++ v.2

/-- What stands before the first equals sign is the name. -/
theorem readAssignment_assignment {v : String × String} (free : '=' ∉ v.1.toList) :
    readAssignment (assignment v) = .ok v := by
  have before : ∀ c ∈ v.1.toList, (c != '=') = true := fun c hc =>
    bne_iff_ne.mpr fun same => free (same ▸ hc)
  have spelled : (assignment v).toList = v.1.toList ++ '=' :: v.2.toList := by
    unfold assignment
    rw [String.toList_append, String.toList_append, List.append_assoc]
    rfl
  unfold readAssignment
  rw [spelled, List.dropWhile_append_of_pos before, List.takeWhile_append_of_pos before]
  show Except.ok (String.ofList (v.1.toList ++ []), String.ofList v.2.toList) = .ok v
  rw [List.append_nil, String.ofList_toList, String.ofList_toList]

end CommandLine

-- ============================================================= merging

namespace Settings

/-- Adds first values in order. -/
def insertAll (s : Settings) (named : List (String × String)) : Settings :=
  named.foldl (fun s v => s.insertValue v.1 v.2) s

/-- Assignments may be made in two goes. -/
theorem insertAll_append (s : Settings) (first later : List (String × String)) :
    s.insertAll (first ++ later) = (s.insertAll first).insertAll later :=
  List.foldl_append

theorem mem_putText_self (name text : String) (values : List (String × String)) :
    (name, text) ∈ putText name text values := by
  induction values with
  | nil => exact List.mem_cons_self
  | cons first rest ih =>
      unfold putText
      split
      · exact List.mem_cons_self
      · split
        · exact List.mem_cons_self
        · exact List.mem_cons_of_mem _ ih

/-- Only a text under the same name gives way. -/
theorem mem_putText_of_ne {name text : String} {values : List (String × String)}
    {v : String × String} (member : v ∈ values) (ne : v.1 ≠ name) :
    v ∈ putText name text values := by
  induction values with
  | nil => cases member
  | cons first rest ih =>
      unfold putText
      split
      · exact List.mem_cons_of_mem _ member
      · split
        next same =>
          refine List.mem_cons_of_mem _ ((List.mem_cons.mp member).resolve_left ?_)
          rintro rfl
          exact ne same.symm
        next =>
          rcases List.mem_cons.mp member with rfl | later
          · exact List.mem_cons_self
          · exact List.mem_cons_of_mem _ (ih later)

variable {s : Settings} {named : List (String × String)} {v : String × String}

/-- Every value comes from somewhere. -/
theorem mem_of_mem_insertAll (member : v ∈ (s.insertAll named).values) :
    v ∈ s.values ++ named := by
  induction named generalizing s with
  | nil => exact List.mem_append_left _ member
  | cons first rest ih =>
      rcases List.mem_append.mp (ih member) with before | after
      · rcases mem_putText before with rfl | old
        · exact List.mem_append_right _ List.mem_cons_self
        · exact List.mem_append_left _ old
      · exact List.mem_append_right _ (List.mem_cons_of_mem _ after)

/-- A value stays until its name is given again. -/
theorem mem_insertAll (member : v ∈ s.values) (once : ∀ w ∈ named, w.1 ≠ v.1) :
    v ∈ (s.insertAll named).values := by
  induction named generalizing s with
  | nil => exact member
  | cons first rest ih =>
      have other : v.1 ≠ first.1 := (once first List.mem_cons_self).symm
      exact ih (mem_putText_of_ne member other) fun w hw => once w (List.mem_cons_of_mem _ hw)

/-- Of the texts given under one name the last is there. -/
theorem mem_insertAll_last (s : Settings) (before after : List (String × String))
    (last : ∀ w ∈ after, w.1 ≠ v.1) :
    v ∈ (s.insertAll (before ++ v :: after)).values := by
  rw [insertAll_append]
  exact @mem_insertAll ((s.insertAll before).insertValue v.1 v.2) after v
    (mem_putText_self v.1 v.2 _) last

/-- Assignments to names of keys are added in order. -/
theorem assign_eq_insertAll (s : Settings)
    (known : ∀ v ∈ named, ∃ key, Key.ofName v.1 = some key) :
    CommandLine.assign s (named.map CommandLine.assignment) = .ok (s.insertAll named) := by
  induction named generalizing s with
  | nil => rfl
  | cons v rest ih =>
      obtain ⟨key, spelled⟩ := known v List.mem_cons_self
      have read := CommandLine.readAssignment_assignment (Key.without_equals spelled)
      have later := ih (s.insertValue v.1 v.2) fun w hw => known w (List.mem_cons_of_mem _ hw)
      rw [List.map_cons]
      unfold CommandLine.assign
      rw [read]
      exact later

-- ============================================================ applying

/-- Every value is given under a name of a key that accepts its text. -/
def Acceptable (values : List (String × String)) : Prop :=
  ∀ v ∈ values, ∃ key, Key.ofName v.1 = some key ∧ Key.Accepts key v.2

instance (values : List (String × String)) : Decidable (Acceptable values) :=
  List.decidableBAll _ values

/-- No value names a key. -/
def Unnamed (key : Key) (values : List (String × String)) : Prop :=
  ∀ v ∈ values, Key.ofName v.1 ≠ some key

instance (key : Key) (values : List (String × String)) : Decidable (Unnamed key values) :=
  List.decidableBAll _ values

/-- No value names a key by a greater spelling than this one. -/
def Greatest (name : String) (key : Key) (values : List (String × String)) : Prop :=
  ∀ v ∈ values, Key.ofName v.1 = some key → v.1 ≤ name

instance (name : String) (key : Key) (values : List (String × String)) :
    Decidable (Greatest name key values) :=
  List.decidableBAll _ values

variable {values rest : List (String × String)} {store : Store} {key : Key}

/-- What is left of acceptable values is acceptable. -/
theorem Acceptable.tail (acceptable : Acceptable (v :: rest)) : Acceptable rest :=
  fun w hw => acceptable w (List.mem_cons_of_mem _ hw)

/-- Assignments that are acceptable among other values are added in order. -/
theorem Acceptable.assign (acceptable : Acceptable (s.values ++ named)) :
    CommandLine.assign s (named.map CommandLine.assignment) = .ok (s.insertAll named) :=
  assign_eq_insertAll s fun v hv =>
    (acceptable v (List.mem_append_right _ hv)).imp fun _ spelled => spelled.1

/-- An acceptable value is put under its key, and the rest is applied to what
that leaves. -/
theorem applied_cons (drawn : store.Drawn) (spelled : Key.ofName v.1 = some key)
    (accepts : Key.Accepts key v.2) :
    ∃ (x : key.kind.Carrier) (next : Store), key.kind.Reads v.2 x
      ∧ next.config = store.config.put key x ∧ next.Drawn
      ∧ (applyValues store (v :: rest)).store = (applyValues next rest).store
      ∧ (applyValues store (v :: rest)).fault? = (applyValues next rest).fault? := by
  obtain ⟨x, reads, ⟨change, taken⟩, config⟩ := accepts.setText drawn
  have kept : (store.setText key v.2).store.Drawn :=
    (Store.follows_setText key v.2).drawn drawn
  have goesOn : applyValues store (v :: rest)
      = { applyValues (store.setText key v.2).store rest with
          notices := (store.setText key v.2).notices
            ++ .initialValueApplied :: (applyValues (store.setText key v.2).store rest).notices } := by
    rw [applyValues, Config.readKey, spelled]
    dsimp only
    rw [taken]
  refine ⟨x, _, reads, config, kept, ?_⟩
  rw [goesOn]
  exact ⟨rfl, rfl⟩

/-- Acceptable values are all applied, and a grid that can be drawn is left. -/
theorem applied_all (drawn : store.Drawn) (acceptable : Acceptable values) :
    (applyValues store values).fault? = none ∧ (applyValues store values).store.Drawn := by
  induction values generalizing store with
  | nil => exact ⟨rfl, drawn⟩
  | cons v rest ih =>
      obtain ⟨key, spelled, accepts⟩ := acceptable v List.mem_cons_self
      obtain ⟨x, next, -, -, nextDrawn, stores, faults⟩ := applied_cons drawn spelled accepts
      rw [stores, faults]
      exact ih nextDrawn acceptable.tail

/-- A key that no value names keeps what it holds. -/
theorem get_applied_of_unnamed (drawn : store.Drawn) (acceptable : Acceptable values)
    (unnamed : Unnamed key values) :
    (applyValues store values).store.config.get key = store.config.get key := by
  induction values generalizing store with
  | nil => rfl
  | cons v rest ih =>
      obtain ⟨other, spelled, accepts⟩ := acceptable v List.mem_cons_self
      have ne : key ≠ other := by
        rintro rfl
        exact unnamed v List.mem_cons_self spelled
      obtain ⟨x, next, -, config, nextDrawn, stores, -⟩ := applied_cons drawn spelled accepts
      rw [stores, ih nextDrawn acceptable.tail fun w hw => unnamed w (List.mem_cons_of_mem _ hw),
        config]
      exact Config.get_put_other _ x ne

/-- The last value that names a key is what the key holds in the end. -/
theorem holds_applied_last {before after : List (String × String)} (drawn : store.Drawn)
    (acceptable : Acceptable (before ++ v :: after)) (spelled : Key.ofName v.1 = some key)
    (last : Unnamed key after) :
    (applyValues store (before ++ v :: after)).store.config.Holds key v.2 := by
  induction before generalizing store with
  | nil =>
      obtain ⟨named, also, accepts⟩ := acceptable v List.mem_cons_self
      cases Option.some.inj (spelled.symm.trans also)
      obtain ⟨x, next, reads, config, nextDrawn, stores, -⟩ := applied_cons drawn spelled accepts
      show key.kind.Reads v.2 ((applyValues store (v :: after)).store.config.get key)
      rw [stores, get_applied_of_unnamed nextDrawn acceptable.tail last, config,
        Config.get_put_same]
      exact reads
  | cons first rest ih =>
      obtain ⟨named, first_spelled, accepts⟩ := acceptable first List.mem_cons_self
      obtain ⟨x, next, -, -, nextDrawn, stores, -⟩ := applied_cons drawn first_spelled accepts
      show (applyValues store (first :: (rest ++ v :: after))).store.config.Holds key v.2
      rw [stores]
      exact ih nextDrawn acceptable.tail

/-- Since values are in the order of their names, a key holds the text of its
greatest spelling in the end. -/
theorem holds_applied_greatest (drawn : store.Drawn) (acceptable : Acceptable s.values)
    (member : v ∈ s.values) (spelled : Key.ofName v.1 = some key)
    (greatest : Greatest v.1 key s.values) :
    (s.apply store).store.config.Holds key v.2 := by
  obtain ⟨before, after, split⟩ := List.append_of_mem member
  have ascending := s.ascending
  unfold apply
  rw [split] at acceptable ascending greatest ⊢
  refine holds_applied_last drawn acceptable spelled fun w hw named => ?_
  have above : v.1 < w.1 :=
    List.rel_of_pairwise_cons (List.pairwise_append.mp ascending).2.1 hw
  have below : w.1 ≤ v.1 :=
    greatest w (List.mem_append_right _ (List.mem_cons_of_mem _ hw)) named
  exact String.not_lt.mpr below above

-- ========================================================== overriding

/-- Adding values brings in no spelling that was not given. -/
theorem Greatest.insertAll {name : String} (greatest : Greatest name key (s.values ++ named)) :
    Greatest name key (s.insertAll named).values :=
  fun v hv spelled => greatest v (mem_of_mem_insertAll hv) spelled

/-- Where a key is not named, none of its spellings stands. -/
theorem Unnamed.name_ne {w : String × String} (unnamed : Unnamed key values)
    (spelled : Key.ofName v.1 = some key) (member : w ∈ values) : w.1 ≠ v.1 := by
  intro same
  refine unnamed w member ?_
  rw [same]
  exact spelled

/-- The greatest spelling of two lists is the greatest of each. -/
theorem Greatest.append {name : String} {first later : List (String × String)}
    (one : Greatest name key first) (other : Greatest name key later) :
    Greatest name key (first ++ later) := by
  intro v hv
  rcases List.mem_append.mp hv with before | after
  · exact one v before
  · exact other v after

theorem Unnamed.greatest {name : String} (unnamed : Unnamed key values) :
    Greatest name key values :=
  fun v hv spelled => absurd spelled (unnamed v hv)

/-- Acceptable values of a file and assignments are all applied. A key that
several of them name holds the text of its greatest spelling. So it holds what
it was last assigned, or else what the file says, as long as it is not spelled
greater elsewhere; a key that none of them names holds what it held before. -/
theorem greatest_spelling_counts {s : Settings} {overrides : List (String × String)}
    {store : Store} (drawn : store.Drawn) (acceptable : Acceptable (s.values ++ overrides)) :
    ∃ merged applied,
      CommandLine.assign s (overrides.map CommandLine.assignment) = .ok merged
        ∧ merged.apply store = applied ∧ applied.fault? = none
        ∧ (∀ v ∈ merged.values, ∀ key, Key.ofName v.1 = some key →
          Greatest v.1 key merged.values → applied.store.config.Holds key v.2)
        ∧ (∀ before v after key, overrides = before ++ v :: after → Key.ofName v.1 = some key →
          Unnamed key after → Greatest v.1 key (s.values ++ before) →
          applied.store.config.Holds key v.2)
        ∧ (∀ v ∈ s.values, ∀ key, Key.ofName v.1 = some key → Unnamed key overrides →
          Greatest v.1 key s.values → applied.store.config.Holds key v.2)
        ∧ ∀ key, Unnamed key (s.values ++ overrides) →
          applied.store.config.get key = store.config.get key := by
  have kept : Acceptable (s.insertAll overrides).values := fun v hv =>
    acceptable v (mem_of_mem_insertAll hv)
  refine ⟨s.insertAll overrides, _, acceptable.assign, rfl, (applied_all drawn kept).1, ?rule,
    ?assigned, ?filed, ?unnamed⟩
  case rule =>
    intro v member key spelled greatest
    exact holds_applied_greatest drawn kept member spelled greatest
  case assigned =>
    intro before v after key split spelled last greatest
    subst split
    have member : v ∈ (s.insertAll (before ++ v :: after)).values :=
      mem_insertAll_last s before after fun w hw => last.name_ne spelled hw
    refine holds_applied_greatest drawn kept member spelled (Greatest.insertAll ?_)
    rw [← List.append_assoc]
    refine greatest.append fun w hw named => ?_
    rcases List.mem_cons.mp hw with rfl | later
    · exact String.le_refl _
    · exact last.greatest w later named
  case filed =>
    intro v member key spelled unnamed greatest
    have stays : v ∈ (s.insertAll overrides).values :=
      mem_insertAll member fun w hw => unnamed.name_ne spelled hw
    exact holds_applied_greatest drawn kept stays spelled
      (Greatest.insertAll (greatest.append unnamed.greatest))
  case unnamed =>
    intro key unnamed
    exact get_applied_of_unnamed drawn kept fun v hv => unnamed v (mem_of_mem_insertAll hv)

/-- A file with two rows of its own and the click on. -/
def rowsAndClick : Settings :=
  standard.insertAll [("beats_per_row", "3,3"), ("clickOn", "yes")]

/-- The click is turned off under a greater name, the drums are turned on and
off under one, and the rows are those of the file. -/
theorem greatest_spelling_counts_click :
    let overrides := [("click_on", "no"), ("drum_on", "true"), ("drum_on", " off ")]
    Store.standard.Drawn ∧ Acceptable (rowsAndClick.values ++ overrides)
      ∧ ∃ merged,
        CommandLine.assign rowsAndClick ["click_on=no", "drum_on=true", "drum_on= off "] = .ok merged
        ∧ (merged.apply .standard).fault? = none
        ∧ (merged.apply .standard).store.config.Holds .clickOn "no"
        ∧ (merged.apply .standard).store.config.Holds .drumOn " off "
        ∧ (merged.apply .standard).store.config.Holds .beatsPerRow "3,3"
        ∧ (merged.apply .standard).store.config.backend.bpm = 91 := by
  intro overrides
  have drawn : Store.standard.Drawn := rfl
  have acceptable : Acceptable (rowsAndClick.values ++ overrides) := by decide +kernel
  obtain ⟨merged, _, assigned, rfl, complete, -, last, filed, unnamed⟩ :=
    greatest_spelling_counts drawn acceptable
  refine ⟨drawn, acceptable, merged, assigned, complete, ?_, ?_, ?_, ?_⟩
  · exact last [] ("click_on", "no") _ .clickOn rfl (by decide +kernel) (by decide +kernel)
      (by decide +kernel)
  · exact last [("click_on", "no"), ("drum_on", "true")] ("drum_on", " off ") [] .drumOn rfl
      (by decide +kernel) (by decide +kernel) (by decide +kernel)
  · exact filed ("beats_per_row", "3,3") (by decide +kernel) .beatsPerRow (by decide +kernel)
      (by decide +kernel) (by decide +kernel)
  · exact unnamed .bpm (by decide +kernel)

/-- A file with the click on, under the longest of its names. -/
def clicking : Settings := standard.insertValue "click_on" "true"

/-- An assignment to a smaller spelling than the file's is lost: the click is
turned off and stays on. -/
theorem assignment_lost_to_greater_spelling :
    Acceptable (clicking.values ++ [("clickOn", "false")])
      ∧ Key.ofName "clickOn" = some .clickOn
      ∧ ∃ merged, CommandLine.assign clicking ["clickOn=false"] = .ok merged
        ∧ (merged.apply .standard).fault? = none
        ∧ (merged.apply .standard).store.config.backend.clickOn = true
        ∧ ¬ (merged.apply .standard).store.config.Holds .clickOn "false" := by
  have acceptable : Acceptable (clicking.values ++ [("clickOn", "false")]) := by decide +kernel
  have on : (((clicking.insertAll [("clickOn", "false")]).apply .standard).store.config.get
      .clickOn) = true := by decide +kernel
  refine ⟨acceptable, by decide +kernel, _, acceptable.assign, by decide +kernel, on,
    fun held => ?_⟩
  have off : Config.readToggle (Text.trim "false") = some false := by decide +kernel
  have read : Config.Value.read .toggle "false" = .ok ⟨.toggle, true⟩ := on ▸ held
  unfold Config.Value.read at read
  dsimp only at read
  rw [off] at read
  cases read

end Settings

end Metrograph

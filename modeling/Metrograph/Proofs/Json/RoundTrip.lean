/-
What was written on one line is read back.

# Which documents

A number that is no number's spelling, or a string without content, can be
part of a document, but is not what stands in a text. All others are
`Writable`, and of those the text says everything: reading it gives the
document, with its numbers as they were spelled and its members in their
order (`read_line`).

# What is carried along

A value is read off the front of a text that goes on with a bracket, a
brace, a comma, or nothing. So for each value two things are shown
together (`ReadsBack`): that it is taken off any such text, given fuel for
as many characters as it has, and that it does not begin like a gap or the
end of a list, for which the reader looks first. The lists of elements and
members are read by an induction of their own, in which a closing mark is
the one character of fuel to spare.

# Records

A record is asked for its values by their names. Where the names differ,
each of them finds the value it was written with (`fields_record`).
-/
import Metrograph.Proofs.Json.Spelling
import Metrograph.Proofs.Results

namespace Metrograph.Json

open Text (Stops ne_of_kind stops_nil stops_cons)

-- ============================================================ documents

/-- A document that a text can say: its numbers are spelled as numbers, and its
strings and names have content. -/
inductive Writable : Json → Prop
  | null : Writable .null
  | bool (b : Bool) : Writable (.bool b)
  | number {n : Numeral} {spelling : List Char} (spelled : n.Spelled spelling) :
      Writable (.number spelling)
  | string (content : String) : Writable (.string (some content))
  | array {elements : List Json} (each : ∀ j ∈ elements, Writable j) : Writable (.array elements)
  | object {members : List (Option String × Json)} (named : ∀ m ∈ members, m.1.isSome = true)
      (each : ∀ m ∈ members, Writable m.2) : Writable (.object members)

/-- A value is taken off a text as it is written there. -/
structure ReadsBack (j : Json) : Prop where
  begins : ∀ rest, Stops (fun c => isBlank c || c == ']') (j.compact ++ rest)
  taken : ∀ fuel rest, j.compact.length < fuel → Stops Numeral.goesOn rest →
    value fuel (j.compact ++ rest) = some (j, rest)

variable {j : Json} {rest : List Char}

-- =============================================================== scalars

theorem skipBlanks_eq {cs : List Char} (stops : Stops isBlank cs) : skipBlanks cs = cs := by
  have none : ∀ c ∈ ([] : List Char), isBlank c = true := nofun
  exact stops.dropWhile none

/-- Whatever begins like a value has no gap in front of it. -/
theorem skipBlanks_of_begins {cs : List Char} (begins : Stops (fun c => isBlank c || c == ']') cs) :
    skipBlanks cs = cs :=
  skipBlanks_eq fun c hc => (Bool.or_eq_false_iff.mp (begins c hc)).1

/-- A value of some length needs some fuel. -/
theorem readsBack_of_succ
    (begins : ∀ rest, Stops (fun c => isBlank c || c == ']') (j.compact ++ rest))
    (taken : ∀ fuel rest, j.compact.length ≤ fuel → Stops Numeral.goesOn rest →
      value (fuel + 1) (j.compact ++ rest) = some (j, rest)) : ReadsBack j where
  begins := begins
  taken fuel rest enough ends := by
    cases fuel with
    | zero => cases enough
    | succ fuel => exact taken fuel rest (Nat.le_of_lt_succ enough) ends

theorem readsBack_null : ReadsBack .null := by
  refine readsBack_of_succ (fun _ => stops_cons rfl) fun fuel rest _ _ => ?_
  simp [value, compact, nullChars, word]

theorem readsBack_bool (b : Bool) : ReadsBack (.bool b) := by
  refine readsBack_of_succ (fun _ => ?_) fun fuel rest _ _ => ?_
  · cases b <;> exact stops_cons rfl
  · cases b <;> simp [value, compact, boolChars, word]

/-- A string is read back, whatever characters are in it. -/
theorem readsBack_string (content : String) : ReadsBack (.string (some content)) := by
  refine readsBack_of_succ (fun _ => stops_cons rfl) fun fuel rest _ _ => ?_
  simp [value, compact, quoteChars, stringRest_quoted]

/-- A number begins with none of the marks that other values begin with. -/
theorem readsBack_number {n : Numeral} {spelling : List Char} (spelled : n.Spelled spelling) :
    ReadsBack (.number spelling) := by
  refine readsBack_of_succ (fun rest => spelled.stops rfl (fun c digit => ?_) rest)
    fun fuel rest _ ends => ?_
  · have ne (m : Char) (other : m.isDigit = false) : c ≠ m := ne_of_kind digit other
    simp [isBlank, ne ' ' rfl, ne '\n' rfl, ne '\t' rfl, ne '\r' rfl, ne ']' rfl]
  · have first : Stops (fun c => ['n', 't', 'f', '"', '[', '\x7b'].contains c)
        (spelling ++ rest) := by
      refine spelled.stops rfl (fun c digit => ?_) rest
      have ne (m : Char) (other : m.isDigit = false) : c ≠ m := ne_of_kind digit other
      simp [ne 'n' rfl, ne 't' rfl, ne 'f' rfl, ne '"' rfl, ne '[' rfl, ne '\x7b' rfl]
    have other {mark : Char} {cs : List Char} (same : spelling ++ rest = mark :: cs)
        (begins : ['n', 't', 'f', '"', '[', '\x7b'].contains mark = true) : False := by
      have none := first mark (by rw [same]; rfl)
      exact Bool.false_ne_true (none.symm.trans begins)
    show value (fuel + 1) (spelling ++ rest) = _
    rw [value.eq_def]
    dsimp only
    split
    next same => exact (other same rfl).elim
    next same => exact (other same rfl).elim
    next same => exact (other same rfl).elim
    next same => exact (other same rfl).elim
    next same => exact (other same rfl).elim
    next same => exact (other same rfl).elim
    next =>
      rw [spelled.scan ends]
      simp

-- =============================================================== arrays

variable {js : List Json}

/-- A list of elements does not begin with a blank or the bracket behind it. -/
theorem begins_elements (each : ∀ j ∈ js, ReadsBack j) (some : js ≠ []) (rest : List Char) :
    Stops (fun c => isBlank c || c == ']') (compactElements js ++ rest) := by
  match js with
  | [] => exact absurd rfl some
  | [j] => exact (each j List.mem_cons_self).begins rest
  | j :: k :: js =>
      show Stops _ (j.compact ++ ',' :: compactElements (k :: js) ++ rest)
      rw [List.append_assoc]
      exact (each j List.mem_cons_self).begins _

/-- Elements are taken off a text up to the closing bracket. -/
theorem elements_compact (each : ∀ j ∈ js, ReadsBack j) (some : js ≠ []) {fuel : Nat}
    (enough : (compactElements js).length + 1 < fuel) (rest : List Char) :
    elements fuel (compactElements js ++ ']' :: rest) = .some (js, rest) := by
  induction js generalizing fuel with
  | nil => exact absurd rfl some
  | cons j js ih =>
      obtain ⟨fuel, rfl⟩ : ∃ f, fuel = f + 1 := Nat.exists_eq_succ_of_ne_zero (by omega)
      have first := each j List.mem_cons_self
      cases js with
      | nil =>
          have short : j.compact.length < fuel := by
            simp only [compactElements] at enough
            omega
          show elements (fuel + 1) (j.compact ++ ']' :: rest) = _
          rw [elements, first.taken fuel _ short (stops_cons rfl)]
          rfl
      | cons k js =>
          have others : ∀ j ∈ k :: js, ReadsBack j := fun i hi => each i (List.mem_cons_of_mem _ hi)
          simp only [compactElements, List.length_append, List.length_cons] at enough
          have later : elements fuel (compactElements (k :: js) ++ ']' :: rest)
              = .some (k :: js, rest) := ih others nofun (by omega)
          have gap : skipBlanks (compactElements (k :: js) ++ ']' :: rest)
              = compactElements (k :: js) ++ ']' :: rest :=
            skipBlanks_of_begins (begins_elements others nofun _)
          have taken := first.taken fuel (',' :: (compactElements (k :: js) ++ ']' :: rest))
            (by omega) (stops_cons rfl)
          show elements (fuel + 1) (j.compact ++ ',' :: compactElements (k :: js) ++ ']' :: rest) = _
          rw [List.append_assoc, List.cons_append, elements, taken]
          show (elements fuel (skipBlanks (compactElements (k :: js) ++ ']' :: rest))).bind _ = _
          rw [gap, later]
          rfl

/-- What is read behind an opening bracket. -/
theorem value_bracket (fuel : Nat) (rest : List Char) : value (fuel + 1) ('[' :: rest)
    = (match skipBlanks rest with
      | ']' :: rest => some (.array [], rest)
      | rest => (elements fuel rest).map fun (js, rest) => (.array js, rest)) := rfl

/-- A list is taken off a text if its elements are. -/
theorem readsBack_array (each : ∀ j ∈ js, ReadsBack j) : ReadsBack (.array js) := by
  refine readsBack_of_succ (fun _ => stops_cons rfl) fun fuel rest enough _ => ?_
  simp only [compact, List.length_cons, List.length_append, List.length_nil] at enough
  by_cases none : js = []
  · subst none
    rfl
  · have begins := begins_elements each none (']' :: rest)
    have inside : elements fuel (compactElements js ++ ']' :: rest) = some (js, rest) :=
      elements_compact each none (by omega) rest
    show value (fuel + 1) ('[' :: (compactElements js ++ [']'] ++ rest)) = _
    rw [List.append_assoc, value_bracket, List.singleton_append, skipBlanks_of_begins begins]
    split
    next same => exact absurd (begins ']' (by rw [same]; rfl)) (by decide)
    next =>
      rw [inside]
      rfl

-- ============================================================== objects

variable {ms : List (Option String × Json)}

/-- What is written of a member. -/
def memberChars (m : Option String × Json) : List Char :=
  quoteChars (m.1.getD "") ++ ':' :: m.2.compact

/-- Members are written one after the other, with commas between them. -/
theorem compactMembers_cons (m n : Option String × Json) (ms : List (Option String × Json)) :
    compactMembers (m :: n :: ms) = memberChars m ++ ',' :: compactMembers (n :: ms) := by
  simp [compactMembers, memberChars]

/-- A name and a colon are taken off a text, and the value after them. -/
theorem members_member {m : Option String × Json} (named : m.1.isSome = true)
    (back : ReadsBack m.2) {fuel : Nat} (enough : m.2.compact.length < fuel)
    (ends : Stops Numeral.goesOn rest) :
    members (fuel + 1) (memberChars m ++ rest)
      = (match skipBlanks rest with
        | '\x7d' :: rest => some ([m], rest)
        | ',' :: rest => do
          let (ms, rest) ← members fuel (skipBlanks rest)
          return (m :: ms, rest)
        | _ => none) := by
  obtain ⟨name, j⟩ := m
  obtain ⟨name, rfl⟩ := Option.isSome_iff_exists.mp named
  have chars : memberChars (some name, j) ++ rest
      = '"' :: (name.toList.flatMap escapeChar ++ '"' :: ':' :: (j.compact ++ rest)) := by
    simp [memberChars, quoteChars]
  have colon : skipBlanks (':' :: (j.compact ++ rest)) = ':' :: (j.compact ++ rest) := rfl
  rw [chars, members, stringRest_quoted]
  dsimp only [Option.bind_eq_bind, Option.bind_some]
  have gap : skipBlanks (j.compact ++ rest) = j.compact ++ rest :=
    skipBlanks_of_begins (back.begins rest)
  have taken : value fuel (j.compact ++ rest) = some (j, rest) := back.taken fuel rest enough ends
  rw [colon]
  show (value fuel (skipBlanks (j.compact ++ rest))).bind _ = _
  rw [gap, taken]
  rfl

/-- Members begin with the quotation mark of a name. -/
theorem begins_members (some : ms ≠ []) (rest : List Char) :
    ∃ cs, compactMembers ms ++ rest = '"' :: cs := by
  match ms with
  | [] => exact absurd rfl some
  | [m] => exact ⟨_, rfl⟩
  | m :: n :: ms =>
      rw [compactMembers_cons]
      exact ⟨_, rfl⟩

/-- No blanks stand in front of members. -/
theorem skipBlanks_members (some : ms ≠ []) (rest : List Char) :
    skipBlanks (compactMembers ms ++ rest) = compactMembers ms ++ rest := by
  obtain ⟨cs, same⟩ := begins_members some rest
  rw [same]
  rfl

/-- Members are taken off a text up to the closing brace. -/
theorem members_compact (named : ∀ m ∈ ms, m.1.isSome = true) (each : ∀ m ∈ ms, ReadsBack m.2)
    (some : ms ≠ []) {fuel : Nat} (enough : (compactMembers ms).length + 1 < fuel)
    (rest : List Char) :
    members fuel (compactMembers ms ++ '\x7d' :: rest) = .some (ms, rest) := by
  induction ms generalizing fuel with
  | nil => exact absurd rfl some
  | cons m ms ih =>
      obtain ⟨fuel, rfl⟩ : ∃ f, fuel = f + 1 := Nat.exists_eq_succ_of_ne_zero (by omega)
      have name := named m List.mem_cons_self
      have first := each m List.mem_cons_self
      have longer : m.2.compact.length < (memberChars m).length := by
        simp only [memberChars, List.length_append, List.length_cons]
        omega
      cases ms with
      | nil =>
          have enough : (memberChars m).length + 1 < fuel + 1 := enough
          show members (fuel + 1) (memberChars m ++ '\x7d' :: rest) = _
          rw [members_member name first (by omega) (stops_cons rfl)]
          rfl
      | cons n ms =>
          rw [compactMembers_cons, List.length_append, List.length_cons] at enough
          have later : members fuel (compactMembers (n :: ms) ++ '\x7d' :: rest)
              = .some (n :: ms, rest) :=
            ih (fun i hi => named i (List.mem_cons_of_mem _ hi))
              (fun i hi => each i (List.mem_cons_of_mem _ hi)) nofun (by omega)
          rw [compactMembers_cons, List.append_assoc, List.cons_append,
            members_member name first (by omega) (stops_cons rfl)]
          show (members fuel (skipBlanks (compactMembers (n :: ms) ++ '\x7d' :: rest))).bind _ = _
          rw [skipBlanks_members (List.cons_ne_nil n ms), later]
          rfl

/-- What is read behind an opening brace. -/
theorem value_brace (fuel : Nat) (rest : List Char) : value (fuel + 1) ('\x7b' :: rest)
    = (match skipBlanks rest with
      | '\x7d' :: rest => some (.object [], rest)
      | rest => (members fuel rest).map fun (ms, rest) => (.object ms, rest)) := rfl

/-- A table is taken off a text if its members' values are. -/
theorem readsBack_object (named : ∀ m ∈ ms, m.1.isSome = true)
    (each : ∀ m ∈ ms, ReadsBack m.2) : ReadsBack (.object ms) := by
  refine readsBack_of_succ (fun _ => stops_cons rfl) fun fuel rest enough _ => ?_
  simp only [compact, List.length_cons, List.length_append, List.length_nil] at enough
  by_cases none : ms = []
  · subst none
    rfl
  · have inside : members fuel (compactMembers ms ++ '\x7d' :: rest) = some (ms, rest) :=
      members_compact named each none (by omega) rest
    obtain ⟨cs, begins⟩ := begins_members none ('\x7d' :: rest)
    show value (fuel + 1) ('\x7b' :: (compactMembers ms ++ ['\x7d'] ++ rest)) = _
    rw [List.append_assoc, value_brace, List.singleton_append, skipBlanks_members none]
    split
    next same => cases begins.symm.trans same
    next =>
      rw [inside]
      rfl

-- ================================================================ texts

/-- Everything that can be written is read back, by induction over what it is made of. -/
theorem Writable.readsBack (writable : Writable j) : ReadsBack j := by
  induction writable with
  | null => exact readsBack_null
  | bool b => exact readsBack_bool b
  | number spelled => exact readsBack_number spelled
  | string content => exact readsBack_string content
  | array _ each => exact readsBack_array each
  | object named _ each => exact readsBack_object named each

/-- What was written on one line is read back. -/
theorem read_line (writable : Writable j) : read j.line = some j := by
  have back := writable.readsBack
  have gap : skipBlanks j.compact = j.compact := by
    have same := skipBlanks_of_begins (back.begins [])
    rwa [List.append_nil] at same
  have taken := back.taken (j.compact.length + 1) [] (Nat.lt_succ_self _) stops_nil
  rw [List.append_nil] at taken
  unfold read line
  rw [String.toList_ofList, gap]
  dsimp only
  rw [taken]
  rfl

-- ============================================================== records

/-- A record can be written if its values can. -/
theorem writable_record {members : List (String × Json)} (each : ∀ m ∈ members, Writable m.2) :
    Writable (.record members) := by
  refine .object (fun n hn => ?_) fun n hn => ?_
  · obtain ⟨m, -, rfl⟩ := List.mem_map.mp hn
    rfl
  · obtain ⟨m, hm, rfl⟩ := List.mem_map.mp hn
    exact each m hm

/-- Of distinct names each is the name of one member. -/
theorem filter_named {members : List (String × Json)} (distinct : (members.map Prod.fst).Nodup)
    {m : String × Json} (hm : m ∈ members) :
    members.filter (fun n => decide (n.1 = m.1)) = [m] := by
  induction members with
  | nil => cases hm
  | cons n members ih =>
      obtain ⟨new, distinct⟩ := List.nodup_cons.mp distinct
      rcases List.mem_cons.mp hm with rfl | hm
      · have none : members.filter (fun n => decide (n.1 = m.1)) = [] := by
          refine List.filter_eq_nil_iff.mpr fun n hn same => ?_
          exact new (List.mem_map.mpr ⟨n, hn, of_decide_eq_true same⟩)
        rw [List.filter_cons, if_pos (decide_eq_true rfl), none]
      · have other : n.1 ≠ m.1 := fun same => new (List.mem_map.mpr ⟨m, hm, same.symm⟩)
        rw [List.filter_cons, if_neg (by rwa [decide_eq_true_iff]), ih distinct hm]

/-- A record has the fields that it was made of. -/
theorem fields_record {members : List (String × Json)} {names : List String}
    (named : members.map Prod.fst = names) (distinct : names.Nodup) :
    (record members).fields names = some (members.map Prod.snd) := by
  subst named
  have known : (members.map fun m => (some m.1, m.2)).all (fun n => n.1.isSome) = true :=
    List.all_eq_true.mpr fun n hn => by
      obtain ⟨m, -, rfl⟩ := List.mem_map.mp hn
      rfl
  unfold fields record
  dsimp only
  rw [if_pos known, List.mapM_map]
  refine mapM_eq_map fun m hm => ?_
  have found : (members.map fun m => (some m.1, m.2)).filter (fun n => decide (n.1 = some m.1))
      = [(some m.1, m.2)] := by
    have same : members.filter (fun n => decide (some n.1 = some m.1))
        = members.filter (fun n => decide (n.1 = m.1)) :=
      List.filter_congr fun n _ => decide_eq_decide.mpr Option.some_inj
    rw [List.filter_map]
    show (members.filter fun n => decide (some n.1 = some m.1)).map _ = _
    rw [same, filter_named distinct hm]
    rfl
  dsimp only [Function.comp_apply]
  rw [found]
  rfl

end Metrograph.Json

/-
How a session starts: the engine, the pace of frames and polls, the size
of the sample buffer, and first values for the configuration.

Settings come from a JSON or YAML file in which every part may be left
out, and from assignments on the command line, which are added to the
values of the file under the names they are given. Values are applied in
the order of their names, as texts, and the first that is refused ends it.
-/
import Metrograph.Document.Path
import Metrograph.Json.Reader
import Metrograph.Yaml.Tree
import Metrograph.Config.Store

namespace Metrograph

open Config (Fault Store DurationFault)

-- ======================================================= named values

/-- Adds a text under a name to a list in ascending order of names, in place
of one under the same name. -/
def putText (name text : String) : List (String × String) → List (String × String)
  | [] => [(name, text)]
  | (other, old) :: rest =>
    if name < other then (name, text) :: (other, old) :: rest
    else if name = other then (name, text) :: rest
    else (other, old) :: putText name text rest

theorem mem_putText {name text : String} {values : List (String × String)} {v : String × String}
    (h : v ∈ putText name text values) : v = (name, text) ∨ v ∈ values := by
  induction values with
  | nil => exact .inl (List.mem_singleton.1 h)
  | cons first rest ih =>
    simp only [putText] at h
    split at h
    · exact (List.mem_cons.1 h).imp_right id
    · split at h
      · exact (List.mem_cons.1 h).imp_right (List.mem_cons_of_mem _)
      · rcases List.mem_cons.1 h with rfl | h
        · exact .inr List.mem_cons_self
        · exact (ih h).imp_right (List.mem_cons_of_mem _)

theorem pairwise_putText {name text : String} {values : List (String × String)}
    (h : values.Pairwise (·.1 < ·.1)) : (putText name text values).Pairwise (·.1 < ·.1) := by
  induction values with
  | nil => exact List.pairwise_singleton _ _
  | cons first rest ih =>
    obtain ⟨hfirst, hrest⟩ := List.pairwise_cons.1 h
    simp only [putText]
    split
    · next hlt =>
      refine List.pairwise_cons.2 ⟨fun v hv => ?_, h⟩
      rcases List.mem_cons.1 hv with rfl | hv
      · exact hlt
      · exact String.lt_trans hlt (hfirst v hv)
    · next hle =>
      split
      · next heq =>
        exact List.pairwise_cons.2 ⟨fun v hv => heq ▸ hfirst v hv, hrest⟩
      · next hne =>
        refine List.pairwise_cons.2 ⟨fun v hv => ?_, ih hrest⟩
        rcases mem_putText hv with rfl | hv
        · exact String.not_le.1 fun h => hne (String.le_antisymm h (String.not_lt.1 hle))
        · exact hfirst v hv

-- ============================================================ settings

/-- The settings of a session; `none` where nothing was said. -/
structure Settings where
  engine? : Option String
  frameInterval? : Option String
  pollInterval? : Option String
  bufferCapacity? : Option Nat
  /-- First values by the names they were given, in ascending order. -/
  values : List (String × String)
  ascending : values.Pairwise (·.1 < ·.1)

/-- How often the session works, in nanoseconds, and how many samples it holds
between frames. -/
structure Timing where
  frame : Nat
  poll : Nat
  capacity : Nat

namespace Settings

/-- Settings that say nothing. -/
def standard : Settings := ⟨none, none, none, none, [], .nil⟩

/-- Adds a first value, in place of one under the same name. -/
def insertValue (s : Settings) (name text : String) : Settings :=
  { s with
    values := putText name text s.values
    ascending := pairwise_putText s.ascending }

-- ============================================================= reading

/-- A member that may be left out or be null. -/
def optional (members : List (String × Document)) (name : String)
    (read : Document → Option α) : Option (Option α) :=
  match Document.find? name members with
  | none => some none
  | some .null => some none
  | some d => (read d).map some

/-- The first values of a table; each must be a scalar. -/
def valuesOf (members : List (String × Document)) : Option (List (String × String)) :=
  match Document.find? "values" members with
  | none => some []
  | some (.table values) => values.mapM fun (name, d) => d.asText.map fun text => (name, text)
  | some _ => none

/-- The settings that a document holds, which must be a table. Its names may be
paths; members of other names are left aside. -/
def ofDocument : Document → Option Settings
  | .table named => do
    let members := (Document.placeAll named).membersOf
    let engine ← optional members "engine" Document.asText
    let frame ← optional members "frame_interval" Document.asText
    let poll ← optional members "poll_interval" Document.asText
    let capacity ← optional members "sample_buffer_capacity" Document.asCount
    let values ← valuesOf members
    let empty : Settings := ⟨engine, frame, poll, capacity, [], .nil⟩
    return values.foldl (fun s (name, text) => s.insertValue name text) empty
  | _ => none

/-- The document that a file holds, by the ending of its name. -/
def documentOf (format content : String) : Option Document :=
  if format = "json" then (Json.read content).bind (Document.ofJson Document.deepest)
  else if format = "yaml" ∨ format = "yml" then Yaml.read content
  else none

/-- A text without the byte order mark that it may begin with. -/
def withoutMark (text : String) : String :=
  match text.toList with
  | '\ufeff' :: rest => String.ofList rest
  | _ => text

/-- Reads a settings file, if there is one. -/
def load (format : String) (content : Option String) : Except Fault Settings :=
  match content.bind fun text => (documentOf format (withoutMark text)).bind ofDocument with
  | some s => .ok s
  | none => .error .load

-- ============================================================== values

def engine (s : Settings) : String := s.engine?.getD "simulated"

/-- Reads a span of time that must not be empty. -/
def readInterval (field : String) (standard : Nat) : Option String → Except Fault Nat
  | none => .ok standard
  | some text => match Config.Duration.read text with
    | .ok 0 => .error (.duration field text .zero)
    | .ok n => .ok n
    | .error reason => .error (.duration field text reason)

/-- The time from one frame to the next; sixteen milliseconds unless said
otherwise. -/
def frameInterval (s : Settings) : Except Fault Nat :=
  readInterval "frame_interval" 16000000 s.frameInterval?

/-- The time from one poll to the next; twenty-three milliseconds unless said
otherwise. -/
def pollInterval (s : Settings) : Except Fault Nat :=
  readInterval "poll_interval" 23000000 s.pollInterval?

def bufferCapacity (s : Settings) : Nat := s.bufferCapacity?.getD 65536

/-- The pace that the settings ask for. -/
def timing (s : Settings) : Except Fault Timing := do
  return ⟨← s.frameInterval, ← s.pollInterval, s.bufferCapacity⟩

-- ============================================================ applying

/-- What applying values comes to. -/
structure Applied where
  /-- Why the first refused value was refused. -/
  fault? : Option Fault
  store : Store
  notices : List Notice

/-- Applies texts to the keys they name, up to the first that is refused. -/
def applyValues (store : Store) : List (String × String) → Applied
  | [] => ⟨none, store, []⟩
  | (name, text) :: rest =>
    match Config.readKey name with
    | .error fault => ⟨some fault, store, []⟩
    | .ok key =>
      let outcome := store.setText key text
      match outcome.answer with
      | .error fault => ⟨some fault, outcome.store, outcome.notices⟩
      | .ok _ =>
        let applied := applyValues outcome.store rest
        { applied with
          notices := outcome.notices ++ .initialValueApplied :: applied.notices }

/-- Applies the first values to a store. -/
def apply (s : Settings) (store : Store) : Applied := applyValues store s.values

end Settings

end Metrograph

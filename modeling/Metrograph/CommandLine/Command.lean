/-
The commands of the program and how they are given.
-/
import Metrograph.CommandLine.Arguments
import Metrograph.Decimal.Literal

namespace Metrograph.CommandLine

/-- What the program can be asked to do. -/
inductive Command where
  /-- Prints the notes of a rhythm. -/
  | compile (pattern : String)
  /-- Prints where a beat lies on a grid. -/
  | map (beat : Float) (rows : String) (margin : Float) (width height : Nat) (rowOffset : Int)
  /-- Lists the keys of the configuration. -/
  | keys
  /-- Runs a session for a while and writes its last frame. -/
  | run (settings? : Option String) (duration output : String) (assignments : List String)

namespace Command

/-- The values of an option, in order. -/
def valuesOf (given : Given) (name : String) : List String :=
  (given.values.filter fun (other, _) => other = name).map (·.2)

/-- The value of an option, or what it stands for when it is not given. -/
def valueOf (given : Given) (name standard : String) : String :=
  (given.values.lookup name).getD standard

/-- A part of a command that must be there and fit. -/
def required {β : Type} : Option β → Except Stop β
  | some x => .ok x
  | none => .error .misuse

-- ============================================================== numbers

def readNumber (text : String) : Except Stop Float :=
  required (Decimal.readNumber text).toOption

/-- Reads a whole number between two bounds, with or without a sign. -/
def readInt (low high : Int) (text : String) : Except Stop Int :=
  let count (cs : List Char) : Option Int :=
    (Decimal.readWholeChars (Word.count 63) cs).toOption.map Int.ofNat
  let n? : Option Int := match text.toList with
    | '-' :: '+' :: _ => none
    | '-' :: digits => (count digits).map (- ·)
    | cs => count cs
  required (n?.filter fun n => decide (low ≤ n ∧ n ≤ high))

/-- Reads a count of 32 bits. -/
def readCount (text : String) : Except Stop Nat :=
  (readInt 0 Decimal.limit32 text).map Int.toNat

/-- Reads the name of a file. -/
def readPath (text : String) : Except Stop String :=
  if text = "" then .error .misuse else .ok text

-- ============================================================= commands

/-- An argument that some reader accepts. -/
def slot {β : Type} (negative : Bool) (read : String → Except Stop β) : Slot :=
  ⟨negative, fun text => (read text).toOption.isSome⟩

/-- An argument that may be any text. -/
def textSlot : Slot := ⟨false, fun _ => true⟩

/-- Reads how many rows further a beat is shown. -/
def readRowOffset (text : String) : Except Stop Int :=
  readInt (Word.lowest 31) (Word.highest 31) text

def compileShape : Shape := ⟨[], some textSlot⟩

def mapShape : Shape where
  switches := [
    ⟨"rows", some 'r', false, textSlot⟩, ⟨"margin", some 'm', false, slot false readNumber⟩,
    ⟨"width", some 'w', false, slot false readCount⟩,
    ⟨"height", none, false, slot false readCount⟩,
    ⟨"row-offset", some 'o', false, slot true readRowOffset⟩]
  operand? := some (slot true readNumber)

def keysShape : Shape := ⟨[], none⟩

def runShape : Shape where
  switches := [
    ⟨"settings", some 's', false, slot false readPath⟩, ⟨"duration", some 'd', false, textSlot⟩,
    ⟨"output", some 'o', false, slot false readPath⟩, ⟨"set", none, true, textSlot⟩]
  operand? := none

/-- Reads the arguments that say where a beat is to be mapped. -/
def ofMapArgs (args : List String) : Except Stop Command := do
  let given ← mapShape.read args
  let beat ← readNumber (← required given.operand?)
  let margin ← readNumber (valueOf given "margin" "0.11")
  let width ← readCount (valueOf given "width" "2000")
  let height ← readCount (valueOf given "height" "1000")
  let rowOffset ← readRowOffset (valueOf given "row-offset" "0")
  return .map beat (valueOf given "rows" "2,2") margin width height rowOffset

/-- Reads the arguments that a session is run with. -/
def ofRunArgs (args : List String) : Except Stop Command := do
  let given ← runShape.read args
  return .run (given.values.lookup "settings") (valueOf given "duration" "5s")
    (valueOf given "output" "frame.ppm") (valuesOf given "set")

/-- The names of the commands that there is help for. -/
def names : List String := ["compile", "map", "keys", "run", "help"]

/-- Whether help is asked for: on all commands, or on one by its name. -/
def asksHelp : List String → Bool
  | [] => true
  | [name] => names.contains name
  | _ => false

/-- What arguments that name no command come to: they may ask for help or for
the version. -/
def withoutName (arg : String) : Stop :=
  match arg.toList with
  | '-' :: 'h' :: _ => .help
  | '-' :: 'V' :: _ => .help
  | _ => if arg = "--help" ∨ arg = "--version" then .help else .misuse

/-- The command that arguments ask for. -/
def ofArgs : List String → Except Stop Command
  | [] => .error .misuse
  | "compile" :: args => do
    return .compile (← required (← compileShape.read args).operand?)
  | "map" :: args => ofMapArgs args
  | "keys" :: args => (keysShape.read args).map fun _ => .keys
  | "run" :: args => ofRunArgs args
  | "help" :: args => .error (if asksHelp args then .help else .misuse)
  | arg :: _ => .error (withoutName arg)

end Command

/-- How the program is used. -/
def usage : String :=
  "Usage: metrograph COMMAND\n\n" ++
  "  compile PATTERN   print the notes of a rhythm pattern as JSON\n" ++
  "  map BEAT          print where a beat lies on the grid\n" ++
  "      -r, --rows, -m, --margin, -w, --width, --height, -o, --row-offset\n" ++
  "  keys              list the keys of the configuration\n" ++
  "  run               run for a while and write the last frame\n" ++
  "      -s, --settings, -d, --duration, -o, --output, --set KEY=VALUE\n"

end Metrograph.CommandLine

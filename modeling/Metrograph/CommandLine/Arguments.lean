/-
The arguments of one command: options with a value each, and perhaps one
argument without a name.

An option is given by its long name or its letter, its value in the same
argument or in the next. An argument that begins with a dash names an
option, unless it is a negative number where one is welcome. Arguments are
taken in from the left, and a value that does not fit counts as misuse
before any later argument is looked at.
-/
namespace Metrograph.CommandLine

/-- What an argument may be. -/
structure Slot where
  /-- Whether it may be a negative number though it begins with a dash. -/
  negative : Bool
  /-- Whether a text fits. -/
  accepts : String → Bool

/-- An option that takes a value. -/
structure Switch where
  name : String
  letter? : Option Char
  /-- Whether it may be given more than once. -/
  repeats : Bool
  value : Slot

/-- What a command accepts. -/
structure Shape where
  switches : List Switch
  /-- The argument without a name, if there is one. -/
  operand? : Option Slot

/-- The arguments of a command as they were given. -/
structure Given where
  /-- The values of options, in order. -/
  values : List (String × String)
  operand? : Option String

/-- Why the arguments of a command are not acted on. -/
inductive Stop where
  /-- Help was asked for, or the version. -/
  | help
  | misuse
  deriving DecidableEq

-- ============================================================== numbers

/-- Whether characters after a dash look like a number: digits with perhaps a
point and an exponent without a sign, neither of them first. -/
def looksNumeric : (first point exponent : Bool) → List Char → Bool
  | first, _, _, [] => !first
  | first, point, exponent, c :: rest =>
    if c.isDigit then looksNumeric false point exponent rest
    else if c = '.' ∧ ¬ point ∧ ¬ exponent ∧ ¬ first then looksNumeric false true exponent rest
    else if (c = 'e' ∨ c = 'E') ∧ ¬ exponent ∧ ¬ first then
      rest ≠ [] && looksNumeric false point true rest
    else false

/-- Whether a dash and some characters are a negative number. -/
def isNegative (cs : List Char) : Bool := looksNumeric true false false cs

-- ============================================================= scanning

namespace Shape

/-- Whether a negative number would be a value here. -/
def welcomesNegative (shape : Shape) (pending : Option Switch) (given : Given) : Bool :=
  pending.any (·.value.negative) || (given.operand?.isNone && shape.operand?.any (·.negative))

def named (shape : Shape) (name : List Char) : Option Switch :=
  shape.switches.find? fun s => s.name.toList = name

def lettered (shape : Shape) (letter : Char) : Option Switch :=
  shape.switches.find? fun s => s.letter? = some letter

/-- Adds the value of an option. -/
def addValue (given : Given) (s : Switch) (text : String) : Except Stop Given :=
  if s.value.accepts text && (s.repeats || (given.values.lookup s.name).isNone) then
    .ok { given with values := given.values ++ [(s.name, text)] }
  else .error .misuse

/-- Adds the argument without a name. -/
def addOperand (shape : Shape) (given : Given) (text : String) : Except Stop Given :=
  if given.operand?.isNone && shape.operand?.any (·.accepts text) then
    .ok { given with operand? := some text }
  else .error .misuse

/-- Adds arguments without a name. -/
def addOperands (shape : Shape) : Given → List String → Except Stop Given
  | given, [] => .ok given
  | given, text :: rest => do shape.addOperands (← shape.addOperand given text) rest

/-- An option found in an argument, and its value if that is in there too. -/
structure Found where
  switch : Switch
  value? : Option String

/-- The option of an argument that began with two dashes. Help has no value. -/
def long (shape : Shape) (cs : List Char) : Except Stop Found :=
  let name := cs.takeWhile (· != '=')
  let value? := match cs.dropWhile (· != '=') with
    | [] => none
    | _ :: value => some (String.ofList value)
  if name = ['h', 'e', 'l', 'p'] ∧ value?.isNone then .error .help
  else match shape.named name with
    | some s => .ok ⟨s, value?⟩
    | none => .error .misuse

/-- The option of an argument that began with one dash. -/
def short (shape : Shape) (letter : Char) (rest : List Char) : Except Stop Found :=
  if letter = 'h' then .error .help
  else match shape.lettered letter with
    | none => .error .misuse
    | some s => .ok ⟨s, match rest with
      | [] => none
      | '=' :: value => some (String.ofList value)
      | value => some (String.ofList value)⟩

/-- Takes the arguments of a command in, one by one; `pending` is an option
whose value is the next. -/
def scan (shape : Shape) : (pending : Option Switch) → Given → List String → Except Stop Given
  | none, given, [] => .ok given
  | some _, _, [] => .error .misuse
  | pending, given, arg :: rest => do
    let value (text : String) : Except Stop Given := match pending with
      | some s => addValue given s text
      | none => shape.addOperand given text
    let found (f : Found) : Except Stop Given := match f.value? with
      | some text => do shape.scan none (← addValue given f.switch text) rest
      | none => shape.scan (some f.switch) given rest
    match arg.toList with
    | ['-', '-'] => if pending.isSome then .error .misuse else shape.addOperands given rest
    | '-' :: '-' :: cs => if pending.isSome then .error .misuse else found (← shape.long cs)
    | '-' :: c :: cs =>
      if shape.welcomesNegative pending given && isNegative (c :: cs) then
        shape.scan none (← value arg) rest
      else if pending.isSome then .error .misuse
      else found (← shape.short c cs)
    | _ => shape.scan none (← value arg) rest

/-- The arguments of a command. -/
def read (shape : Shape) (args : List String) : Except Stop Given :=
  shape.scan none ⟨[], none⟩ args

end Shape

end Metrograph.CommandLine

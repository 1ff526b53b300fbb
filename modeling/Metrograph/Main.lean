/-
The program: reads the settings file, prints and writes what a command
comes to.
-/
import Metrograph.CommandLine.Report

namespace Metrograph

open CommandLine

/-- The first of some places where there is a file, by its format and what it
holds. -/
def firstFile (places : List (String × String)) : IO (Option (String × String)) := do
  for (path, format) in places do
    try return some (format, ← IO.FS.readFile path)
    catch _ => pure ()
  return none

/-- The number of a fault of the system. -/
def faultNumber : IO.Error → Nat
  | .noFileOrDirectory _ number _ => number.toNat
  | .inappropriateType _ number _ => number.toNat
  | .invalidArgument _ number _ => number.toNat
  | _ => 0

/-- A fault of the system as it is reported. -/
def faultDump (e : IO.Error) : String :=
  match FileFault.ofNumber? (faultNumber e) with
  | some fault => dumpFile fault
  | none => toString e

/-- Carries a command out; the result is the exit code. -/
def carryOut (command : Command) : IO UInt32 := do
  match command.report (← firstFile command.settingsPlaces) with
  | .failed dump =>
    IO.eprint (failure dump)
    return 1
  | .finished text picture? =>
    try
      if let some picture := picture? then IO.FS.writeBinFile picture.file picture.canvas.image
      IO.print text
      return 0
    catch e =>
      IO.eprint (failure (faultDump e))
      return 1

end Metrograph

def main (args : List String) : IO UInt32 := do
  match Metrograph.CommandLine.Command.ofArgs args with
  | .ok command => Metrograph.carryOut command
  | .error .help =>
    IO.print Metrograph.CommandLine.usage
    return 0
  | .error .misuse =>
    IO.eprint Metrograph.CommandLine.usage
    return 2

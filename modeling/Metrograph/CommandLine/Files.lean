/-
The files around a run: which there are, what they hold, and why one
cannot be written.

A path is followed name by name. Every name but the last has to be that of
a directory, and the last may be that of a file that is not there yet.
-/
import Metrograph.CommandLine.Dump
import Metrograph.Text.Character

namespace Metrograph.CommandLine

-- ============================================================== faults

/-- Why a file cannot be written. -/
inductive FileFault where
  | notFound
  | notDirectory
  | isDirectory
  | nameTooLong

/-- The number of a fault, its kind and its text. -/
def FileFault.parts : FileFault → Nat × String × String
  | .notFound => (2, "NotFound", "No such file or directory")
  | .notDirectory => (20, "NotADirectory", "Not a directory")
  | .isDirectory => (21, "IsADirectory", "Is a directory")
  | .nameTooLong => (36, "InvalidFilename", "File name too long")

/-- The fault of a number. -/
def FileFault.ofNumber? (n : Nat) : Option FileFault :=
  [FileFault.notFound, .notDirectory, .isDirectory, .nameTooLong].find? fun f => f.parts.1 = n

def dumpFile (f : FileFault) : String :=
  let (number, kind, message) := f.parts
  dumpFields "Os" [("code", toString number), ("kind", kind), ("message", Text.quoted message)]

-- =============================================================== paths

/-- The names on a path; those that lead nowhere are left out. A path from the
root begins with an empty name. -/
def pathNames (path : String) : List String :=
  let names := (Text.splitChars (· == '/') path.toList).map String.ofList
  let root := if path.startsWith "/" then [""] else []
  root ++ names.filter fun name => name ≠ "" ∧ name ≠ "."

/-- The ending of a file's name, which tells its format. -/
def formatOf (path : String) : String :=
  let name := path.toList.reverse.takeWhile (· != '/')
  let ending := name.takeWhile (· != '.')
  if ending.length + 1 < name.length then String.ofList ending.reverse else ""

/-- The formats of settings files. -/
def settingsFormats : List String := ["json", "yaml", "yml"]

/-- Where the settings of a path may be, with their format: in the file of that
path, whatever its ending, or in one with the ending of a format added. -/
def settingsPlaces (path : String) : List (String × String) :=
  let stem := String.ofList (Text.dropEndWhile (· == '/') path.toList)
  (path, formatOf path) :: settingsFormats.map fun format => (stem ++ "." ++ format, format)

-- ============================================================ a picture

/-- A picture of the files around a run. -/
structure Files where
  /-- The paths of directories, besides the root and the directory of the run. -/
  directories : List String
  /-- What files hold, by their paths. -/
  contents : List (String × String)

namespace Files

/-- Whether the names on a path lead to a directory. -/
def isDirectory (files : Files) (names : List String) : Bool :=
  names == [] || names == [""] || files.directories.any fun path => pathNames path == names

/-- What the file at the end of a path holds. -/
def content? (files : Files) (path : String) : Option String :=
  if path.endsWith "/" then none
  else (files.contents.find? fun (other, _) => pathNames other == pathNames path).map (·.2)

/-- The first of some places where there is a file, by its format and what it
holds. -/
def first? (files : Files) (places : List (String × String)) : Option (String × String) :=
  places.findSome? fun (path, format) => (files.content? path).map fun text => (format, text)

/-- Why a path cannot be written, `before` being the names on it so far and
`slash` whether the last name is followed by a slash. -/
def faultAfter (files : Files) (slash : Bool) (before : List String) :
    List String → Option FileFault
  | [] => some .isDirectory
  | name :: rest =>
    let names := before ++ [name]
    let isFile := files.contents.any fun (path, _) => pathNames path == names
    if 255 < name.utf8ByteSize then some .nameTooLong
    else if files.isDirectory names then faultAfter files slash names rest
    else if rest ≠ [] then some (if isFile then .notDirectory else .notFound)
    else if slash then some (if isFile then .notDirectory else .isDirectory)
    else none

/-- Why a path cannot be written, if it cannot. -/
def fault? (files : Files) (path : String) : Option FileFault :=
  files.faultAfter (path.endsWith "/") [] (pathNames path)

end Files

end Metrograph.CommandLine

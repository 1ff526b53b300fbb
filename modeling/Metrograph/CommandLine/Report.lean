/-
What the commands come to: a text to print and perhaps a picture to write,
or a fault to report.

A run takes place in its own time, however long that takes to work out.
-/
import Metrograph.CommandLine.Command
import Metrograph.CommandLine.Files
import Metrograph.Engine.Engine
import Metrograph.Json.Writer
import Metrograph.Rhythm.Compile
import Metrograph.Session.Loop

namespace Metrograph.CommandLine

/-- A picture and the file it goes to. -/
structure Picture where
  file : String
  canvas : Canvas

/-- What a command comes to. -/
inductive Report where
  | finished (text : String) (picture? : Option Picture)
  | failed (dump : String)

/-- The text of a failure. -/
def failure (dump : String) : String := "Error: " ++ dump ++ "\n"

-- ============================================================ the notes

/-- A compiled rhythm as a JSON document. -/
def loopJson (loop : Rhythm.Loop Float) : Json :=
  .record [
    ("notes", .array (loop.notes.map fun n => .record
      [("time", .ofFloat n.time), ("tags", .array (n.tags.map .text))])),
    ("loop_length", .ofFloat loop.length),
    ("source_text", .text loop.source)]

/-- The notes of a rhythm, or the fault in its text. -/
def compileReport (pattern : String) : Report :=
  match Rhythm.compile pattern with
  | .ok loop => .finished ((loopJson loop).lines ++ "\n") none
  | .error fault => .failed (dumpRhythm fault)

-- ========================================================= the position

/-- Reads row lengths with commas between them. -/
def readRows (rows : String) : Except Decimal.WholeFault (List Nat) :=
  (Text.splitChars (· == ',') rows.toList).mapM fun row =>
    Decimal.readWholeChars Decimal.limit32 (Text.trimChars row)

/-- Where a beat lies on a grid, or why there is no such grid. -/
def mapReport (beat : Float) (rows : String) (margin : Float) (width height : Nat)
    (rowOffset : Int) : Report :=
  match readRows rows with
  | .error fault => .failed (dumpWhole fault)
  | .ok rows =>
    match (⟨rows, margin, width, height⟩ : Grid.Geometry Float).layout with
    | .error fault => .failed (dumpGrid fault)
    | .ok layout =>
      let position := layout.position beat rowOffset
      .finished s!"x: {Decimal.plain.text position.x}, row: {position.row}\n" none

-- ============================================================= the keys

/-- A key on a line: its name, side and kind, and what it holds at first. -/
def keyLine (key : Config.Key) : String :=
  s!"- {key.name} ({key.side.label}, {key.kind.label}): " ++ (Config.standard.value key).text ++ "\n"

def keysReport : Report :=
  .finished
    (s!"Keys (count: {Config.Key.all.length}):\n" ++ String.join (Config.Key.all.map keyLine)) none

-- ============================================================== the run

/-- The name and the text of an assignment. -/
def readAssignment (text : String) : Except String (String × String) :=
  match text.toList.dropWhile (· != '=') with
  | [] => .error (Text.quoted s!"malformed config value '{text}'")
  | _ :: value => .ok (String.ofList (text.toList.takeWhile (· != '=')), String.ofList value)

/-- Adds assignments to settings, in order. -/
def assign : Settings → List String → Except String Settings
  | settings, [] => .ok settings
  | settings, text :: rest => do
    let (name, value) ← readAssignment text
    assign (settings.insertValue name value) rest

/-- The settings of a run, from the format and the content of its settings file
if there is one. -/
def settingsOf (settings? : Option String) (found? : Option (String × String)) :
    Except String Settings :=
  match settings? with
  | none => .ok .standard
  | some _ =>
    let (format, content?) := match found? with
      | some (format, content) => (format, some content)
      | none => ("", none)
    (Settings.load format content?).mapError dumpConfig

/-- A session with its first values applied and its configuration sent. -/
def openSession (settings : Settings) : Except String (Session Engine) := do
  let engine ← (Engine.named settings.engine 0 []).mapError dumpEngine
  let store ← (Config.Store.ofConfig ⟨.standard, .standard⟩ .empty).mapError dumpConfig
  let applied := settings.apply store
  match applied.fault? with
  | some fault => .error (dumpConfig fault)
  | none => do
    let timing ← settings.timing.mapError dumpConfig
    return Session.ofStore applied.store.push engine timing

/-- What a session counted, in lines. -/
def statsText (s : Stats) : String :=
  s!"Frames: {s.frames}\nPolls: {s.polls}\nSamples: {s.samples}\nBars: {s.bars}\n" ++
    s!"Dropped samples: {s.dropped}\nEngine errors: {s.engineErrors}\n"

/-- A session as it is after running for a span of time. -/
def runSession (settings? : Option String) (found? : Option (String × String))
    (duration : String) (assignments : List String) : Except String (Session Engine) := do
  let settings ← assign (← settingsOf settings? found?) assignments
  let span ← (Config.Duration.read duration).mapError dumpDuration
  let session ← openSession settings
  let (mounted, _) := session.mount.sleep 0 span
  return (mounted.unmount span).1

/-- The statistics of a run and its last picture. -/
def runReport (settings? : Option String) (found? : Option (String × String))
    (duration output : String) (assignments : List String) : Report :=
  match runSession settings? found? duration assignments with
  | .ok session => .finished (statsText session.stats) (some ⟨output, session.canvas⟩)
  | .error dump => .failed dump

-- ============================================================= commands

/-- Where the settings file of a command may be, with its format. -/
def Command.settingsPlaces : Command → List (String × String)
  | .run (some path) _ _ _ => CommandLine.settingsPlaces path
  | _ => []

/-- What a command comes to; `found?` is the format and the content of its
settings file, if there is one. -/
def Command.report (found? : Option (String × String)) : Command → Report
  | .compile pattern => compileReport pattern
  | .map beat rows margin width height rowOffset =>
    mapReport beat rows margin width height rowOffset
  | .keys => keysReport
  | .run settings? duration output assignments =>
    runReport settings? found? duration output assignments

/-- What a command comes to where its picture cannot be written. -/
def Report.refuse (fault? : Picture → Option FileFault) : Report → Report
  | .finished text (some picture) => match fault? picture with
    | some fault => .failed (dumpFile fault)
    | none => .finished text (some picture)
  | report => report

/-- What a command comes to among some files. -/
def Command.reportAmong (files : Files) (command : Command) : Report :=
  (command.report (files.first? command.settingsPlaces)).refuse fun picture =>
    files.fault? picture.file

end Metrograph.CommandLine

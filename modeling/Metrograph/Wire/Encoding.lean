/-
The JSON form of what goes to and from the engine.

Records are written with their fields in a fixed order. They are read back
from an object with every field exactly once, in any order and among
others, or from a list of the fields' values in order.
-/
import Metrograph.Wire.Config
import Metrograph.Waveform.Buffer
import Metrograph.Json.Reader
import Metrograph.Json.Writer

namespace Metrograph.Wire

-- =========================================================== primitives

/-- A number of any spelling that is within range. -/
def floatOf : Json → Option Float
  | .number spelling => (Json.Numeral.ofSpelling spelling).bind Json.Numeral.toFloat?
  | _ => none

/-- A count of 32 bits, spelled as a whole number. -/
def countOf : Json → Option UInt32
  | .number spelling => do
    let n ← (← Json.Numeral.ofSpelling spelling).toInt?
    if 0 ≤ n ∧ n ≤ Decimal.limit32 then some (UInt32.ofNat n.toNat) else none
  | _ => none

def boolOf : Json → Option Bool
  | .bool b => some b
  | _ => none

def textOf : Json → Option String
  | .string content => content
  | _ => none

def listOf {β : Type} (read : Json → Option β) : Json → Option (List β)
  | .array elements => elements.mapM read
  | _ => none

-- ============================================================== samples

def sampleFields : List String := ["beat", "amplitude"]

def encodeSample (s : Waveform.Sample Float) : Json :=
  .record [("beat", .ofFloat s.beat), ("amplitude", .ofFloat s.amplitude)]

def decodeSample (j : Json) : Option (Waveform.Sample Float) :=
  match j.fields sampleFields with
  | some [beat, amplitude] => do return ⟨← floatOf beat, ← floatOf amplitude⟩
  | _ => none

-- ============================================================== rhythms

def noteFields : List String := ["time", "tags"]

def encodeNote (n : Note Float) : Json :=
  .record [("time", .ofFloat n.time), ("tags", .array (n.tags.map Json.text))]

/-- A note as it is received. -/
def decodeNote (j : Json) : Option (Note Float) :=
  match j.fields noteFields with
  | some [time, tags] => do return ⟨← floatOf time, ← listOf textOf tags⟩
  | _ => none

def rhythmFields : List String := ["notes", "start", "end"]

/-- A rhythm as it is sent. -/
def encodeRhythm (r : Rhythm Float) : Json :=
  .record [("notes", .array (r.notes.toList.map encodeNote)), ("start", .ofFloat r.start),
    ("end", .ofFloat r.stop)]

/-- A rhythm as it is received, if all its notes are. -/
def decodeRhythm (j : Json) : Option (Rhythm Float) :=
  match j.fields rhythmFields with
  | some [notes, start, stop] => do
    return ⟨(← listOf decodeNote notes).toArray, ← floatOf start, ← floatOf stop⟩
  | _ => none

-- ======================================================= configurations

def configFields : List String :=
  ["audio_in_gain", "audio_monitor_on", "beats_to_loop", "bpm", "buffer_compensation", "click_on",
   "click_toggle", "click_volume", "drum_on", "looping_on", "play_file", "audio_subdivisions",
   "visual_monitor_on"]

/-- A configuration as it is sent, in the order of its fields. -/
def encodeConfig (c : Config Float) : Json :=
  .record
    [("audio_in_gain", .ofFloat c.audioInGain), ("audio_monitor_on", .bool c.audioMonitorOn),
     ("beats_to_loop", .ofFloat c.beatsToLoop), ("bpm", .ofFloat c.bpm),
     ("buffer_compensation", .ofNat c.bufferCompensation.toNat), ("click_on", .bool c.clickOn),
     ("click_toggle", .bool c.clickToggle), ("click_volume", .ofFloat c.clickVolume),
     ("drum_on", .bool c.drumOn), ("looping_on", .bool c.loopingOn),
     ("play_file", .bool c.playFile), ("audio_subdivisions", encodeRhythm c.audioSubdivisions),
     ("visual_monitor_on", .bool c.visualMonitorOn)]

/-- A configuration as it is received: every field must be there, and only once. -/
def decodeConfig (j : Json) : Option (Config Float) :=
  match j.fields configFields with
  | some [audioInGain, audioMonitorOn, beatsToLoop, bpm, bufferCompensation, clickOn, clickToggle,
      clickVolume, drumOn, loopingOn, playFile, audioSubdivisions, visualMonitorOn] => do
    return {
      audioInGain := ← floatOf audioInGain
      audioMonitorOn := ← boolOf audioMonitorOn
      beatsToLoop := ← floatOf beatsToLoop
      bpm := ← floatOf bpm
      bufferCompensation := ← countOf bufferCompensation
      clickOn := ← boolOf clickOn
      clickToggle := ← boolOf clickToggle
      clickVolume := ← floatOf clickVolume
      drumOn := ← boolOf drumOn
      loopingOn := ← boolOf loopingOn
      playFile := ← boolOf playFile
      audioSubdivisions := ← decodeRhythm audioSubdivisions
      visualMonitorOn := ← boolOf visualMonitorOn }
  | _ => none

-- ================================================================ texts

/-- Reads a text as one value of some form. -/
def decodeText {β : Type} (decode : Json → Option β) (text : String) : Option β :=
  (Json.read text).bind decode

end Metrograph.Wire

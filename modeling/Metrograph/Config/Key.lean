/-
The names of everything that can be configured.

Every key belongs to one of two sides: the engine's settings are pushed to
it whenever one of them changes, the display's only affect the drawing.
Four of the display's keys describe the grid itself.
-/
import Metrograph.Config.Value

namespace Metrograph.Config

/-- Which side of the system a key belongs to. -/
inductive Side where
  | backend
  | display
  deriving DecidableEq

def Side.label : Side → String
  | .backend => "Backend"
  | .display => "Display"

inductive Key where
  | audioInGain
  | audioMonitorOn
  | beatsToLoop
  | bpm
  | bufferCompensation
  | clickOn
  | clickToggle
  | clickVolume
  | drumOn
  | loopingOn
  | playFile
  | audioSubdivisions
  | visualMonitorOn
  | barColorMode
  | beatsPerRow
  | canvasHeight
  | canvasWidth
  | margin
  | visualSubdivisions
  | subdivisionOffset
  | visualGain
  deriving DecidableEq

namespace Key

/-- Every key: the engine's, then the display's. -/
def all : List Key :=
  [.audioInGain, .audioMonitorOn, .beatsToLoop, .bpm, .bufferCompensation, .clickOn, .clickToggle,
   .clickVolume, .drumOn, .loopingOn, .playFile, .audioSubdivisions, .visualMonitorOn,
   .barColorMode, .beatsPerRow, .canvasHeight, .canvasWidth, .margin, .visualSubdivisions,
   .subdivisionOffset, .visualGain]

/-- The name of a key, in lower case with underscores. -/
def name : Key → String
  | .audioInGain => "audio_in_gain"
  | .audioMonitorOn => "audio_monitor_on"
  | .beatsToLoop => "beats_to_loop"
  | .bpm => "bpm"
  | .bufferCompensation => "buffer_compensation"
  | .clickOn => "click_on"
  | .clickToggle => "click_toggle"
  | .clickVolume => "click_volume"
  | .drumOn => "drum_on"
  | .loopingOn => "looping_on"
  | .playFile => "play_file"
  | .audioSubdivisions => "audio_subdivisions"
  | .visualMonitorOn => "visual_monitor_on"
  | .barColorMode => "bar_color_mode"
  | .beatsPerRow => "beats_per_row"
  | .canvasHeight => "canvas_height"
  | .canvasWidth => "canvas_width"
  | .margin => "margin"
  | .visualSubdivisions => "visual_subdivisions"
  | .subdivisionOffset => "subdivision_offset"
  | .visualGain => "visual_gain"

/-- The kind of a key's values. -/
@[reducible] def kind : Key → Kind
  | .audioInGain | .beatsToLoop | .bpm | .clickVolume | .margin | .subdivisionOffset
  | .visualGain => .number
  | .bufferCompensation | .canvasHeight | .canvasWidth => .count
  | .audioMonitorOn | .clickOn | .clickToggle | .drumOn | .loopingOn | .playFile
  | .visualMonitorOn | .barColorMode => .toggle
  | .beatsPerRow => .counts
  | .audioSubdivisions | .visualSubdivisions => .pattern

def side : Key → Side
  | .barColorMode | .beatsPerRow | .canvasHeight | .canvasWidth | .margin | .visualSubdivisions
  | .subdivisionOffset | .visualGain => .display
  | _ => .backend

/-- Whether a change to the key changes the grid. -/
def affectsGeometry : Key → Bool
  | .beatsPerRow | .margin | .canvasWidth | .canvasHeight => true
  | _ => false

-- =============================================================== names

/-- A spelling in lower case with underscores: a capital starts a word, and a
hyphen stands for an underscore. `started` says that something precedes. -/
def normalize (started : Bool) : List Char → List Char
  | [] => []
  | c :: rest =>
    if c.isUpper then
      (if started then ['_'] else []) ++ c.toLower :: normalize true rest
    else if c = '-' then '_' :: normalize true rest
    else c :: normalize true rest

/-- The key of a name in snake, camel or kebab case. White space around the
name does not count. -/
def ofName (text : String) : Option Key :=
  let spelling := normalize false (Text.trimChars text.toList)
  all.find? fun key => key.name.toList = spelling

end Key

end Metrograph.Config

/-
The full configuration: what the engine is told and what the display uses,
readable and writable by key.
-/
import Metrograph.Config.Key
import Metrograph.Grid.Layout

namespace Metrograph.Config

/-- The engine's settings. -/
structure Backend where
  audioInGain : Float
  audioMonitorOn : Bool
  beatsToLoop : Float
  bpm : Float
  /-- Latency compensation, in samples. -/
  bufferCompensation : UInt32
  clickOn : Bool
  clickToggle : Bool
  clickVolume : Float
  drumOn : Bool
  loopingOn : Bool
  playFile : Bool
  /-- The rhythm of the audible click. -/
  audioSubdivisions : PatternField
  visualMonitorOn : Bool

def Backend.standard : Backend where
  audioInGain := 1
  audioMonitorOn := false
  beatsToLoop := 4
  bpm := 91
  bufferCompensation := 4330
  clickOn := true
  clickToggle := false
  clickVolume := 0.3
  drumOn := true
  loopingOn := false
  playFile := true
  audioSubdivisions := .standard
  visualMonitorOn := true

/-- The display's settings. -/
structure Display where
  /-- Colour bars by level rather than alike. -/
  barColorMode : Bool
  beatsPerRow : List UInt32
  canvasHeight : UInt32
  canvasWidth : UInt32
  /-- Beats of overlap drawn into neighbouring rows. -/
  margin : Float
  /-- The rhythm of the overlay lines. -/
  visualSubdivisions : PatternField
  /-- Beats by which the overlay lines are shifted. -/
  subdivisionOffset : Float
  visualGain : Float

def Display.standard : Display where
  barColorMode := false
  beatsPerRow := [2, 2]
  canvasHeight := 1000
  canvasWidth := 2000
  margin := 0.11
  visualSubdivisions := .standard
  subdivisionOffset := 0
  visualGain := 10

/-- The grid that the display's settings ask for. -/
def Display.geometry (d : Display) : Grid.Geometry Float :=
  ⟨d.beatsPerRow.map UInt32.toNat, d.margin, d.canvasWidth.toNat, d.canvasHeight.toNat⟩

end Config

/-- All settings of both sides. -/
structure Config where
  backend : Config.Backend
  display : Config.Display

namespace Config

def standard : Config := ⟨.standard, .standard⟩

/-- What a key holds. -/
def get (c : Config) : (key : Key) → key.kind.Carrier
  | .audioInGain => c.backend.audioInGain
  | .audioMonitorOn => c.backend.audioMonitorOn
  | .beatsToLoop => c.backend.beatsToLoop
  | .bpm => c.backend.bpm
  | .bufferCompensation => c.backend.bufferCompensation
  | .clickOn => c.backend.clickOn
  | .clickToggle => c.backend.clickToggle
  | .clickVolume => c.backend.clickVolume
  | .drumOn => c.backend.drumOn
  | .loopingOn => c.backend.loopingOn
  | .playFile => c.backend.playFile
  | .audioSubdivisions => c.backend.audioSubdivisions
  | .visualMonitorOn => c.backend.visualMonitorOn
  | .barColorMode => c.display.barColorMode
  | .beatsPerRow => c.display.beatsPerRow
  | .canvasHeight => c.display.canvasHeight
  | .canvasWidth => c.display.canvasWidth
  | .margin => c.display.margin
  | .visualSubdivisions => c.display.visualSubdivisions
  | .subdivisionOffset => c.display.subdivisionOffset
  | .visualGain => c.display.visualGain

/-- Puts another value under a key. -/
def put (c : Config) : (key : Key) → key.kind.Carrier → Config
  | .audioInGain, x => { c with backend.audioInGain := x }
  | .audioMonitorOn, x => { c with backend.audioMonitorOn := x }
  | .beatsToLoop, x => { c with backend.beatsToLoop := x }
  | .bpm, x => { c with backend.bpm := x }
  | .bufferCompensation, x => { c with backend.bufferCompensation := x }
  | .clickOn, x => { c with backend.clickOn := x }
  | .clickToggle, x => { c with backend.clickToggle := x }
  | .clickVolume, x => { c with backend.clickVolume := x }
  | .drumOn, x => { c with backend.drumOn := x }
  | .loopingOn, x => { c with backend.loopingOn := x }
  | .playFile, x => { c with backend.playFile := x }
  | .audioSubdivisions, x => { c with backend.audioSubdivisions := x }
  | .visualMonitorOn, x => { c with backend.visualMonitorOn := x }
  | .barColorMode, x => { c with display.barColorMode := x }
  | .beatsPerRow, x => { c with display.beatsPerRow := x }
  | .canvasHeight, x => { c with display.canvasHeight := x }
  | .canvasWidth, x => { c with display.canvasWidth := x }
  | .margin, x => { c with display.margin := x }
  | .visualSubdivisions, x => { c with display.visualSubdivisions := x }
  | .subdivisionOffset, x => { c with display.subdivisionOffset := x }
  | .visualGain, x => { c with display.visualGain := x }

/-- What a key holds, together with its kind. -/
def value (c : Config) (key : Key) : Value := ⟨key.kind, c.get key⟩

end Config

end Metrograph

import Metrograph.Cancel
import Metrograph.Canvas.Canvas
import Metrograph.Canvas.Painter
import Metrograph.CommandLine.Arguments
import Metrograph.CommandLine.Command
import Metrograph.CommandLine.Dump
import Metrograph.CommandLine.Files
import Metrograph.CommandLine.Report
import Metrograph.Config.Config
import Metrograph.Config.Duration
import Metrograph.Config.Fault
import Metrograph.Config.Key
import Metrograph.Config.Store
import Metrograph.Config.Value
import Metrograph.Decimal.Layout
import Metrograph.Decimal.Literal
import Metrograph.Decimal.Shortest
import Metrograph.Document
import Metrograph.Document.Path
import Metrograph.Engine.AudioEngine
import Metrograph.Engine.Command
import Metrograph.Engine.Engine
import Metrograph.Engine.Recorder
import Metrograph.Engine.Simulated
import Metrograph.Engine.Simulation
import Metrograph.Grid.Geometry
import Metrograph.Grid.Layout
import Metrograph.Json.Document
import Metrograph.Json.Number
import Metrograph.Json.Reader
import Metrograph.Json.Writer
import Metrograph.Main
import Metrograph.Notice
import Metrograph.Rhythm.Attempts
import Metrograph.Rhythm.Compile
import Metrograph.Rhythm.Fault
import Metrograph.Rhythm.Loop
import Metrograph.Rhythm.Pattern
import Metrograph.Rhythm.Reader
import Metrograph.Scalar
import Metrograph.Scalar.Binary64
import Metrograph.Session.Loop
import Metrograph.Session.Session
import Metrograph.Session.Timer
import Metrograph.Settings
import Metrograph.Text.Character
import Metrograph.Text.Quoted
import Metrograph.Waveform.Buffer
import Metrograph.Waveform.PeakHold
import Metrograph.Wire.Config
import Metrograph.Wire.Encoding
import Metrograph.Wire.Rhythm
import Metrograph.Yaml.Block
import Metrograph.Yaml.Layout
import Metrograph.Yaml.Lexer
import Metrograph.Yaml.Node
import Metrograph.Yaml.Place
import Metrograph.Yaml.Plain
import Metrograph.Yaml.Quoted
import Metrograph.Yaml.Tree
import Metrograph.Yaml.Token
import Metrograph.Proofs.Config.Operation
import Metrograph.Proofs.Config.Mirror
import Metrograph.Proofs.Config.Waiting
import Metrograph.Proofs.Grid.Window
import Metrograph.Proofs.Session.Machine
import Metrograph.Proofs.Session.Tap
import Metrograph.Proofs.Session.Delivery
import Metrograph.Proofs.Session.Ledger
import Metrograph.Proofs.Settings.Override
import Metrograph.Proofs.Canvas.Overwrite
import Metrograph.Proofs.Rhythm.Completeness
import Metrograph.Proofs.Rhythm.RoundTrip
import Metrograph.Proofs.Session.Cuts
import Metrograph.Proofs.Session.Picture
import Metrograph.Proofs.Waveform.Runs
import Metrograph.Proofs.Engine.Bursts
import Metrograph.Proofs.Config.Soundness
import Metrograph.Proofs.Rhythm.Instances
import Metrograph.Proofs.Config.Change
import Metrograph.Proofs.Config.Independence
import Metrograph.Proofs.Settings.Order
import Metrograph.Proofs.Json.RoundTrip
import Metrograph.Proofs.Decimal.Written
import Metrograph.Proofs.Wire.RoundTrip
import Metrograph.Proofs.Scalar.Nearest
import Metrograph.Proofs.Scalar.Packing
import Metrograph.Proofs.Rhythm.Times
import Metrograph.Proofs.Scalar.Counting
import Metrograph.Proofs.Canvas.Clearing
import Metrograph.Proofs.Rhythm.Repetitions
import Metrograph.Proofs.Rhythm.Tags
import Metrograph.Proofs.Grid.Neighbours
import Metrograph.Proofs.Grid.Cells
import Metrograph.Proofs.Waveform.Pass
import Metrograph.Proofs.Scalar.Decimal
import Metrograph.Proofs.Rhythm.Formula
import Metrograph.Proofs.Decimal.Literal
import Metrograph.Proofs.Rhythm.Grammar
import Metrograph.Proofs.Rhythm.Conformance
import Metrograph.Proofs.Rhythm.Refusal
import Metrograph.Proofs.Rhythm.Arrangement
import Metrograph.Proofs.Rhythm.Padding
import Metrograph.Proofs.Rhythm.Tracking
import Metrograph.Proofs.Rhythm.Caret
import Metrograph.Proofs.Rhythm.Occurrences
import Metrograph.Proofs.Config.Typing
import Metrograph.Proofs.Config.TextPaths
import Metrograph.Proofs.Canvas.Rows
import Metrograph.Proofs.Canvas.Overlay
import Metrograph.Proofs.Engine.Clock
import Metrograph.Proofs.Engine.Schedules
import Metrograph.Proofs.Config.Names
import Metrograph.Proofs.Canvas.Filling
import Metrograph.Proofs.Grid.Margins
import Metrograph.Proofs.Wire.Overflow
import Metrograph.Proofs.Results
import Metrograph.Proofs.Text.Runs
import Metrograph.Proofs.Text.Trimming
import Metrograph.Proofs.Text.Pieces
import Metrograph.Proofs.Decimal.Whole
import Metrograph.Proofs.Config.Counts
import Metrograph.Proofs.Canvas.Image

/-
The picture does not show how the samples came in.

# What a session is heading for

`ahead` is what would be seen if some more samples came in and a frame
were drawn at once. A poll moves samples from those still to come to those
that wait, and a frame draws the ones that wait, so no turn changes what
the session is heading for (`ahead_turn`). A run that ends in a frame has
arrived there: it shows what one poll and one frame would have shown.

# Where frames could differ

Two frames differ from one in three places. The first frame may end in
the middle of a run of samples, which the downsampler bridges
(`ingest_append`). It sets the gain, but to the same value. And it paints
an overlay that the bars of the second paint over in part; the second
overlay covers every trace of it (`Paints.absorb`).
-/
import Metrograph.Engine.Recorder
import Metrograph.Proofs.Canvas.Overwrite
import Metrograph.Proofs.Session.Machine
import Metrograph.Proofs.Waveform.PeakHold

namespace Metrograph

open Config (Display)
open Engine (AudioEngine)
open Waveform (Bar PeakHold Sample)

-- ======================================================= what is seen

/-- What a session has drawn. -/
structure Seen where
  canvas : Canvas
  hold : PeakHold Float
  /-- Samples drawn. -/
  samples : Nat
  bars : Nat

namespace Seen

/-- Draws samples the way a frame does. -/
def draw (v : Seen) (d : Display) (samples : List (Sample Float)) : Seen :=
  let (bars, hold) := (v.hold.withGain d.visualGain).ingest samples
  let canvas := bars.foldl
    (fun canvas bar => Painter.paintBar canvas hold.layout bar d.barColorMode) v.canvas
  { canvas := Painter.paintOverlay canvas hold.layout d.visualSubdivisions.loop d.subdivisionOffset
    hold := hold
    samples := v.samples + samples.length
    bars := v.bars + bars.length }

/-- A downsampler has the gain of the settings it has drawn with. -/
theorem withGain_ingest (p : PeakHold Float) (gain : Float) (xs : List (Sample Float)) :
    ((p.withGain gain).ingest xs).2.withGain gain = ((p.withGain gain).ingest xs).2 := by
  have kept : ((p.withGain gain).ingest xs).2.gain = gain :=
    ((p.withGain gain).ingest_kept xs).2
  cases h : ((p.withGain gain).ingest xs).2 with
  | mk layout gain' current =>
      rw [h] at kept
      dsimp only at kept
      rw [kept]
      rfl

/-- Samples that are drawn in two frames look like samples drawn in one. -/
theorem draw_draw (v : Seen) (d : Display) (xs ys : List (Sample Float)) :
    (v.draw d xs).draw d ys = v.draw d (xs ++ ys) := by
  have gained := withGain_ingest v.hold d.visualGain xs
  have layout := ((v.hold.withGain d.visualGain).ingest xs).2.ingest_kept ys
  unfold draw
  rw [PeakHold.ingest_append, gained]
  cases first : (v.hold.withGain d.visualGain).ingest xs with
  | mk bars hold =>
      rw [first] at layout
      cases second : hold.ingest ys with
      | mk more final =>
          rw [second] at layout
          dsimp only at layout ⊢
          rw [layout.1, List.foldl_append, List.length_append, List.length_append,
            Nat.add_assoc, Nat.add_assoc]
          -- the first overlay vanishes under the bars and the second overlay
          have covered := (Painter.paints_paintOverlay hold.layout d.visualSubdivisions.loop
            d.subdivisionOffset).absorb (Canvas.paints_foldl
              (fun bar => Painter.paints_paintBar hold.layout bar d.barColorMode) more)
          rw [covered]

end Seen

-- =============================================================== turns

/-- The samples that a turn brings in. -/
def Turn.samples {ε : Type} [AudioEngine ε] : Turn ε → List (Sample Float)
  | .poll engine now => match (AudioEngine.poll now engine).1 with
    | .ok samples => samples
    | .error _ => []
  | .frame => []

namespace Session

variable {ε : Type}

/-- What can be seen of a session. -/
def seen (s : Session ε) : Seen := ⟨s.canvas, s.hold, s.stats.samples, s.stats.bars⟩

/-- What would be seen after some more samples and a frame. -/
def ahead (s : Session ε) (samples : List (Sample Float)) : Seen :=
  s.seen.draw s.store.config.display (s.pending.samples ++ samples)

/-- A frame shows what the session was heading for. -/
theorem seen_frame (s : Session ε) : s.frame.seen = s.ahead [] := by
  unfold ahead
  rw [List.append_nil]
  rfl

/-- A batch that fits moves from the samples to come to those that wait. -/
theorem ahead_receive {s : Session ε} {batch : List (Sample Float)}
    (fits : s.pending.overflow batch = 0) (samples : List (Sample Float)) :
    (s.receive batch).1.ahead samples = s.ahead (batch ++ samples) := by
  have queued : (s.pending.push batch).samples = s.pending.samples ++ batch := by
    unfold Waveform.Buffer.push
    rw [fits]
    rfl
  show s.seen.draw s.store.config.display ((s.pending.push batch).samples ++ samples) = _
  rw [queued, List.append_assoc]
  rfl

variable [AudioEngine ε]

/-- A session after turns in order. -/
def turns (s : Session ε) (ts : List (Turn ε)) : Session ε := ts.foldl Session.turn s

/-- The samples that turns bring in, in order. -/
def stream (ts : List (Turn ε)) : List (Sample Float) := ts.flatMap Turn.samples

/-- Dropped samples stay dropped. -/
theorem dropped_le_turn (s : Session ε) (t : Turn ε) :
    s.stats.dropped ≤ (s.turn t).stats.dropped := by
  cases t with
  | frame => exact Nat.le_refl _
  | poll engine now =>
      show _ ≤ (poll _ now).1.stats.dropped
      unfold poll
      dsimp only
      split
      · exact Nat.le_add_right _ _
      · exact Nat.le_refl _

theorem dropped_le_turns (s : Session ε) (ts : List (Turn ε)) :
    s.stats.dropped ≤ (s.turns ts).stats.dropped := by
  induction ts generalizing s with
  | nil => exact Nat.le_refl _
  | cons t rest ih => exact Nat.le_trans (s.dropped_le_turn t) (ih (s.turn t))

/-- A turn that drops no samples leads where the session was heading. -/
theorem ahead_turn {s : Session ε} {t : Turn ε}
    (whole : (s.turn t).stats.dropped = s.stats.dropped) (samples : List (Sample Float)) :
    (s.turn t).ahead samples = s.ahead (t.samples ++ samples) := by
  cases t with
  | frame =>
      show s.frame.seen.draw s.store.config.display samples = _
      rw [seen_frame]
      unfold ahead
      rw [List.append_nil, Seen.draw_draw]
      rfl
  | poll engine now =>
      have polled : s.turn (.poll engine now) = (poll { s with engine := engine } now).1 := rfl
      unfold Turn.samples
      rw [polled] at whole ⊢
      unfold poll at whole ⊢
      dsimp only at whole ⊢
      cases answered : (AudioEngine.poll now engine).1 with
      | error fault => rfl
      | ok batch =>
          rw [answered] at whole
          have fits : s.pending.overflow batch = 0 := by
            unfold receive at whole
            dsimp only at whole
            omega
          exact ahead_receive fits samples

/-- Turns that drop no samples lead where the session was heading. -/
theorem ahead_turns {s : Session ε} {ts : List (Turn ε)}
    (whole : (s.turns ts).stats.dropped = s.stats.dropped) (samples : List (Sample Float)) :
    (s.turns ts).ahead samples = s.ahead (stream ts ++ samples) := by
  induction ts generalizing s with
  | nil => rfl
  | cons t rest ih =>
      -- the count never falls, so if it ends where it began no turn raised it
      have first : (s.turn t).stats.dropped = s.stats.dropped :=
        Nat.le_antisymm (whole ▸ (s.turn t).dropped_le_turns rest) (s.dropped_le_turn t)
      have later : ((s.turn t).turns rest).stats.dropped = (s.turn t).stats.dropped :=
        whole.trans first.symm
      show ((s.turn t).turns rest).ahead samples = _
      rw [ih later, ahead_turn first, ← List.append_assoc]
      rfl

/-- Turns that drop no samples and end in a frame show what one frame over all
samples would have shown. -/
theorem seen_turns {s : Session ε} {ts : List (Turn ε)}
    (whole : (s.turns ts).stats.dropped = s.stats.dropped) (shown : ts.getLast? = some .frame) :
    (s.turns ts).seen = s.ahead (stream ts) := by
  obtain ⟨front, rfl⟩ := List.getLast?_eq_some_iff.mp shown
  have split : s.turns (front ++ [.frame]) = (s.turns front).frame := by
    unfold turns
    rw [List.foldl_append]
    rfl
  rw [split] at whole ⊢
  rw [seen_frame, ahead_turns whole]
  unfold stream
  rw [List.flatMap_append]
  rfl

/-- However a stream of samples is cut into polls, and whatever frames are
drawn in between, if none of it is dropped then the frame at the end shows
the same canvas, leaves the same open run and has counted the same. -/
theorem picture_of_stream (s : Session ε) {xs ys : List (Turn ε)} (same : stream xs = stream ys)
    (whole : (s.turns xs).stats.dropped = s.stats.dropped)
    (whole' : (s.turns ys).stats.dropped = s.stats.dropped)
    (shown : xs.getLast? = some .frame) (shown' : ys.getLast? = some .frame) :
    (s.turns xs).canvas = (s.turns ys).canvas ∧ (s.turns xs).hold = (s.turns ys).hold
      ∧ (s.turns xs).stats.samples = (s.turns ys).stats.samples
      ∧ (s.turns xs).stats.bars = (s.turns ys).stats.bars := by
  have alike : (s.turns xs).seen = (s.turns ys).seen := by
    rw [seen_turns whole shown, seen_turns whole' shown', same]
  exact ⟨congrArg Seen.canvas alike, congrArg Seen.hold alike, congrArg Seen.samples alike,
    congrArg Seen.bars alike⟩

/-- A run of two samples that comes in at once, and one that a frame and an
empty poll cut in two. -/
theorem picture_of_stream_cut :
    ∃ (s : Session Engine.Recorder) (xs ys : List (Turn Engine.Recorder)),
      xs = [.poll (Engine.Recorder.script.queue [⟨0, 0.5⟩, ⟨0, 0.75⟩]) 0, .frame]
        ∧ ys = [.poll (Engine.Recorder.script.queue [⟨0, 0.5⟩]) 0, .frame,
          .poll .script 1, .poll (Engine.Recorder.script.queue [⟨0, 0.75⟩]) 2, .frame]
        ∧ stream xs = stream ys
        ∧ (s.turns xs).stats.dropped = s.stats.dropped
        ∧ (s.turns ys).stats.dropped = s.stats.dropped
        ∧ (s.turns xs).canvas = (s.turns ys).canvas ∧ (s.turns xs).hold = (s.turns ys).hold
        ∧ (s.turns xs).stats.samples = 2 ∧ (s.turns ys).stats.samples = 2
        ∧ (s.turns xs).stats.bars = (s.turns ys).stats.bars := by
  let s : Session Engine.Recorder := .ofStore .standard .script ⟨16000000, 23000000, 64⟩
  let xs : List (Turn Engine.Recorder) :=
    [.poll (Engine.Recorder.script.queue [⟨0, 0.5⟩, ⟨0, 0.75⟩]) 0, .frame]
  let ys : List (Turn Engine.Recorder) :=
    [.poll (Engine.Recorder.script.queue [⟨0, 0.5⟩]) 0, .frame,
      .poll .script 1, .poll (Engine.Recorder.script.queue [⟨0, 0.75⟩]) 2, .frame]
  have same : stream xs = stream ys := rfl
  have whole : (s.turns xs).stats.dropped = s.stats.dropped := by decide +kernel
  have whole' : (s.turns ys).stats.dropped = s.stats.dropped := by decide +kernel
  have counted : (s.turns xs).stats.samples = 2 := by decide +kernel
  obtain ⟨canvas, hold, samples, bars⟩ := picture_of_stream s same whole whole' rfl rfl
  exact ⟨s, xs, ys, rfl, rfl, same, whole, whole', canvas, hold, counted, samples ▸ counted, bars⟩

end Session

end Metrograph

/-
What is on the canvas is of the layout and the overlay of now.

# The invariant

`Current` says how the canvas came about: a background, and over it bars
and overlays, all of them painted on the layout that the store holds now,
and every overlay with the loop and the offset that the store holds now.
It does not say which bars, nor how often the overlay was repeated. It
also ties the layouts together that a session keeps: the one its bars are
placed on, the one the store remembers, and the one its settings ask for.

# Why it is kept

A frame adds strokes that are current when they are added
(`canvas_frame`). Only a request can make them stale, and it does so in
one of two ways, by another layout or by other lines; `handle_repaints`
says that it starts the picture over in both.
-/
import Metrograph.Engine.Recorder
import Metrograph.Proofs.Canvas.Overwrite
import Metrograph.Proofs.Session.Machine
import Metrograph.Proofs.Waveform.PeakHold

namespace Metrograph

open Config (Store Operation)
open Engine (AudioEngine Command)

-- ============================================================ pictures

/-- What a frame may add to a picture. -/
inductive Stroke where
  | bar (bar : Waveform.Bar Float) (byLevel : Bool)
  | overlay

namespace Stroke

/-- Adds a stroke. -/
def paint (l : Grid.Layout Float) (overlay : Rhythm.Loop Float × Float) (c : Canvas) :
    Stroke → Canvas
  | bar b byLevel => Painter.paintBar c l b byLevel
  | .overlay => Painter.paintOverlay c l overlay.1 overlay.2

/-- A stroke does not look at what it is painted on. -/
theorem paints_paint (l : Grid.Layout Float) (overlay : Rhythm.Loop Float × Float)
    (stroke : Stroke) : Canvas.Paints fun c => stroke.paint l overlay c := by
  cases stroke with
  | bar b byLevel => exact Painter.paints_paintBar l b byLevel
  | overlay => exact Painter.paints_paintOverlay l _ _

end Stroke

/-- The background of a store's layout under some strokes. -/
def Config.Store.picture (s : Store) (strokes : List Stroke) : Canvas :=
  strokes.foldl (Stroke.paint s.layout s.config.display.overlay) (Session.freshCanvas s.layout)

/-- A picture has the size of its layout. -/
theorem Config.Store.size_picture (s : Store) (strokes : List Stroke) :
    (s.picture strokes).width = s.layout.width ∧ (s.picture strokes).height = s.layout.height := by
  have painted := Canvas.paints_foldl
    (Stroke.paints_paint s.layout s.config.display.overlay) strokes
  have fresh := (Painter.paints_paintBackground s.layout).size
    (Canvas.blank s.layout.width s.layout.height)
  exact (painted.size (Session.freshCanvas s.layout)).trans fresh

namespace Session

variable {ε : Type}

-- =========================================================== the steps

/-- A request that touches no lines of the overlay asks for no change of them. -/
theorem aside_of_touchesOverlay {r : Request} (aside : r.touchesOverlay = false)
    {key : Config.Key} (about : r.operation.key? = some key) : key.shapesOverlay = false := by
  cases r with
  | set k text =>
      cases about
      cases key <;> first | rfl | cases aside
  | resize | resetBeat | loadFile => cases about

/-- After a request bars are placed on the store's layout, and the picture has
been started over unless neither the layout nor the overlay is another. -/
theorem handle_repaints (s : Session ε) (r : Request) (placed : s.hold.layout = s.store.layout) :
    (s.handle r).1.hold.layout = (s.handle r).1.store.layout
      ∧ ((s.handle r).1.canvas = freshCanvas (s.handle r).1.store.layout
        ∨ (s.handle r).1.canvas = s.canvas
          ∧ (s.handle r).1.store.layout = s.store.layout
          ∧ (s.handle r).1.store.config.display.overlay = s.store.config.display.overlay) := by
  have follows := Store.follows_perform s.store r.operation
  unfold handle
  rw [s.outcome_eq r]
  dsimp only
  split
  next => exact ⟨rfl, Or.inl rfl⟩
  -- a value of the display is stored under one of the overlay's keys or not
  next stored =>
    have layout := follows.layout_eq (by rw [stored]; nofun)
    cases touched : r.touchesOverlay with
    | true =>
        rw [if_pos rfl]
        refine ⟨placed.trans layout.symm, Or.inl ?_⟩
        show freshCanvas s.hold.layout = _
        rw [placed, ← layout]
        rfl
    | false =>
        have overlay := follows.overlay_eq fun _ _ about => aside_of_touchesOverlay touched about
        exact ⟨placed.trans layout.symm, Or.inr ⟨rfl, layout, overlay⟩⟩
  next pushed =>
    have layout := follows.layout_eq (by rw [pushed]; nofun)
    have overlay := follows.overlay_eq (by rw [pushed]; nofun)
    exact ⟨placed.trans layout.symm, Or.inr ⟨rfl, layout, overlay⟩⟩
  next fault refused =>
    have layout := follows.layout_eq (by rw [refused]; nofun)
    have overlay := follows.overlay_eq (by rw [refused]; nofun)
    exact ⟨placed.trans layout.symm, Or.inr ⟨rfl, layout, overlay⟩⟩

/-- The strokes of a frame: its bars, and over them the overlay. -/
def frameStrokes (s : Session ε) : List Stroke :=
  let display := s.store.config.display
  ((s.hold.withGain display.visualGain).ingest s.pending.samples).1.map
    (Stroke.bar · display.barColorMode) ++ [.overlay]

/-- A frame adds its strokes to the canvas. -/
theorem canvas_frame (s : Session ε) (placed : s.hold.layout = s.store.layout) :
    s.frame.hold.layout = s.store.layout
      ∧ s.frame.canvas
        = s.frameStrokes.foldl (Stroke.paint s.store.layout s.store.config.display.overlay)
          s.canvas := by
  obtain ⟨kept, -⟩ :=
    (s.hold.withGain s.store.config.display.visualGain).ingest_kept s.pending.samples
  unfold frameStrokes frame
  dsimp only [Waveform.Buffer.drain]
  cases ingested : (s.hold.withGain s.store.config.display.visualGain).ingest s.pending.samples with
  | mk bars hold =>
      rw [ingested] at kept
      have layout : hold.layout = s.store.layout := kept.trans placed
      refine ⟨layout, ?_⟩
      rw [List.foldl_append, List.foldl_map]
      dsimp only
      rw [layout]
      rfl

/-- A poll takes samples in, and draws nothing. -/
theorem canvas_poll [AudioEngine ε] (s : Session ε) (now : Nat) :
    (s.poll now).1.hold = s.hold ∧ (s.poll now).1.canvas = s.canvas := by
  unfold poll
  dsimp only
  split <;> exact ⟨rfl, rfl⟩

/-- Calls do not paint. -/
theorem canvas_deliver [AudioEngine ε] (s : Session ε) (c : Command) :
    (s.deliver c).1.hold = s.hold ∧ (s.deliver c).1.canvas = s.canvas := by
  rw [s.deliver_eq c]
  exact ⟨rfl, rfl⟩

-- ======================================================== the invariant

/-- All layouts are the one that the settings ask for, and the canvas is a
picture of it. -/
structure Current (s : Session ε) : Prop where
  placed : s.hold.layout = s.store.layout
  drawn : s.store.Drawn
  painted : ∃ strokes, s.canvas = s.store.picture strokes

/-- A session that was just made shows its store. -/
theorem current_ofStore {store : Store} (drawn : store.Drawn) (engine : ε) (timing : Timing) :
    Current (ofStore store engine timing) :=
  ⟨rfl, drawn, [], rfl⟩

/-- What keeps the store's layout and settings, and the downsampler and the
canvas, keeps the canvas current. -/
theorem Current.of_eq {s t : Session ε} (h : Current s) (layout : t.store.layout = s.store.layout)
    (config : t.store.config = s.store.config) (hold : t.hold = s.hold)
    (canvas : t.canvas = s.canvas) : Current t := by
  obtain ⟨placed, drawn, strokes, painted⟩ := h
  refine ⟨?_, ?_, strokes, ?_⟩
  · rw [hold, layout, placed]
  · unfold Store.Drawn
    rw [config, layout]
    exact drawn
  · unfold Store.picture
    rw [canvas, painted, layout, config]
    rfl

/-- Handling a request leaves the picture current: what changes the layout or
the overlay repaints. -/
theorem current_handle {s : Session ε} (h : Current s) (r : Request) : Current (s.handle r).1 := by
  obtain ⟨placed, drawn, strokes, painted⟩ := h
  have drawn' : (s.handle r).1.store.Drawn := by
    rw [s.store_handle r]
    exact (Store.follows_perform s.store r.operation).drawn drawn
  obtain ⟨placed', fresh | ⟨canvas, layout, overlay⟩⟩ := s.handle_repaints r placed
  · exact ⟨placed', drawn', [], fresh⟩
  · refine ⟨placed', drawn', strokes, ?_⟩
    unfold Store.picture
    rw [canvas, painted, layout, overlay]
    rfl

/-- A frame paints with the current layout and overlay. -/
theorem current_frame {s : Session ε} (h : Current s) : Current s.frame := by
  obtain ⟨placed, drawn, strokes, painted⟩ := h
  obtain ⟨placed', canvas⟩ := s.canvas_frame placed
  refine ⟨placed', drawn, strokes ++ s.frameStrokes, ?_⟩
  rw [canvas, painted]
  unfold Store.picture
  rw [List.foldl_append]
  rfl

theorem current_turn [AudioEngine ε] {s : Session ε} (h : Current s) (t : Turn ε) :
    Current (s.turn t) := by
  cases t with
  | poll engine now =>
      obtain ⟨hold, canvas⟩ := canvas_poll { s with engine := engine } now
      have store := store_poll { s with engine := engine } now
      exact h.of_eq (congrArg Store.layout store) (congrArg Store.config store) hold canvas
  | frame => exact current_frame h

end Session

namespace Machine

variable {ε : Type} [SharedEngine ε] {m m' : Machine ε}

/-- The store of an idle session is only asked to send. -/
theorem kept_of_sends (s : Store) {op : Operation} (sends : op = .push ∨ ∃ c, op = .send c) :
    (s.perform op).store.layout = s.layout ∧ (s.perform op).store.config = s.config := by
  rcases sends with rfl | ⟨c, rfl⟩ <;> exact ⟨rfl, rfl⟩

/-- Whatever happens next, the picture stays current. -/
theorem current_step (step : Step m m') (h : m.session.Current) : m'.session.Current := by
  cases step with
  | mount | send | cancel | flush | finish => exact h
  | engine | readLog => exact h.of_eq rfl rfl rfl rfl
  | push =>
      obtain ⟨layout, config⟩ := kept_of_sends m.session.store (Or.inl rfl)
      exact h.of_eq layout config rfl rfl
  | call _ c =>
      obtain ⟨layout, config⟩ := kept_of_sends m.session.store (Or.inr ⟨c, rfl⟩)
      exact h.of_eq layout config rfl rfl
  | @handle _ r => exact Session.current_handle h r
  | @deliver _ c rest =>
      obtain ⟨hold, canvas⟩ :=
        Session.canvas_deliver { m.session with store.outbox.queued := rest } c
      refine h.of_eq ?_ ?_ hold canvas
      · rw [store_deliver m c rest]
      · rw [store_deliver m c rest]
  | turn _ t => exact Session.current_turn h t

-- ================================================================ runs

variable {config : Config} {made : Store} {past : List Operation} {engine : ε} {timing : Timing}

/-- At any point of a run the session has one layout, the one that its
settings ask for; the canvas has its size and shows its background under
bars and overlays of now, and nothing else. A request that brings another
layout or other lines leaves the background alone behind. -/
theorem canvas_shows_current_grid (built : Store.ofConfig config .empty = .ok made)
    (run : Reaches (start made past engine timing) m) :
    m.session.hold.layout = m.session.store.layout
      ∧ m.session.store.config.display.geometry.layout = .ok m.session.store.layout
      ∧ m.session.canvas.width = m.session.store.layout.width
      ∧ m.session.canvas.height = m.session.store.layout.height
      ∧ (∃ strokes : List Stroke,
          m.session.canvas = strokes.foldl
            (Stroke.paint m.session.store.layout
              (m.session.store.config.display.visualSubdivisions.loop,
                m.session.store.config.display.subdivisionOffset))
            (Painter.paintBackground
              (Canvas.blank m.session.store.layout.width m.session.store.layout.height)
              m.session.store.layout))
      ∧ ∀ r : Request,
          (m.session.handle r).1.store.layout ≠ m.session.store.layout
            ∨ (m.session.handle r).1.store.config.display.overlay
              ≠ m.session.store.config.display.overlay →
          (m.session.handle r).1.canvas
            = Session.freshCanvas (m.session.handle r).1.store.layout := by
  have drawn : (made.performAll past).Drawn := Store.drawn_performAll (Store.drawn_ofConfig built).1
  have current : m.session.Current :=
    run.keeps current_step (Session.current_ofStore drawn engine timing)
  obtain ⟨placed, drawn, strokes, painted⟩ := current
  obtain ⟨width, height⟩ := m.session.store.size_picture strokes
  refine ⟨placed, drawn, ?_, ?_, ⟨strokes, painted⟩, ?_⟩
  · rw [painted, width]
  · rw [painted, height]
  · intro r another
    rcases (m.session.handle_repaints r placed).2 with fresh | ⟨-, layout, overlay⟩
    · exact fresh
    · rcases another with other | other
      · exact absurd layout other
      · exact absurd overlay other

/-- Lines that have been drawn, and a request that shifts them by half a beat. -/
theorem canvas_shows_current_grid_shifted :
    ∃ m : Machine Engine.Recorder,
      Store.ofConfig .standard .empty = .ok .standard
        ∧ Reaches (start .standard [] .script ⟨16000000, 23000000, 64⟩) m
        ∧ m.handled = [.set .subdivisionOffset "0.5"]
        ∧ m.session.store.config.display.subdivisionOffset = 0.5
        ∧ m.session.hold.layout = m.session.store.layout
        ∧ ∃ strokes : List Stroke,
          m.session.canvas = strokes.foldl
            (Stroke.paint m.session.store.layout
              (m.session.store.config.display.visualSubdivisions.loop,
                m.session.store.config.display.subdivisionOffset))
            (Painter.paintBackground
              (Canvas.blank m.session.store.layout.width m.session.store.layout.height)
              m.session.store.layout) := by
  let m₀ : Machine Engine.Recorder := start .standard [] .script ⟨16000000, 23000000, 64⟩
  have asked := (((Reaches.refl (m := m₀)).tail (.mount rfl)).tail (.turn rfl .frame trivial)).tail
    (.send rfl (.set .subdivisionOffset "0.5"))
  have shifted := (asked.tail (.handle (Or.inl rfl) rfl)).tail (.turn rfl .frame trivial)
  obtain ⟨placed, -, -, -, painted, -⟩ :=
    canvas_shows_current_grid Store.ofConfig_standard shifted
  refine ⟨_, Store.ofConfig_standard, shifted, rfl, ?_, placed, painted⟩
  show (Store.standard.setText .subdivisionOffset "0.5").store.config.display.subdivisionOffset
    = 0.5
  rfl

end Machine

end Metrograph

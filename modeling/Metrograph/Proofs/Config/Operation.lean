/-
Everything that can be done to a store, and everything it can come to.

# One account of all operations

`Follows` lists the outcomes an operation can have, each with the
configuration it leaves behind and the condition under which it comes
about: a refusal, a text that only stays on display, a value of the
display, a value of the engine, a grid, a call. It is proved once
(`follows_perform`), by going through the code; whatever is kept by all
operations is read off the list afterwards, without a look at the code.

# What goes out

`puts` says which calls an operation has to put into the outbox: the call
that was handed over, or after an accepted change of the engine's side the
whole configuration as it is then. That this is what the outbox gains, at
its end, is `Follows.outbox`.
-/
import Metrograph.Config.Store

namespace Metrograph.Config

open Engine (Command Outbox)

/-- What can be done to a store. -/
inductive Operation where
  /-- A value of the key's own kind is written. -/
  | set (key : Key) (x : key.kind.Carrier)
  | setValue (key : Key) (v : Value)
  | setText (key : Key) (text : String)
  | resize (width height : UInt32)
  | push
  | send (c : Command)

/-- The key an operation is about. -/
def Operation.key? : Operation → Option Key
  | .set key _ | .setValue key _ | .setText key _ => some key
  | .resize _ _ | .push | .send _ => none

/-- The call an operation hands over. -/
def Operation.handed? : Operation → Option Command
  | .send c => some c
  | _ => none

/-- An operation on a key hands no call on. -/
theorem handed?_of_key? {op : Operation} {key : Key} (about : op.key? = some key) :
    op.handed? = none := by
  cases op <;> first | rfl | cases about

namespace Store

/-- Carries out an operation. -/
def perform (s : Store) : Operation → Outcome
  | .set key x => s.set key x
  | .setValue key v => s.setValue key v
  | .setText key text => s.setText key text
  | .resize width height => s.resize width height
  | .push => ⟨.ok .pushed, s.push, s.sendNotices s.pushCommand⟩
  | .send c => ⟨.ok .pushed, s.send c, s.sendNotices c⟩

/-- Carries out operations in order, whatever they come to. -/
def performAll (s : Store) : List Operation → Store
  | [] => s
  | op :: rest => performAll (s.perform op).store rest

-- =========================================================== outcomes

/-- The outcomes an operation on a store can have. -/
inductive Follows (s : Store) : Operation → Outcome → Prop
  | refused {op : Operation} (asked : op.handed? = none) (fault : Fault) :
      Follows s op (s.refuse fault)
  | audioTyped (text : String) (fault : Fault) :
      Follows s (.setText .audioSubdivisions text)
        (refuse { s with config.backend.audioSubdivisions.text := text } fault)
  | visualTyped (text : String) (fault : Fault) :
      Follows s (.setText .visualSubdivisions text)
        (refuse { s with config.display.visualSubdivisions.text := text } fault)
  | stored {op : Operation} {key : Key} (x : key.kind.Carrier) (about : op.key? = some key)
      (side : key.side = .display) (flat : key.affectsGeometry = false) :
      Follows s op ⟨.ok .stored, { s with config := s.config.put key x }, []⟩
  | pushed {op : Operation} {key : Key} (x : key.kind.Carrier) (about : op.key? = some key)
      (side : key.side = .backend) (notices : List Notice) :
      Follows s op ⟨.ok .pushed, push { s with config := s.config.put key x }, notices⟩
  | laidOut {op : Operation} {key : Key} (x : key.kind.Carrier) (about : op.key? = some key)
      (grid : key.affectsGeometry = true) {layout : Grid.Layout Float}
      (drawable : (s.config.put key x).display.geometry.layout = .ok layout)
      (notices : List Notice) :
      Follows s op
        ⟨.ok .geometry, { s with config := s.config.put key x, layout := layout }, notices⟩
  | resized {width height : UInt32} {next : Config}
      (sized : next = { s.config with
        display.canvasWidth := width
        display.canvasHeight := height })
      {layout : Grid.Layout Float} (drawable : next.display.geometry.layout = .ok layout)
      (notices : List Notice) :
      Follows s (.resize width height)
        ⟨.ok .geometry, { s with config := next, layout := layout }, notices⟩
  | repeated (notices : List Notice) : Follows s .push ⟨.ok .pushed, s.push, notices⟩
  | sent (c : Command) (notices : List Notice) :
      Follows s (.send c) ⟨.ok .pushed, s.send c, notices⟩

variable {s : Store} {op : Operation}

/-- Another grid is taken over if it can be drawn. -/
theorem replaceGeometry_cases (s : Store) (next : Config) :
    (∃ fault, s.replaceGeometry next = s.refuse fault)
      ∨ ∃ layout notices, next.display.geometry.layout = .ok layout
        ∧ s.replaceGeometry next
          = ⟨.ok .geometry, { s with config := next, layout := layout }, notices⟩ := by
  unfold replaceGeometry
  split
  next layout drawable => exact Or.inr ⟨layout, _, drawable, rfl⟩
  next fault _ => exact Or.inl ⟨_, rfl⟩

/-- A value that was put under a key off the grid is followed up by the key's
side. -/
theorem follows_settle {key : Key} (x : key.kind.Carrier) (about : op.key? = some key)
    (flat : key.affectsGeometry = false) :
    Follows s op (settle { s with config := s.config.put key x } key) := by
  unfold settle
  cases side : key.side with
  | backend => exact .pushed x about side _
  | display => exact .stored x about side flat

/-- A value of the key's own kind is refused, laid out, or settled. -/
theorem follows_set {key : Key} (x : key.kind.Carrier) (about : op.key? = some key) :
    Follows s op (s.set key x) := by
  unfold set
  cases unplaced key.kind x with
  | some number => exact .refused (handed?_of_key? about) _
  | none =>
      dsimp only
      cases grid : key.affectsGeometry with
      | false => exact follows_settle x about grid
      | true =>
          rw [if_pos rfl]
          rcases replaceGeometry_cases s (s.config.put key x) with
            ⟨fault, h⟩ | ⟨l, said, drawable, h⟩
          · rw [h]
            exact .refused (handed?_of_key? about) fault
          · rw [h]
            exact .laidOut x about grid drawable said

/-- Setting a value has one of these outcomes, whatever its kind. -/
theorem follows_setValue {key : Key} (v : Value) (about : op.key? = some key) :
    Follows s op (s.setValue key v) := by
  unfold setValue
  split
  next h => exact follows_set _ about
  next => exact .refused (handed?_of_key? about) _

/-- A text is read into a value, except for a rhythm: its field takes the
text in any case, and its loop only if the text compiles. -/
theorem follows_setText (key : Key) (text : String) :
    Follows s (.setText key text) (s.setText key text) := by
  unfold setText
  split
  · unfold PatternField.edit
    cases (Rhythm.compile text : Except _ (Rhythm.Loop Float)) with
    | ok loop => exact @follows_settle s _ .audioSubdivisions ⟨text, loop⟩ rfl rfl
    | error fault => exact .audioTyped text _
  · unfold PatternField.edit
    cases (Rhythm.compile text : Except _ (Rhythm.Loop Float)) with
    | ok loop => exact @follows_settle s _ .visualSubdivisions ⟨text, loop⟩ rfl rfl
    | error fault => exact .visualTyped text _
  · cases Value.read key.kind text with
    | ok v => exact follows_setValue v rfl
    | error fault => exact .refused rfl _

/-- Every operation comes to one of the outcomes. -/
theorem follows_perform (s : Store) (op : Operation) : Follows s op (s.perform op) := by
  cases op with
  | set key x => exact follows_set x rfl
  | setValue key v => exact follows_setValue v rfl
  | setText key text => exact follows_setText key text
  | resize width height =>
      show Follows s _ (s.resize width height)
      unfold resize
      rcases replaceGeometry_cases s _ with ⟨fault, h⟩ | ⟨l, said, drawable, h⟩
      · rw [h]
        exact .refused rfl fault
      · rw [h]
        exact .resized rfl drawable said
  | push => exact .repeated _
  | send c => exact .sent c _

end Store

-- ============================================================= frames

/-- Whether a key has a part in where the overlay's lines are. -/
def Key.shapesOverlay : Key → Bool
  | .visualSubdivisions | .subdivisionOffset => true
  | _ => false

/-- What decides where the overlay's lines are: the loop and its offset. -/
def Display.overlay (d : Display) : Rhythm.Loop Float × Float :=
  (d.visualSubdivisions.loop, d.subdivisionOffset)

/-- The grid is the display's. -/
theorem Key.side_of_affectsGeometry (key : Key) (grid : key.affectsGeometry = true) :
    key.side = .display := by
  cases key <;> first | rfl | cases grid

/-- A key of the display does not show at the engine. -/
theorem backend_put {key : Key} (c : Config) (x : key.kind.Carrier) (side : key.side = .display) :
    (c.put key x).backend = c.backend := by
  cases key <;> first | rfl | cases side

/-- A key of the engine does not show on the display. -/
theorem display_put {key : Key} (c : Config) (x : key.kind.Carrier) (side : key.side = .backend) :
    (c.put key x).display = c.display := by
  cases key <;> first | rfl | cases side

/-- Only keys of the geometry change it. -/
theorem geometry_put {key : Key} (c : Config) (x : key.kind.Carrier)
    (flat : key.affectsGeometry = false) :
    (c.put key x).display.geometry = c.display.geometry := by
  cases key <;> first | rfl | cases flat

/-- Only keys of the overlay change it. -/
theorem overlay_put {key : Key} (c : Config) (x : key.kind.Carrier)
    (aside : key.shapesOverlay = false) :
    (c.put key x).display.overlay = c.display.overlay := by
  cases key <;> first | rfl | cases aside

namespace Store

/-- The engine's settings as they would be sent now. -/
def wire (s : Store) : Wire.Config Float := Wire.Config.ofBackend s.config.backend

/-- The layout at hand is the one that the configuration asks for. -/
def Drawn (s : Store) : Prop := s.config.display.geometry.layout = .ok s.layout

/-- A store that was made is drawn as its configuration says. -/
theorem drawn_ofConfig {config : Config} {outbox : Outbox} {s : Store}
    (made : ofConfig config outbox = .ok s) :
    s.Drawn ∧ s.outbox = outbox ∧ s.config = config := by
  unfold ofConfig at made
  split at made
  next layout drawable =>
    injection made with made
    subst made
    exact ⟨drawable, rfl, rfl⟩
  next => cases made

/-- The standard configuration with nothing on its way to the engine. -/
def standard : Store := ⟨.standard, ⟨Display.standard.geometry, rfl⟩, .empty⟩

/-- The standard configuration can be drawn. -/
theorem ofConfig_standard : ofConfig .standard .empty = .ok standard := rfl

variable {s : Store} {op : Operation} {o : Outcome}

/-- An operation leaves the layout that of the geometry. -/
theorem Follows.drawn (h : Follows s op o) (drawn : s.Drawn) : o.store.Drawn := by
  cases h with
  | refused | audioTyped | visualTyped | repeated | sent => exact drawn
  | stored x _ _ flat =>
      show (s.config.put _ x).display.geometry.layout = _
      rw [geometry_put _ x flat]
      exact drawn
  | pushed x _ side =>
      show (s.config.put _ x).display.geometry.layout = _
      rw [display_put _ x side]
      exact drawn
  | laidOut _ _ _ drawable | resized _ drawable => exact drawable

/-- Only an operation that says so makes another layout. -/
theorem Follows.layout_eq (h : Follows s op o) (flat : o.answer ≠ .ok .geometry) :
    o.store.layout = s.layout := by
  cases h with
  | refused | audioTyped | visualTyped | stored | pushed | repeated | sent => rfl
  | laidOut | resized => exact absurd rfl flat

/-- Only a value that is stored under one of the overlay's own keys moves the
overlay's lines. -/
theorem Follows.overlay_eq (h : Follows s op o)
    (aside : o.answer = .ok .stored → ∀ key, op.key? = some key → key.shapesOverlay = false) :
    o.store.config.display.overlay = s.config.display.overlay := by
  cases h with
  | refused | audioTyped | visualTyped | repeated | sent => rfl
  | stored x about => exact overlay_put _ x (aside rfl _ about)
  | pushed x _ side =>
      show (s.config.put _ x).display.overlay = _
      rw [display_put _ x side]
  | @laidOut _ key x _ grid =>
      -- the overlay's own keys are not of the grid
      refine overlay_put _ x ?_
      cases key <;> first | rfl | cases grid
  | resized sized => rw [sized]; rfl

-- ============================================================ the outbox

end Store

/-- The calls an operation with an outcome puts into the outbox. -/
def Operation.puts (op : Operation) (o : Outcome) : List Command :=
  match op.handed?, o.answer with
  | some c, _ => [c]
  | none, .ok .pushed => [.setConfig o.store.wire]
  | none, _ => []

namespace Store

variable {s : Store} {op : Operation} {o : Outcome}

/-- An outcome without a push of an operation that hands nothing over puts
nothing into the outbox. -/
theorem puts_eq_nil (own : op.handed? = none) (quiet : o.answer ≠ .ok .pushed) :
    op.puts o = [] := by
  unfold Operation.puts
  rw [own]
  split
  next h => cases h
  next h => exact absurd h quiet
  next => rfl

/-- An outcome with a push of an operation that hands nothing over puts the
settings of the moment into the outbox. -/
theorem puts_eq_wire (own : op.handed? = none) (pushed : o.answer = .ok .pushed) :
    op.puts o = [.setConfig o.store.wire] := by
  unfold Operation.puts
  rw [own, pushed]

/-- An open outbox takes a call at its end. -/
theorem outbox_send {c : Command} (isOpen : s.outbox.isOpen = true) :
    (s.send c).outbox = ⟨true, s.outbox.queued ++ [c]⟩ := by
  unfold send Outbox.send
  rw [if_pos isOpen, isOpen]

/-- An open outbox stays open and gains what the operation puts there. -/
theorem Follows.outbox (h : Follows s op o) (isOpen : s.outbox.isOpen = true) :
    o.store.outbox = ⟨true, s.outbox.queued ++ op.puts o⟩ := by
  have same : s.outbox = ⟨true, s.outbox.queued ++ []⟩ := by rw [List.append_nil, ← isOpen]
  cases h with
  | refused own =>
      rw [puts_eq_nil own (by intro h; cases h)]
      exact same
  | audioTyped | visualTyped | resized => exact same
  | stored _ about | laidOut _ about =>
      rw [puts_eq_nil (handed?_of_key? about) (by intro h; cases h)]
      exact same
  | pushed _ about =>
      rw [puts_eq_wire (handed?_of_key? about) rfl]
      exact outbox_send isOpen
  | repeated => exact outbox_send isOpen
  | sent c => exact outbox_send isOpen

/-- The settings as they would be sent change only in an operation that sends
them. -/
theorem Follows.wire (h : Follows s op o) :
    o.store.wire = s.wire ∨ op.puts o = [.setConfig o.store.wire] := by
  cases h with
  | refused | audioTyped | visualTyped | repeated | sent => exact Or.inl rfl
  | stored x _ side =>
      refine Or.inl ?_
      show Wire.Config.ofBackend (s.config.put _ x).backend = _
      rw [backend_put _ x side]
      rfl
  | pushed _ about => exact Or.inr (puts_eq_wire (handed?_of_key? about) rfl)
  | @laidOut _ key x _ grid =>
      refine Or.inl ?_
      show Wire.Config.ofBackend (s.config.put _ x).backend = _
      rw [backend_put _ x (key.side_of_affectsGeometry grid)]
      rfl
  | resized sized => exact Or.inl (by rw [sized]; rfl)

end Store

-- =========================================================== the mirror

/-- The settings that a call brings. -/
def config? : Command → Option (Wire.Config Float)
  | .setConfig c => some c
  | _ => none

/-- The settings that some calls bring, in their order. -/
def configs (calls : List Command) : List (Wire.Config Float) := calls.filterMap config?

/-- Configurations are announced in order. -/
theorem configs_append (a b : List Command) : configs (a ++ b) = configs a ++ configs b :=
  List.filterMap_append

/-- An operation that hands over no settings of the caller's own making. -/
def Operation.Honest (op : Operation) : Prop := ∀ c, op.handed? = some c → config? c = none

namespace Store

/-- If calls bring any settings at all, the last ones are the store's. -/
def Mirrored (s : Store) (calls : List Command) : Prop :=
  ∀ c, (configs calls).getLast? = some c → c = s.wire

theorem mirrored_nil (s : Store) : s.Mirrored [] := by
  intro c hc
  cases hc

variable {s : Store} {op : Operation} {o : Outcome} {calls : List Command}

/-- Where calls bring settings at all and the mirror is exact, the last they
bring are the store's. -/
theorem Mirrored.getLast?_configs (mirrored : s.Mirrored calls)
    {c : Wire.Config Float} (sent : .setConfig c ∈ calls) :
    (configs calls).getLast? = some s.wire := by
  have brought : c ∈ configs calls := List.mem_filterMap.mpr ⟨_, sent, rfl⟩
  cases last : (configs calls).getLast? with
  | none => exact absurd (List.getLast?_eq_none_iff.mp last) (List.ne_nil_of_mem brought)
  | some d => rw [mirrored d last]

/-- Settings that change are sent, and what is sent are the settings: the
mirror is kept by every operation. -/
theorem Follows.mirrored (h : Follows s op o) (honest : op.Honest) (hm : s.Mirrored calls) :
    o.store.Mirrored (calls ++ op.puts o) := by
  intro c hc
  rw [configs_append, List.getLast?_append] at hc
  by_cases sent : op.puts o = [.setConfig o.store.wire]
  · rw [sent] at hc
    exact (Option.some.inj hc).symm
  · have kept : o.store.wire = s.wire := h.wire.resolve_right sent
    have silent : configs (op.puts o) = [] := by
      cases handed : op.handed? with
      | some d =>
          have hd : config? d = none := honest d handed
          have hp : op.puts o = [d] := by
            unfold Operation.puts
            rw [handed]
          rw [hp]
          show List.filterMap config? [d] = []
          rw [List.filterMap_cons_none hd]
          rfl
      | none =>
          rw [puts_eq_nil handed fun pushed => sent (puts_eq_wire handed pushed)]
          rfl
    rw [silent] at hc
    rw [kept]
    exact hm c hc

-- ================================================================ runs

/-- What operations in order put into the outbox. -/
def putsAll (s : Store) : List Operation → List Command
  | [] => []
  | op :: rest => op.puts (s.perform op) ++ putsAll (s.perform op).store rest

variable {ops : List Operation}

/-- However many operations there were, the layout is that of the geometry. -/
theorem drawn_performAll (drawn : s.Drawn) : (s.performAll ops).Drawn := by
  induction ops generalizing s with
  | nil => exact drawn
  | cons op rest ih => exact ih ((follows_perform s op).drawn drawn)

/-- Operations put their calls behind those that wait. -/
theorem outbox_performAll (isOpen : s.outbox.isOpen = true) :
    (s.performAll ops).outbox = ⟨true, s.outbox.queued ++ s.putsAll ops⟩ := by
  induction ops generalizing s with
  | nil =>
      show s.outbox = ⟨true, s.outbox.queued ++ []⟩
      rw [List.append_nil, ← isOpen]
  | cons op rest ih =>
      have step := (follows_perform s op).outbox isOpen
      show ((s.perform op).store.performAll rest).outbox = _
      rw [ih (by rw [step]), step]
      show _ = (⟨true, s.outbox.queued ++ (op.puts _ ++ _)⟩ : Outbox)
      rw [← List.append_assoc]

/-- However many operations there were, what was announced last is current. -/
theorem mirrored_performAll (honest : ∀ op ∈ ops, op.Honest) (hm : s.Mirrored calls) :
    (s.performAll ops).Mirrored (calls ++ s.putsAll ops) := by
  induction ops generalizing s calls with
  | nil =>
      rw [putsAll, List.append_nil]
      exact hm
  | cons op rest ih =>
      rw [putsAll, ← List.append_assoc]
      exact ih (fun o ho => honest o (List.mem_cons_of_mem _ ho))
        ((follows_perform s op).mirrored (honest op List.mem_cons_self) hm)

end Store

end Metrograph.Config

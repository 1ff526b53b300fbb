/-
What the engine is told, and that it suffices.

# Announcements

An operation announces the settings if it is a push, or a change of the
engine's side that is accepted (`Operation.announces`). This is said by
the key and by whether the change was accepted; the code goes by what the
change came to, and `announces_iff` says that the two agree for every
operation. What goes out is then known without a look at the code: a call
that was handed over, an announcement of the settings as they are by then,
or nothing.

# The last announcement

Settings can be edited without an announcement, since a rhythm that does
not compile stays on display. What is sent of a rhythm is its loop alone,
and so the settings as they would be sent change only where they are
announced (`told_perform`). From there the last announcement of a history
is carried along, whatever else is done.
-/
import Metrograph.Proofs.Config.Operation

namespace Metrograph.Config

open Engine (Command Outbox)

-- ======================================================= announcements

/-- Nothing was refused. -/
def Outcome.accepted (o : Outcome) : Bool := o.answer.isOk

namespace Operation

/-- Whether an operation with an outcome announces the settings: a push does,
and so does a change of the engine's side that is accepted. -/
def announces (op : Operation) (o : Outcome) : Bool :=
  match op with
  | .push => true
  | .set key _ | .setValue key _ | .setText key _ => o.accepted && key.side == .backend
  | .resize _ _ | .send _ => false

/-- The settings that an operation with an outcome announces: those right
after it. -/
def told? (op : Operation) (o : Outcome) : Option (Wire.Config Float) :=
  if op.announces o then some (Wire.Config.ofBackend o.store.config.backend) else none

/-- What an operation with an outcome has to send: the call it hands over, or
the settings it announces. -/
def sends (op : Operation) (o : Outcome) : List Command :=
  match op with
  | .send c => [c]
  | op => (op.told? o).toList.map .setConfig

end Operation

namespace Store

/-- Operations in order, each with what it comes to. -/
def history (s : Store) : List Operation → List (Operation × Outcome)
  | [] => []
  | op :: rest => (op, s.perform op) :: history (s.perform op).store rest

/-- What operations in order have to send. -/
def sendsAll (s : Store) (ops : List Operation) : List Command :=
  (s.history ops).flatMap fun e => e.1.sends e.2

/-- The settings that operations in order announce. -/
def toldAll (s : Store) (ops : List Operation) : List (Wire.Config Float) :=
  (s.history ops).filterMap fun e => e.1.told? e.2

variable {s : Store} {op : Operation} {o : Outcome} {ops : List Operation}

-- ================================================================ steps

/-- A change of a key comes to a push where it is accepted and the key is of
the engine's side. -/
theorem Follows.pushed_iff (h : Follows s op o) {key : Key} (about : op.key? = some key) :
    o.answer = .ok .pushed ↔ o.accepted = true ∧ key.side = .backend := by
  cases h with
  | refused | audioTyped | visualTyped => exact ⟨nofun, fun ⟨accepted, _⟩ => nomatch accepted⟩
  | stored _ named side =>
      cases about.symm.trans named
      exact ⟨nofun, fun ⟨_, backend⟩ => nomatch side.symm.trans backend⟩
  | pushed _ named side =>
      cases about.symm.trans named
      exact ⟨fun _ => ⟨rfl, side⟩, fun _ => rfl⟩
  | laidOut _ named grid =>
      cases about.symm.trans named
      have side := key.side_of_affectsGeometry grid
      exact ⟨nofun, fun ⟨_, backend⟩ => nomatch side.symm.trans backend⟩
  | resized | repeated | sent => cases about

/-- A resize sends nothing. -/
theorem resize_ne_pushed (width height : UInt32) :
    (s.perform (.resize width height)).answer ≠ .ok .pushed := by
  intro pushed
  have follows := follows_perform s (.resize width height)
  generalize s.perform (.resize width height) = o at follows pushed
  cases follows with
  | refused => cases pushed
  | stored _ about | pushed _ about | laidOut _ about => cases about
  | resized => cases pushed

/-- An operation announces the settings where it hands over no call and comes
to a push. -/
theorem announces_iff (s : Store) (op : Operation) :
    op.announces (s.perform op) = true
      ↔ op.handed? = none ∧ (s.perform op).answer = .ok .pushed := by
  have follows := follows_perform s op
  cases op with
  | set key x | setValue key v | setText key text =>
      rw [follows.pushed_iff rfl]
      unfold Operation.announces
      rw [Bool.and_eq_true, beq_iff_eq]
      exact ⟨fun h => ⟨rfl, h⟩, fun ⟨_, h⟩ => h⟩
  | resize width height => exact ⟨nofun, fun ⟨_, pushed⟩ => (resize_ne_pushed _ _ pushed).elim⟩
  | push => exact ⟨fun _ => ⟨rfl, rfl⟩, fun _ => rfl⟩
  | send c => exact ⟨nofun, nofun⟩

/-- What an operation puts into the outbox is what it has to send. -/
theorem sends_perform (s : Store) (op : Operation) :
    op.sends (s.perform op) = op.puts (s.perform op) := by
  cases handed : op.handed? with
  | some c =>
      cases op <;> cases handed
      rfl
  | none =>
      have own : op.sends (s.perform op) = (op.told? (s.perform op)).toList.map .setConfig := by
        cases op with
        | send c => cases handed
        | set | setValue | setText | resize | push => rfl
      rw [own]
      unfold Operation.told?
      by_cases announced : op.announces (s.perform op) = true
      · rw [if_pos announced, puts_eq_wire handed ((announces_iff s op).mp announced).2]
        rfl
      · rw [if_neg announced, puts_eq_nil handed fun pushed =>
          announced ((announces_iff s op).mpr ⟨handed, pushed⟩)]
        rfl

/-- The settings as they would be sent change only where they are announced. -/
theorem told_perform (s : Store) (op : Operation) :
    (s.perform op).store.wire = s.wire
      ∨ op.told? (s.perform op) = some (s.perform op).store.wire := by
  cases handed : op.handed? with
  | some c =>
      cases op <;> cases handed
      exact Or.inl rfl
  | none =>
      by_cases announced : op.announces (s.perform op) = true
      · exact Or.inr (if_pos announced)
      · refine Or.inl ((follows_perform s op).wire.resolve_right fun put => ?_)
        rw [puts_eq_nil handed fun pushed =>
          announced ((announces_iff s op).mpr ⟨handed, pushed⟩)] at put
        cases put

-- ============================================================ histories

/-- Operations may be performed in two goes. -/
theorem performAll_append (s : Store) (before after : List Operation) :
    s.performAll (before ++ after) = (s.performAll before).performAll after := by
  induction before generalizing s with
  | nil => rfl
  | cons op rest ih => exact ih (s.perform op).store

/-- What operations send is what they put into the outbox. -/
theorem sendsAll_eq (s : Store) (ops : List Operation) : s.sendsAll ops = s.putsAll ops := by
  induction ops generalizing s with
  | nil => rfl
  | cons op rest ih =>
      show op.sends (s.perform op) ++ (s.perform op).store.sendsAll rest = _
      rw [sends_perform, ih]
      rfl

/-- The last settings that a history announces are the current ones; a history
that announces none leaves them as they were. -/
theorem getLast?_toldAll (s : Store) (ops : List Operation) :
    (s.toldAll ops).getLast?.getD s.wire = (s.performAll ops).wire := by
  induction ops generalizing s with
  | nil => rfl
  | cons op rest ih =>
      have later := ih (s.perform op).store
      unfold toldAll at later ⊢
      unfold history
      cases told : op.told? (s.perform op) with
      | none =>
          rw [List.filterMap_cons_none (by exact told)]
          have kept := (told_perform s op).resolve_right (by rw [told]; nofun)
          rw [← kept]
          exact later
      | some c =>
          rw [List.filterMap_cons_some (by exact told), List.getLast?_cons]
          have current : c = (s.perform op).store.wire := by
            unfold Operation.told? at told
            split at told
            · exact (Option.some.inj told).symm
            · cases told
          rw [current]
          exact later

/-- Right after an announcement the outbox ends in the settings. -/
theorem queued_of_announces (isOpen : s.outbox.isOpen = true)
    (announced : op.announces (s.perform op) = true) :
    (s.perform op).store.outbox
      = ⟨true, s.outbox.queued ++ [.setConfig (s.perform op).store.wire]⟩ := by
  obtain ⟨own, pushed⟩ := (announces_iff s op).mp announced
  rw [(follows_perform s op).outbox isOpen, puts_eq_wire own pushed]

/-- Where no settings of the caller's own making follow an announcement, the
last settings in the outbox are those of now. -/
theorem configs_after_announcement (isOpen : s.outbox.isOpen = true)
    (announced : op.announces (s.perform op) = true) {after : List Operation}
    (honest : ∀ later ∈ after, later.Honest) :
    (configs ((s.perform op).store.performAll after).outbox.queued).getLast?
      = some ((s.perform op).store.performAll after).wire := by
  have queued := queued_of_announces isOpen announced
  generalize (s.perform op).store = t at queued ⊢
  have mirrored : t.Mirrored t.outbox.queued := by
    intro c last
    rw [queued, configs_append, List.getLast?_append] at last
    exact (Option.some.inj last).symm
  have kept := mirrored_performAll honest mirrored
  have sent := @outbox_performAll t after (by rw [queued])
  rw [sent]
  refine kept.getLast?_configs (c := t.wire) (List.mem_append_left _ ?_)
  rw [queued]
  exact List.mem_append_right _ List.mem_cons_self

/-- While the outbox is open, what it gains are the calls that were handed over
and the settings, once for every push and for every change of the engine's
side that was accepted, as they were right after it, all in their order.
The last settings announced are those of now, whatever was done since; and
unless settings of the caller's own making were handed over since, they are
also the last ones in the outbox. -/
theorem outbox_mirrors_settings {s : Store} (isOpen : s.outbox.isOpen = true)
    (ops : List Operation) :
    (s.performAll ops).outbox = ⟨true, s.outbox.queued ++ s.sendsAll ops⟩
      ∧ ((∃ e ∈ s.history ops, e.1.announces e.2 = true) →
        (s.toldAll ops).getLast? = some (Wire.Config.ofBackend (s.performAll ops).config.backend))
      ∧ ∀ before op after, ops = before ++ op :: after →
        op.announces ((s.performAll before).perform op) = true →
        (∀ later ∈ after, later.Honest) →
        (configs (s.performAll ops).outbox.queued).getLast?
          = some (Wire.Config.ofBackend (s.performAll ops).config.backend) := by
  refine ⟨?_, ?_, ?_⟩
  · rw [sendsAll_eq]
    exact outbox_performAll isOpen
  · rintro ⟨e, member, announced⟩
    have told : Wire.Config.ofBackend e.2.store.config.backend ∈ s.toldAll ops :=
      List.mem_filterMap.mpr ⟨e, member, if_pos announced⟩
    have last := getLast?_toldAll s ops
    cases h : (s.toldAll ops).getLast? with
    | none => exact absurd (List.getLast?_eq_none_iff.mp h) (List.ne_nil_of_mem told)
    | some c =>
        rw [h] at last
        exact congrArg some last
  · rintro before op after rfl announced honest
    have stillOpen : (s.performAll before).outbox.isOpen = true := by
      rw [outbox_performAll isOpen]
    rw [performAll_append]
    exact configs_after_announcement stillOpen announced honest

/-- A tempo, a beat that starts over, another canvas, and a click rhythm that is
left half typed. -/
def typing : List Operation :=
  [.setText .bpm "120", .send .resetBeat, .resize 640 480, .setText .audioSubdivisions "3:"]

/-- The one announcement is followed by a change of what is on display, and is
still of now. -/
theorem outbox_mirrors_settings_typing :
    standard.outbox.isOpen = true
      ∧ (∃ e ∈ standard.history typing, e.1.announces e.2 = true)
      ∧ (standard.performAll typing).config.backend.audioSubdivisions.text = "3:"
      ∧ (standard.toldAll typing).length = 1
      ∧ (standard.toldAll typing).getLast?
        = some (Wire.Config.ofBackend (standard.performAll typing).config.backend)
      ∧ (configs (standard.performAll typing).outbox.queued).getLast?
        = some (Wire.Config.ofBackend (standard.performAll typing).config.backend) := by
  obtain ⟨-, told, sent⟩ := outbox_mirrors_settings (s := standard) rfl typing
  have announced : (Operation.setText .bpm "120").announces
      (standard.perform (.setText .bpm "120")) = true := by decide +kernel
  have honest : ∀ later ∈ typing.tail, later.Honest := by
    unfold typing
    intro later member c handed
    simp only [List.tail_cons, List.mem_cons, List.not_mem_nil, or_false] at member
    rcases member with rfl | rfl | rfl <;> cases handed
    rfl
  have first : ∃ e ∈ standard.history typing, e.1.announces e.2 = true :=
    ⟨_, List.mem_cons_self, announced⟩
  exact ⟨rfl, first, by decide +kernel, by decide +kernel, told first,
    sent [] _ _ rfl announced honest⟩

end Store

end Metrograph.Config

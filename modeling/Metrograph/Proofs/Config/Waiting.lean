/-
Operations and the calls that wait.

What an operation does to a store does not depend on the calls that wait
in its outbox: it may add a call behind them, and that is all. So calls
can be taken out of the queue at any time. Put back in front of those that
still wait (`Store.behind`), they leave the store that the same operations
would have led to if nobody had taken any (`perform_behind`).
-/
import Metrograph.Proofs.Config.Operation

namespace Metrograph.Config

open Engine (Command)

namespace Store

/-- The store as it would be if some calls still waited in front of its queue. -/
def behind (s : Store) (earlier : List Command) : Store :=
  { s with outbox.queued := earlier ++ s.outbox.queued }

end Store

/-- An outcome with some calls in front of the queue it leaves. -/
def Outcome.behind (o : Outcome) (earlier : List Command) : Outcome :=
  { o with store := o.store.behind earlier }

namespace Store

variable (s : Store) (earlier : List Command)

theorem config_behind : (s.behind earlier).config = s.config := rfl

/-- A call that is sent joins the queue at the other end. -/
theorem send_behind (c : Command) : (s.behind earlier).send c = (s.send c).behind earlier := by
  obtain ⟨config, layout, isOpen, queued⟩ := s
  cases isOpen with
  | true =>
      show (⟨config, layout, ⟨true, earlier ++ queued ++ [c]⟩⟩ : Store) = _
      rw [List.append_assoc]
      rfl
  | false => rfl

/-- Settling a change puts its calls behind those that wait. -/
theorem settle_behind (key : Key) :
    (s.behind earlier).settle key = (s.settle key).behind earlier := by
  unfold settle
  cases key.side with
  | backend =>
      unfold push
      rw [send_behind]
      rfl
  | display => rfl

/-- Replacing the geometry does not look at what waits. -/
theorem replaceGeometry_behind (next : Config) :
    (s.behind earlier).replaceGeometry next = (s.replaceGeometry next).behind earlier := by
  unfold replaceGeometry
  cases next.display.geometry.layout <;> rfl

/-- Whether a value is placed, and what it leads to, is a matter of the
configuration alone. -/
theorem set_behind (key : Key) (x : key.kind.Carrier) :
    (s.behind earlier).set key x = (s.set key x).behind earlier := by
  unfold set
  cases unplaced key.kind x with
  | some number => rfl
  | none =>
      dsimp only
      by_cases grid : key.affectsGeometry = true
      · rw [if_pos grid, if_pos grid]
        exact replaceGeometry_behind s earlier _
      · rw [if_neg grid, if_neg grid]
        exact settle_behind { s with config := s.config.put key x } earlier key

/-- Setting a value does not look at what waits. -/
theorem setValue_behind (key : Key) (v : Value) :
    (s.behind earlier).setValue key v = (s.setValue key v).behind earlier := by
  unfold setValue
  by_cases own : v.kind = key.kind
  · rw [dif_pos own, dif_pos own]
    exact set_behind s earlier key _
  · rw [dif_neg own, dif_neg own]
    rfl

/-- A pattern that was edited is settled whatever waits. -/
theorem settleEdit_behind (next : Config) (key : Key) (fault? : Option Rhythm.Fault) :
    { s.behind earlier with config := next }.settleEdit key fault?
      = ({ s with config := next }.settleEdit key fault?).behind earlier := by
  cases fault? with
  | none => exact settle_behind { s with config := next } earlier key
  | some fault => rfl

/-- Nor does typing a text. -/
theorem setText_behind (key : Key) (text : String) :
    (s.behind earlier).setText key text = (s.setText key text).behind earlier := by
  unfold setText
  rw [config_behind]
  split
  · generalize s.config.backend.audioSubdivisions.edit text = edited
    obtain ⟨field, fault?⟩ := edited
    exact settleEdit_behind s earlier _ .audioSubdivisions fault?
  · generalize s.config.display.visualSubdivisions.edit text = edited
    obtain ⟨field, fault?⟩ := edited
    exact settleEdit_behind s earlier _ .visualSubdivisions fault?
  · cases Value.read key.kind text with
    | ok v => exact setValue_behind s earlier key v
    | error fault => rfl

/-- No operation looks at the calls that wait. -/
theorem perform_behind (op : Operation) :
    (s.behind earlier).perform op = (s.perform op).behind earlier := by
  cases op with
  | set key x => exact set_behind s earlier key x
  | setValue key v => exact setValue_behind s earlier key v
  | setText key text => exact setText_behind s earlier key text
  | resize width height => exact replaceGeometry_behind s earlier _
  | push =>
      show Outcome.mk _ ((s.behind earlier).push) _ = _
      unfold push
      rw [send_behind]
      rfl
  | send c =>
      show Outcome.mk _ ((s.behind earlier).send c) _ = _
      rw [send_behind]
      rfl

end Store

end Metrograph.Config

/-
What a buffer holds of what was put into it: the newest, as many as there
is room for.

Batches make room one by one, and each may be longer than the buffer. It
makes no difference where a stream is cut into batches: after each of
them the buffer holds the end of the stream so far (`Keeps.push`), and
what gave way is the rest of it.
-/
import Mathlib.Data.List.DropRight
import Metrograph.Waveform.Buffer

namespace Metrograph.Waveform

variable {β : Type} {capacity : Nat}

/-- The newest entries that a buffer for so many entries has room for; there is
always room for one. -/
def newest (capacity : Nat) (xs : List β) : List β := xs.rtake (min (max capacity 1) xs.length)

/-- The entries that have given way to the newest. -/
def outdated (capacity : Nat) (xs : List β) : List β := xs.take (xs.length - max capacity 1)

theorem newest_eq_drop (capacity : Nat) (xs : List β) :
    newest capacity xs = xs.drop (xs.length - max capacity 1) := by
  unfold newest List.rtake
  congr 1
  omega

/-- Nothing is lost between the two parts. -/
theorem outdated_append_newest (capacity : Nat) (xs : List β) :
    outdated capacity xs ++ newest capacity xs = xs := by
  rw [newest_eq_drop]
  exact List.take_append_drop _ xs

/-- What does not fit is outdated. -/
theorem length_outdated (capacity : Nat) (xs : List β) :
    (outdated capacity xs).length = xs.length - max capacity 1 := by
  unfold outdated
  rw [List.length_take]
  omega

theorem length_newest (capacity : Nat) (xs : List β) :
    (newest capacity xs).length = min (max capacity 1) xs.length := by
  rw [newest_eq_drop, List.length_drop]
  omega

namespace Buffer

/-- A buffer of a capacity holds the newest of what was put into it since it was
last drained. -/
structure Keeps (b : Buffer β) (capacity : Nat) (received : List β) : Prop where
  capacity_eq : b.capacity = max capacity 1
  samples_eq : b.samples = newest capacity received

/-- A fresh buffer keeps nothing. -/
theorem keeps_ofCapacity (capacity : Nat) : (ofCapacity capacity : Buffer β).Keeps capacity [] :=
  ⟨Nat.max_comm _ _, (List.rtake_nil _).symm⟩

variable {b : Buffer β} {received : List β}

/-- What has to go for a batch to fit is what gives way beside what has given
way before. -/
theorem Keeps.overflow (h : b.Keeps capacity received) (batch : List β) :
    (outdated capacity (received ++ batch)).length
      = (outdated capacity received).length + b.overflow batch := by
  unfold Buffer.overflow
  rw [h.samples_eq, h.capacity_eq, length_newest, length_outdated, length_outdated,
    List.length_append]
  omega

/-- A batch is received, and what no longer fits is dropped. -/
theorem Keeps.push (h : b.Keeps capacity received) (batch : List β) :
    (b.push batch).Keeps capacity (received ++ batch) := by
  refine ⟨h.capacity_eq, ?_⟩
  have room := h.overflow batch
  rw [length_outdated, length_outdated] at room
  show (b.samples ++ batch).drop (b.overflow batch) = _
  -- both are the stream without what has given way
  rw [h.samples_eq, newest_eq_drop, newest_eq_drop, room,
    ← List.drop_append_of_le_length (Nat.sub_le _ _), List.drop_drop]

/-- Draining gives the newest and leaves nothing. -/
theorem Keeps.drain (h : b.Keeps capacity received) :
    b.drain.1 = newest capacity received ∧ b.drain.2.Keeps capacity [] :=
  ⟨h.samples_eq, h.capacity_eq, (List.rtake_nil _).symm⟩

end Buffer

end Metrograph.Waveform

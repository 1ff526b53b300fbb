/-
Cancelling a task.

A token is shared by all who hold a handle to it. Once cancelled it stays
cancelled. Whoever waits for a token is done as soon as it is cancelled,
however long ago that was.
-/
namespace Metrograph.Cancel

/-- A handle to a token. Copies of a handle share the token. -/
structure Handle where
  token : Nat
  deriving DecidableEq

/-- All tokens, and which of them are cancelled. -/
structure Tokens where
  /-- How many tokens there are. -/
  count : Nat
  /-- Whether a token is cancelled. -/
  cancelled : Nat → Bool

namespace Tokens

/-- No tokens yet. -/
def empty : Tokens := ⟨0, fun _ => false⟩

/-- A handle to a new token. -/
def create (t : Tokens) : Handle × Tokens := (⟨t.count⟩, { t with count := t.count + 1 })

def isCancelled (t : Tokens) (h : Handle) : Bool := t.cancelled h.token

/-- Cancels a token; a second time changes nothing. -/
def cancel (t : Tokens) (h : Handle) : Tokens :=
  { t with cancelled := fun n => n == h.token || t.cancelled n }

end Tokens

-- ============================================================= waiting

/-- How a wait stands. -/
inductive Progress where
  /-- The token is not cancelled. -/
  | pending
  /-- The wait ends here. -/
  | ready
  /-- The wait had ended before. -/
  | done
  deriving DecidableEq

/-- Somebody waiting for a token to be cancelled. -/
structure Wait where
  handle : Handle
  ended : Bool

/-- A wait that begins. -/
def Wait.start (h : Handle) : Wait := ⟨h, false⟩

/-- Looks how a wait stands. -/
def Wait.poll (w : Wait) (t : Tokens) : Progress × Wait :=
  if w.ended then (.done, w)
  else if t.isCancelled w.handle then (.ready, { w with ended := true })
  else (.pending, w)

end Metrograph.Cancel

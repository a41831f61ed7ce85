import LineBasic.Error

/-!
# Bounded stacks

A stack with a limit.  A push beyond the limit fails and leaves the stack as it was.
-/

namespace LineBasic

/-- A stack that holds up to a number of items. -/
structure BoundedStack (α : Type) where
  /-- What the stack is for. -/
  label : String
  limit : Nat
  /-- The items, last pushed first. -/
  items : List α := []
  deriving DecidableEq, Repr

namespace BoundedStack

variable {α : Type}

/-- Puts an item on top, unless the stack is full. -/
def push (s : BoundedStack α) (a : α) : Except BasicError (BoundedStack α) :=
  if s.limit < s.items.length + 1 then .error (.of .outOfMemory)
  else .ok { s with items := a :: s.items }

/-- Takes the item on top. -/
def pop? (s : BoundedStack α) : Option (α × BoundedStack α) :=
  match s.items with
  | [] => none
  | a :: rest => some (a, { s with items := rest })

/-- Takes all items away; label and limit stay. -/
def clear (s : BoundedStack α) : BoundedStack α :=
  { s with items := [] }

end BoundedStack

end LineBasic

/-!
# Queues

First-in first-out queues, and queues shared by several ends.  A producer holds one end and the
interpreter another; what is pushed at one end is popped at any.
-/

namespace LineBasic

/-- A queue. -/
structure Queue (α : Type) where
  /-- The items, first to leave first. -/
  items : List α := []
  deriving DecidableEq, Repr

namespace Queue

variable {α : Type}

/-- Adds an item behind the others. -/
def push (q : Queue α) (a : α) : Queue α :=
  ⟨q.items ++ [a]⟩

/-- Takes the first item, if there is one. -/
def pop (q : Queue α) : Option α × Queue α :=
  match q.items with
  | [] => (none, q)
  | a :: rest => (some a, ⟨rest⟩)

/-- Takes all items away. -/
def clear (_ : Queue α) : Queue α :=
  ⟨[]⟩

/-- How many items are waiting. -/
def size (q : Queue α) : Nat :=
  q.items.length

end Queue

/-- Queues and the ends that reach them. -/
structure SharedQueues (α : Type) where
  queues : List (Queue α)
  /-- For each end the index of its queue. -/
  ends : List Nat
  deriving DecidableEq, Repr

namespace SharedQueues

variable {α : Type}

/-- One empty queue with one end. -/
def single : SharedQueues α :=
  ⟨[⟨[]⟩], [0]⟩

/-- The queue that an end reaches. -/
def queue (s : SharedQueues α) (i : Nat) : Queue α :=
  (s.ends[i]?.bind fun k => s.queues[k]?).getD ⟨[]⟩

/-- Replaces the queue that an end reaches, for all its ends. -/
def update (s : SharedQueues α) (i : Nat) (q : Queue α) : SharedQueues α :=
  match s.ends[i]? with
  | some k => { s with queues := s.queues.set k q }
  | none => s

/-- Adds an item at an end. -/
def push (s : SharedQueues α) (i : Nat) (a : α) : SharedQueues α :=
  s.update i ((s.queue i).push a)

/-- Takes the first item at an end. -/
def pop (s : SharedQueues α) (i : Nat) : Option α × SharedQueues α :=
  ((s.queue i).pop.1, s.update i (s.queue i).pop.2)

/-- Takes all items away at an end. -/
def clear (s : SharedQueues α) (i : Nat) : SharedQueues α :=
  s.update i (s.queue i).clear

/-- Another end of the same queue. -/
def share (s : SharedQueues α) (i : Nat) : SharedQueues α :=
  match s.ends[i]? with
  | some k => { s with ends := s.ends ++ [k] }
  | none => s

/-- What comes back of a queue from a saved session: a new, empty one. -/
def restore (s : SharedQueues α) : SharedQueues α :=
  ⟨s.queues ++ [⟨[]⟩], s.ends ++ [s.queues.length]⟩

end SharedQueues

end LineBasic

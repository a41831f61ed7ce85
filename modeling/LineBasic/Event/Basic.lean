import LineBasic.Collection.Queue

/-!
# Event traps

A program can ask for a subroutine to be called when the timer runs out, a key is pressed, and so on.
Each kind of event has a descriptor: whether it is enabled, whether it has happened since it was last
dispatched, and how it stands with its handler.  The order of the table is the order of dispatch.
-/

namespace LineBasic

/-- What can happen. -/
inductive EventKind where
  | timer
  | key (n : UInt8)
  | play
  | com (n : UInt8)
  | pen
  | strig (n : UInt8)
  deriving DecidableEq, Repr

/-- The highest number of a key with a trap. -/
def EventKind.maxKey : Nat := 20

/-- What a program may do with a trap. -/
inductive EventCommand where
  | on | off | stop
  deriving DecidableEq, Repr

/-- How a trap stands with its handler. -/
inductive EventState where
  | idle
  /-- Events are remembered and not dispatched. -/
  | stopped
  /-- Control is passing to the handler. -/
  | dispatching
  /-- The handler runs until it returns. -/
  | handlerActive
  deriving DecidableEq, Repr

/-- A trap: what becomes of the events of a kind. -/
structure EventDescriptor where
  kind : EventKind
  enabled : Bool := false
  triggered : Bool := false
  state : EventState := .idle
  /-- The line of the handler. -/
  handler : Option UInt16 := none
  deriving DecidableEq, Repr

namespace EventDescriptor

/-- Events of a trap that is not idle are not dispatched. -/
def isStopped (d : EventDescriptor) : Bool :=
  d.state ≠ .idle

/-- The trap after a command of the program. -/
def command (d : EventDescriptor) : EventCommand → EventDescriptor
  | .on => { d with enabled := true, state := if d.state = .stopped then .idle else d.state }
  | .off => { d with enabled := false }
  | .stop => { d with state := .stopped }

/-- An event is remembered only while its trap is enabled. -/
def trigger (d : EventDescriptor) : EventDescriptor :=
  { d with triggered := d.triggered || d.enabled }

/-- Whether an event is to be dispatched now. -/
def isReady (d : EventDescriptor) : Bool :=
  d.enabled && d.triggered && !d.isStopped && d.handler.isSome

end EventDescriptor

/-- All traps, and the timer. -/
structure EventTable where
  descriptors : List EventDescriptor
  /-- No event is dispatched while an error handler runs. -/
  suspended : Bool := false
  /-- The period of the timer, in milliseconds. -/
  timerPeriod : Option Int64 := none
  /-- When the current period began. -/
  timerStart : Int64 := 0
  /-- Events sent since the last poll. -/
  pending : Queue EventKind := {}
  deriving DecidableEq, Repr

namespace EventTable

/-- The kinds of events with a trap, in the order of dispatch. -/
def kinds : List EventKind :=
  [.timer] ++ (List.range EventKind.maxKey).map (fun n => .key (UInt8.ofNat (n + 1))) ++
    [.play, .com 1, .com 2, .pen, .strig 0, .strig 2, .strig 4, .strig 6]

/-- All traps off and without handlers. -/
def initial : EventTable where
  descriptors := kinds.map fun kind => { kind }

instance : Inhabited EventTable := ⟨initial⟩

/-- Forgets handlers and events. -/
def reset (t : EventTable) : EventTable :=
  { t with
    descriptors := t.descriptors.map fun d => { kind := d.kind }
    suspended := false
    timerPeriod := none
    pending := {} }

/-- The trap for a kind of event. -/
def get? (t : EventTable) (kind : EventKind) : Option EventDescriptor :=
  t.descriptors.find? fun d => d.kind = kind

/-- Changes the first descriptor of a kind. -/
def modifyKind (kind : EventKind) (f : EventDescriptor → EventDescriptor) :
    List EventDescriptor → List EventDescriptor
  | [] => []
  | d :: rest => if d.kind = kind then f d :: rest else d :: modifyKind kind f rest

/-- Changes the trap for a kind of event; a kind without a trap is ignored. -/
def modify (t : EventTable) (kind : EventKind) (f : EventDescriptor → EventDescriptor) :
    EventTable :=
  { t with descriptors := modifyKind kind f t.descriptors }

/-- Gives a trap its handler; line 0 takes it away. -/
def setHandler (t : EventTable) (kind : EventKind) (line : Option UInt16) : EventTable :=
  t.modify kind fun d => { d with handler := line.filter (· ≠ 0) }

/-- Gives a trap a command of the program. -/
def command (t : EventTable) (kind : EventKind) (c : EventCommand) : EventTable :=
  t.modify kind fun d => d.command c

/-- An event arrives at its trap. -/
def trigger (t : EventTable) (kind : EventKind) : EventTable :=
  t.modify kind EventDescriptor.trigger

/-- Sends an event, to be seen at the next poll. -/
def send (t : EventTable) (kind : EventKind) : EventTable :=
  { t with pending := t.pending.push kind }

/-- Triggers every event sent since the last poll. -/
def drain (t : EventTable) : EventTable :=
  { t.pending.items.foldl trigger t with pending := {} }

/-- Starts the timer's period now. -/
def setTimer (t : EventTable) (seconds : Nat) (now : Int64) : EventTable :=
  { t with timerPeriod := some (Int64.ofNat seconds * 1000), timerStart := now }

/-- Triggers the timer if its period is over, and starts the next one. -/
def checkTimer (t : EventTable) (now : Int64) : EventTable :=
  match t.timerPeriod with
  | some period =>
    if period ≤ now - t.timerStart then { t with timerStart := now }.trigger .timer else t
  | none => t

/-- The first event that may be dispatched, and its handler. -/
def nextReady? (t : EventTable) : Option (EventKind × UInt16) := do
  let d ← t.descriptors.find? EventDescriptor.isReady
  return (d.kind, ← d.handler)

/-- The handler of an event has returned. -/
def release (t : EventTable) (kind : EventKind) : EventTable :=
  t.modify kind fun d => { d with state := .idle }

end EventTable

end LineBasic

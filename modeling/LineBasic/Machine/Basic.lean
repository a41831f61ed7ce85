import LineBasic.Console
import LineBasic.Event.Feed
import LineBasic.Session.Trap

/-!
# Machines

A session together with everything it works with: console, disk, clock and the source of events.
-/

namespace LineBasic

/-- How a machine is started. -/
structure Config where
  /-- A program to load first. -/
  program : Option String := none
  /-- Whether to run it at once. -/
  run : Bool := false
  /-- A line to enter first. -/
  exec : Option String := none
  /-- Whether to go on with the saved session. -/
  resume : Bool := false
  /-- Whether to leave when nothing is left to do. -/
  quit : Bool := false
  /-- Whether to wait for a key before leaving. -/
  wait : Bool := false
  /-- Where the session is saved; nowhere if none. -/
  stateFile : Option String := none
  /-- The step of `AUTO` without one. -/
  autoIncrement : UInt16 := 10
  greeting : Bool := true
  deriving DecidableEq, Repr

/-- A session and the world around it. -/
structure Machine where
  session : Session := {}
  console : Console := {}
  disk : Disk := {}
  /-- The time of day, in milliseconds. -/
  clock : Int64 := 0
  feed : EventFeed := {}
  config : Config := {}

namespace Machine

instance : Inhabited Machine := ⟨{}⟩

end Machine

/-- An operation on a machine, ended early by a signal. -/
abbrev MachineM := EStateM Signal Machine

namespace Machine

/-! ## The session -/

/-- An operation on the session. -/
def onSession {α : Type} (f : SessionM α) : MachineM α := fun m =>
  match f m.session with
  | .ok a session => .ok a { m with session }
  | .error e session => .error (.error e) { m with session }

/-- Changes the session. -/
def modifySession (f : Session → Session) : MachineM Unit :=
  modify fun m => { m with session := f m.session }

/-- Scans the code that runs. -/
def scan {α : Type} (p : Scanner α) : MachineM α :=
  onSession (Session.scan p)

/-- A result that may be an error. -/
def ofExcept {α : Type} : Except BasicError α → MachineM α
  | .ok a => pure a
  | .error e => throw (.error e)

/-! ## The console -/

/-- Changes the console. -/
def modifyConsole (f : Console → Console) : MachineM Unit :=
  modify fun m => { m with console := f m.console }

/-- Sends something to the console.  If the console fails, that is a fault. -/
def output (send : Console → Bool × Console) : MachineM Unit := do
  let m ← get
  let (succeeded, console) := send m.console
  set { m with console }
  if !succeeded then throw (.fault "write failed")

/-- Shows text. -/
def write (text : String) : MachineM Unit :=
  output fun c => c.write text

/-- Starts a new line unless one has just been started. -/
def startLine : MachineM Unit :=
  output Console.startLine

/-- Shows a line. -/
def writeLine (text : String) : MachineM Unit := do
  write text
  write "\n"

/-- Shows a message on a line of its own, with the line it is about. -/
def writeMessage (message : String) (line : Option UInt16) : MachineM Unit := do
  startLine
  match line with
  | some n => writeLine s!"{message} in {n}"
  | none => writeLine message

/-- Asks the operator for a line. -/
def readLine (offered : String) (cursor : Nat) : MachineM String := do
  modifySession fun s => { s with awaitingInput := true }
  let m ← get
  let (line, console) := m.console.readLine offered cursor
  set { m with console, session := { m.session with awaitingInput := false } }
  match line with
  | .ok text => return text
  | .error s => throw s

/-! ## Events -/

/-- Looks for events. -/
def poll : MachineM Unit := do
  let m ← get
  let (outcome, feed, events) := m.feed.poll m.session.events m.clock
  set { m with feed, session := { m.session with events } }
  match outcome with
  | .ok () => return ()
  | .error s => throw s

end Machine

end LineBasic

import LineBasic.Collection.BoundedStack
import LineBasic.Disk.FileTable
import LineBasic.Event.Basic
import LineBasic.Program.Basic
import LineBasic.Variables

/-!
# Sessions

Everything a running interpreter knows.  This is what a snapshot saves.
-/

namespace LineBasic

/-- What a session does next. -/
inductive Mode where
  /-- Waiting for a line of the operator. -/
  | direct
  | executing
  /-- Taking numbered lines, each with its number offered. -/
  | autoNumbering
  deriving DecidableEq, Repr

/-- The line to offer for editing at the next prompt, and the place in the image to show. -/
structure EditPrompt where
  line : UInt16
  position : Nat
  deriving DecidableEq, Repr

/-- The next line number that is offered, and the step to the one after it. -/
structure AutoNumber where
  line : UInt32 := 10
  increment : UInt16 := 10
  deriving DecidableEq, Repr

/-- Where a subroutine returns to. -/
structure GosubFrame where
  statement : Nat
  /-- Whether that place is in the program. -/
  inProgram : Bool
  /-- The event whose handler the subroutine is. -/
  handler : Option EventKind
  deriving DecidableEq, Repr

/-- Where `RESUME` returns to. -/
structure ResumeContext where
  statement : Nat
  /-- Whether that place is in the program. -/
  inProgram : Bool
  deriving DecidableEq, Repr

/-- The state of `ON ERROR`. -/
structure ErrorTrap where
  /-- The line of the handler. -/
  handler : Option UInt16 := none
  /-- Where the running handler will resume; none if no handler runs. -/
  active : Option ResumeContext := none
  /-- The value of `ERR`. -/
  err : UInt16 := 0
  /-- Where the last error arose. -/
  location : Option Location := none
  deriving DecidableEq, Repr

namespace ErrorTrap

/-- Whether an error handler runs. -/
def isHandling (t : ErrorTrap) : Bool :=
  t.active.isSome

/-- Forgets the handler; `ERR` and `ERL` stay. -/
def reset (t : ErrorTrap) : ErrorTrap :=
  { t with handler := none, active := none }

end ErrorTrap

/-- The state of an interpreter. -/
structure Session where
  program : Program := .empty
  direct : CodeStream := { bytes := [] }
  /-- Whether the program runs, or else the direct line. -/
  inProgram : Bool := false
  mode : Mode := .direct
  awaitingInput : Bool := false
  /-- Whether the next prompt says `Ok`. -/
  prompt : Bool := true
  editPrompt : Option EditPrompt := none
  auto : AutoNumber := {}
  /-- Whether line numbers are offered again once a command has run. -/
  autoActive : Bool := false
  /-- The step of `AUTO` without one. -/
  autoIncrement : UInt16 := 10
  /-- Where the current statement starts. -/
  statement : Nat := 0
  /-- Where `CONT` goes on. -/
  stop : Option Nat := none
  tron : Bool := false
  gosub : BoundedStack GosubFrame := { label := "GOSUB", limit := 256 }
  vars : Variables := .empty
  events : EventTable := .initial
  trap : ErrorTrap := {}
  files : FileTable := {}

namespace Session

instance : Inhabited Session := ⟨{}⟩

/-- The code that runs. -/
def stream (s : Session) : CodeStream :=
  if s.inProgram then s.program.stream else s.direct

/-- Puts the code that runs at another place. -/
def moveTo (s : Session) (pos : Nat) : Session :=
  if s.inProgram then { s with program := { s.program with pos } }
  else { s with direct := { s.direct with pos } }

/-- Leaves execution, for line numbers if they are offered. -/
def endExecution (s : Session) : Session :=
  { s with mode := if s.autoActive then .autoNumbering else .direct }

/-- Forgets what a run has made: variables, subroutines, traps and open files. -/
def clear (s : Session) : Session :=
  { s with
    vars := .empty
    gosub := s.gosub.clear
    trap := s.trap.reset
    events := s.events.reset
    files := s.files.closeAll
    stop := none }

/-- The line of a place; none on the direct line. -/
def lineOf? (s : Session) : Option Location → Option UInt16
  | some (.program offset) => s.program.lineAt? offset
  | _ => none

/-- The line of the current statement; none on the direct line. -/
def currentLine? (s : Session) : Option UInt16 :=
  if s.inProgram then s.program.lineAt? s.statement else none

/-- The value of `ERL`: the line of the last error, 65535 for the direct line. -/
def erl (s : Session) : UInt16 :=
  match s.trap.location with
  | some (.program offset) => (s.program.lineAt? offset).getD 0
  | some .direct => 65535
  | none => 0

end Session

/-- An operation on a session.  One that fails may leave its mark. -/
abbrev SessionM := EStateM BasicError Session

namespace Session

/-- Scans the code that runs. -/
def scan {α : Type} (p : Scanner α) : SessionM α := fun s =>
  match CodeStream.scan p s.stream with
  | .ok a stream => .ok a (s.moveTo stream.pos)
  | .error e stream => .error e (s.moveTo stream.pos)

end Session

end LineBasic

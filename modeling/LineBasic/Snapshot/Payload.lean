import LineBasic.Program.Rescan
import LineBasic.Session.Basic
import LineBasic.Snapshot.Layout

/-!
# Sessions as bytes

The layout of a whole session.  The program is saved as its image and read by scanning it again; an
open file is saved as its image and opened again on reading; events that were sent and not polled are
not saved.  The variables are written in the order in which they are enumerated, and that may be any.
-/

namespace LineBasic

namespace Layout

/-- A code stream: its bytes and its place. -/
def stream (s : CodeStream) : List UInt8 :=
  bytes s.bytes ++ size s.pos

/-- The mode of a session. -/
def mode : Mode → List UInt8
  | .direct => tag 0
  | .executing => tag 1
  | .autoNumbering => tag 2

/-- A line that is offered for editing. -/
def editPrompt (p : EditPrompt) : List UInt8 :=
  word p.line ++ size p.position

/-- A kind of event, with its number if it has one. -/
def eventKind : EventKind → List UInt8
  | .timer => tag 0
  | .key n => tag 1 ++ byte n
  | .play => tag 2
  | .com n => tag 3 ++ byte n
  | .pen => tag 4
  | .strig n => tag 5 ++ byte n

/-- A subroutine that runs. -/
def gosubFrame (f : GosubFrame) : List UInt8 :=
  size f.statement ++ bool f.inProgram ++ option eventKind f.handler

/-- The subroutines that run, the first one first. -/
def gosubStack (s : BoundedStack GosubFrame) : List UInt8 :=
  text s.label ++ size s.limit ++ list gosubFrame s.items.reverse

/-- A value, after its type. -/
def value : Value → List UInt8
  | .string s => tag 0 ++ text s
  | .integer n => tag 1 ++ word n.toUInt16
  | .single x => tag 2 ++ nat 4 x.bits.toNat

/-- The variables, one after the other as they are enumerated. -/
def variableTable {v : Variables} (order : v.Enumeration) : List UInt8 :=
  list (fun e => text e.1 ++ value e.2) order.entries

/-- How a trap stands with its handler. -/
def eventState : EventState → List UInt8
  | .idle => tag 0
  | .stopped => tag 1
  | .dispatching => tag 2
  | .handlerActive => tag 3

/-- A trap. -/
def eventDescriptor (d : EventDescriptor) : List UInt8 :=
  eventKind d.kind ++ bool d.enabled ++ bool d.triggered ++ eventState d.state ++
    option word d.handler

/-- The traps and the timer; events that are pending are left out. -/
def eventTable (t : EventTable) : List UInt8 :=
  list eventDescriptor t.descriptors ++ bool t.suspended ++ option time t.timerPeriod ++
    time t.timerStart

/-- Where an error arose. -/
def location : Location → List UInt8
  | .direct => tag 0
  | .program offset => tag 1 ++ size offset

/-- Where a running error handler will resume. -/
def trapState : Option ResumeContext → List UInt8
  | none => tag 0
  | some c => tag 1 ++ size c.statement ++ bool c.inProgram

/-- The state of `ON ERROR`. -/
def errorTrap (t : ErrorTrap) : List UInt8 :=
  option word t.handler ++ trapState t.active ++ word t.err ++ option location t.location

/-- The mode of an open file. -/
def fileMode : FileMode → List UInt8
  | .input => tag 0
  | .output => tag 1
  | .append => tag 2
  | .random => tag 3

/-- What is kept of an open file. -/
def fileImage (f : FileImage) : List UInt8 :=
  text f.name ++ fileMode f.mode ++ option size f.position

/-- The open files, each after its number. -/
def fileTable (t : FileTable) : List UInt8 :=
  list (fun f => byte f.1 ++ fileImage f.2.image) t.files

/-- A whole session, with its variables in the given order. -/
def session (s : Session) (order : s.vars.Enumeration) : List UInt8 :=
  stream s.program.stream ++ stream s.direct ++ bool s.inProgram ++ mode s.mode ++
    bool s.awaitingInput ++ bool s.prompt ++ option editPrompt s.editPrompt ++
    nat 4 s.auto.line.toNat ++ word s.auto.increment ++ bool s.autoActive ++ word s.autoIncrement ++
    size s.statement ++ option size s.stop ++ bool s.tron ++ gosubStack s.gosub ++
    variableTable order ++ eventTable s.events ++ errorTrap s.trap ++ fileTable s.files

end Layout

namespace Decoder

/-- Reads a code stream; its place is taken as it stands. -/
def stream : Decoder CodeStream := do
  return { bytes := ← bytes, pos := ← size }

/-- A program, from its image. -/
def program : Decoder Program := do
  match Program.ofStream (← stream) with
  | .ok p => return p
  | .error _ => failure

/-- Reads the mode of a session. -/
def mode : Decoder Mode := do
  match ← tag with
  | 0 => return .direct
  | 1 => return .executing
  | 2 => return .autoNumbering
  | _ => failure

/-- Reads a line that is offered for editing. -/
def editPrompt : Decoder EditPrompt := do
  return { line := ← word, position := ← size }

/-- Reads a kind of event. -/
def eventKind : Decoder EventKind := do
  match ← tag with
  | 0 => return .timer
  | 1 => return .key (← byte)
  | 2 => return .play
  | 3 => return .com (← byte)
  | 4 => return .pen
  | 5 => return .strig (← byte)
  | _ => failure

/-- Reads a subroutine that runs. -/
def gosubFrame : Decoder GosubFrame := do
  return { statement := ← size, inProgram := ← bool, handler := ← option eventKind }

/-- Reads the subroutines that run. -/
def gosubStack : Decoder (BoundedStack GosubFrame) := do
  return { label := ← text, limit := ← size, items := (← list gosubFrame).reverse }

/-- Reads a value. -/
def value : Decoder Value := do
  match ← tag with
  | 0 => return .string (← text)
  | 1 => return .integer (← word).toInt16
  | 2 => return .single ⟨UInt32.ofNat (← nat 4)⟩
  | _ => failure

/-- Reads the variables, which may come in any order. -/
def variableTable : Decoder Variables := do
  return .ofList (← list do return (← text, ← value))

/-- Reads how a trap stands with its handler. -/
def eventState : Decoder EventState := do
  match ← tag with
  | 0 => return .idle
  | 1 => return .stopped
  | 2 => return .dispatching
  | 3 => return .handlerActive
  | _ => failure

/-- Reads a trap. -/
def eventDescriptor : Decoder EventDescriptor := do
  return {
    kind := ← eventKind
    enabled := ← bool
    triggered := ← bool
    state := ← eventState
    handler := ← option word }

/-- Reads the traps and the timer; no event is pending. -/
def eventTable : Decoder EventTable := do
  return {
    descriptors := ← list eventDescriptor
    suspended := ← bool
    timerPeriod := ← option time
    timerStart := ← time }

/-- Reads where an error arose. -/
def location : Decoder Location := do
  match ← tag with
  | 0 => return .direct
  | 1 => return .program (← size)
  | _ => failure

/-- Reads where a running error handler will resume. -/
def trapState : Decoder (Option ResumeContext) := do
  match ← tag with
  | 0 => return none
  | 1 => return some { statement := ← size, inProgram := ← bool }
  | _ => failure

/-- Reads the state of `ON ERROR`. -/
def errorTrap : Decoder ErrorTrap := do
  return {
    handler := ← option word
    active := ← trapState
    err := ← word
    location := ← option location }

/-- Reads the mode of an open file. -/
def fileMode : Decoder FileMode := do
  match ← tag with
  | 0 => return .input
  | 1 => return .output
  | 2 => return .append
  | 3 => return .random
  | _ => failure

/-- Reads what is kept of an open file. -/
def fileImage : Decoder FileImage := do
  return { name := ← text, mode := ← fileMode, position := ← option size }

/-- A session without its open files. -/
def sessionBeforeFiles : Decoder Session := do
  return {
    program := ← program
    direct := ← stream
    inProgram := ← bool
    mode := ← mode
    awaitingInput := ← bool
    prompt := ← bool
    editPrompt := ← option editPrompt
    auto := { line := UInt32.ofNat (← nat 4), increment := ← word }
    autoActive := ← bool
    autoIncrement := ← word
    statement := ← size
    stop := ← option size
    tron := ← bool
    gosub := ← gosubStack
    vars := ← variableTable
    events := ← eventTable
    trap := ← errorTrap }

/-- Reads a number of saved files, opening each on the disk as it is read.  What was opened stays opened
if a later one cannot be read. -/
def restoreFiles (disk : Disk) (files : FileTable) : Nat → List UInt8 → Option FileTable × Disk
  | 0, _ => (some files, disk)
  | n + 1, code =>
    match (do return (← byte, ← fileImage) : Decoder (UInt8 × FileImage)).run code with
    | none => (none, disk)
    | some ((number, image), rest) =>
      let (file, disk) := OpenFile.restore disk image
      restoreFiles disk (files.insert number file) n rest

/-- A whole session; its files are opened on the disk. -/
def session (disk : Disk) (code : List UInt8) : Option Session × Disk :=
  match (do return (← sessionBeforeFiles, ← size) : Decoder (Session × Nat)).run code with
  | none => (none, disk)
  | some ((s, count), rest) =>
    let (files, disk) := restoreFiles disk {} count rest
    (files.map fun files => { s with files }, disk)

end Decoder

end LineBasic

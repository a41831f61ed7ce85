import LineBasic.Machine.Basic
import LineBasic.Statement.Parse

/-!
# Executing statements

What statements do to a machine.  `Statement.execute` answers whether execution goes on;
`Machine.statement` reads the statement that comes next and executes it.
-/

namespace LineBasic

open Machine

/-- What expressions may refer to. -/
def Session.scope (s : Session) : Scope where
  vars := s.vars
  err := s.trap.err
  erl := s.erl

namespace Statement

/-- Gives a variable a value, converted to its type. -/
def assignVariable (name : String) (value : Value) : MachineM Unit := do
  let s := (← get).session
  let vars ← ofExcept (s.vars.store name value)
  modifySession fun s => { s with vars }

/-- Shows text, or writes it to a file. -/
def printTo (file : Option UInt8) (text : String) : MachineM Unit := do
  match file with
  | none => write text
  | some number =>
    let m ← get
    let (files, disk) ← ofExcept (m.session.files.write m.disk number text)
    set { m with disk, session := { m.session with files } }

/-- Opens a file under a number. -/
def openNumbered (name : String) (mode : FileMode) (number : UInt8) : MachineM Unit := do
  let m ← get
  let (files, disk) ← ofExcept (m.session.files.open m.disk number name mode)
  set { m with disk, session := { m.session with files } }

/-- Offers line numbers from a line on. -/
def startAuto (line : UInt16) (increment : Option UInt16) : MachineM Unit := do
  let increment := increment.getD (← get).session.autoIncrement
  if increment = 0 then throw (.raise .illegalFunctionCall)
  modifySession fun s =>
    { s with auto := ⟨line.toUInt32, increment⟩, mode := .autoNumbering, autoActive := true }

/-- Offers a line for editing at the next prompt. -/
def offerEdit (line : UInt16) : MachineM Unit := do
  match (← get).session.program.offsetOf? line with
  | none => throw (.raise .undefinedLineNumber)
  | some offset =>
    modifySession fun s => { s with editPrompt := some ⟨line, offset + 5⟩, prompt := false }

/-- Sends errors to a line from now on; line 0 takes the handler away. -/
def installErrorHandler (line : UInt16) : MachineM Unit := do
  let s := (← get).session
  if line ≠ 0 && !s.program.contains line then throw (.raise .undefinedLineNumber)
  onSession (Session.setErrorHandler (some line))

/-- Executes a statement; false if execution ends with it. -/
def execute : Statement → MachineM Bool
  | nothing | comment => return true
  | assign name value => do
    assignVariable name value
    return true
  | print file text => do
    printTo file text
    return true
  | goto line => do
    onSession (Session.jump (some line))
    return true
  | gosub line => do
    onSession (Session.call line none)
    return true
  | returnTo line => do
    onSession (Session.return line)
    return true
  | endProgram => do
    modifySession fun s =>
      { s with
        stop := if s.inProgram then some s.program.pos else s.stop
        files := s.files.closeAll }
    return false
  | stop => throw (.interrupt true)
  | cont => do
    onSession Session.cont
    return true
  | run line => do
    modifySession Session.clear
    onSession (Session.jump line)
    return true
  | new => do
    modifySession fun s => { s with program := .empty }.clear
    return false
  | clear => do
    modifySession Session.clear
    return true
  | list first last => do
    for line in (← get).session.program.listing first last do
      writeLine line
    return true
  | auto line increment => do
    startAuto line increment
    return true
  | edit line => do
    offerEdit line
    return false
  | delete first last => do
    let program ← ofExcept ((← get).session.program.deleteRange first last)
    modifySession fun s => { s with program }.clear
    return false
  | onError line => do
    installErrorHandler line
    return true
  | onKey key line => do
    modifySession fun s => { s with events := s.events.setHandler (.key key) (some line) }
    return true
  | onTimer seconds line => do
    let now := (← get).clock
    modifySession fun s => { s with events := s.events.setTimer seconds now }
    let line ← ofExcept line
    modifySession fun s => { s with events := s.events.setHandler .timer (some line) }
    return true
  | trapCommand kind command => do
    modifySession fun s => { s with events := s.events.command kind command }
    return true
  | raise code => throw (.raise code)
  | resume target => do
    onSession (Session.resume target)
    return true
  | trace on => do
    modifySession fun s => { s with tron := on }
    return true
  | openFile name mode number => do
    openNumbered name mode number
    return true
  | closeFiles numbers rest => do
    modifySession fun s => { s with files := numbers.foldl FileTable.close s.files }
    ofExcept rest
    return true
  | closeAll => do
    modifySession fun s => { s with files := s.files.closeAll }
    return true
  | system => throw .exit

end Statement

namespace Machine

/-- The end of the code: an error inside an error handler, else the end of execution. -/
def endOfCode : MachineM Bool := do
  let s := (← get).session
  if s.trap.isHandling then
    let location := if s.inProgram then .program (s.program.pos - 2) else .direct
    throw (.error (BasicError.located (.of .noResume) location))
  return false

/-- Reads the statement that comes next and executes it. -/
def readAndExecute : MachineM Bool := do
  let statement ← scan (Parse.statement (← get).session.scope)
  statement.execute

/-- Runs the statement that comes next; false once there is nothing more to run. -/
def statement : MachineM Bool := do
  modifySession fun s => { s with statement := s.stream.pos }
  match ← scan Parse.boundary with
  | .ended => endOfCode
  | .line number =>
    if (← get).session.tron then write s!"[{number}]"
    readAndExecute
  | .inLine => readAndExecute

end Machine

end LineBasic

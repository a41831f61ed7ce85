import LineBasic.Machine.Entry
import LineBasic.Snapshot.Artifact
import LineBasic.Statement.Execute

/-!
# The interpreter loop

A machine alternates between taking lines and executing statements.  The loop is driven by an `Engine`:
how events are polled and how a statement is run.

* `Machine.pass`: one pass of the loop, in the mode the machine is in.
* `Machine.settle`: passes until execution has come back to direct mode.
* `Machine.cycle`: the same, with errors, breaks and faults reported.
* `Machine.run`: a whole session, from its start to its shutdown.

A loop may go on for ever, so each takes a bound on its passes and answers `none` when that is used up.
-/

namespace LineBasic

/-- What drives the loop. -/
structure Engine where
  /-- Looks for events. -/
  poll : MachineM Unit
  /-- Runs a statement; false once there is nothing more to run. -/
  statement : MachineM Bool

namespace Engine

/-- The machine's own events and statements. -/
def standard : Engine where
  poll := Machine.poll
  statement := Machine.statement

/-- An engine that also records each statement in the transcript. -/
def traced (e : Engine) : Engine where
  poll := e.poll
  statement := fun m =>
    let place (m : Machine) := (m.session.inProgram, m.session.stream.pos)
    let record (outcome : Except Signal Bool) (after : Machine) : Machine :=
      { after with console := after.console.note (.statement (place m) (place after) outcome) }
    match e.statement m with
    | .ok goesOn after => .ok goesOn (record (.ok goesOn) after)
    | .error s after => .error s (record (.error s) after)

end Engine

namespace Machine

/-! ## Prompts and reports -/

/-- Says `Ok` if due.  A line to edit is offered instead: its text and the cursor's place. -/
def showPrompt : MachineM (String × Nat) := do
  let s := (← get).session
  modifySession fun s => { s with editPrompt := none }
  match s.editPrompt.bind fun edit => s.program.editText? edit.line edit.position with
  | some offered => return offered
  | none =>
    if s.prompt then
      startLine
      writeLine "Ok"
    return ("", 0)

/-- Reports an error and leaves execution.  The line of a syntax error is offered for editing. -/
def handleError (e : BasicError) : MachineM Unit := do
  let line := e.line.or ((← get).session.lineOf? e.location)
  writeMessage e.text line
  modifySession fun s =>
    let s :=
      { s with
        trap := { s.trap with active := none }
        events := { s.events with suspended := false } }.endExecution
    let s := { s with awaitingInput := false }
    if e.isSyntax then
      let s := { s with trap := { s.trap with err := 0 } }
      match e.location, line with
      | some (.program offset), some line => { s with editPrompt := some ⟨line, offset + 1⟩ }
      | _, _ => s
    else s

/-- Reports a break and leaves execution; `CONT` can go on from here. -/
def handleBreak (stop : Bool) : MachineM Unit := do
  if !(← get).session.awaitingInput && !stop then write "^C"
  let s := (← get).session
  if s.inProgram then modifySession fun s => { s with stop := some s.program.pos }
  let line := if s.inProgram then
      s.program.lineAt? (if stop then s.statement else s.program.pos)
    else none
  writeMessage "Break" line
  modifySession fun s => { s.endExecution with awaitingInput := false }

/-- Reports a fault and abandons what was going on. -/
def handleFault (message : String) : MachineM Unit := do
  modifySession fun s =>
    { { s with autoActive := false, mode := .direct, awaitingInput := false }.setPointer false none with
      prompt := true }
  startLine
  writeLine ("Internal error; " ++ message)

/-- Reports the signal that ended a cycle.  A request to leave or to start anew is passed on. -/
def report : Signal → MachineM Unit
  | .error e => do
    handleError e
    modifySession fun s => { s with prompt := true }
  | .interrupt stop => do
    modifyConsole fun c => c.note .stopSound
    handleBreak stop
    modifySession fun s => { s with prompt := true }
  | .fault message => handleFault message
  | s => throw s

/-! ## Passes -/

/-- Polls for events, dispatches one that is due, and runs a statement. -/
def step (e : Engine) : MachineM Unit := do
  e.poll
  onSession Session.dispatchEvent
  if !(← e.statement) then modifySession Session.endExecution

/-- After a pass: when execution began or ended, the direct line is put at its start.  True once
execution has come back to direct mode. -/
def switchMode (wasExecuting : Bool) : MachineM Bool := do
  let s := (← get).session
  if decide (s.mode = .executing) ≠ wasExecuting then
    modifySession fun s => s.setPointer false (some 0)
    modifyConsole fun c => c.note .resetCursor
  return decide (s.mode = .direct) && wasExecuting

/-- Executes one statement.  An error goes to the program's handler if it has one. -/
def executePass (e : Engine) : MachineM Unit := do
  try step e
  catch
    | .error err => onSession (Session.trapError err)
    | .interrupt stop =>
      modifyConsole fun c => c.note .stopSound
      handleBreak stop
    | s => throw s

/-- Takes one numbered line.  A break ends the offering of numbers. -/
def autoPass : MachineM Unit := do
  try autoStep
  catch
    | .interrupt _ =>
      modifyConsole fun c => c.note .stopSound
      modifySession fun s => { s with autoActive := false, mode := .direct }
    | s => throw s

/-- Takes one line at the direct prompt; false if the operator broke it off. -/
def directPass : MachineM Bool := do
  let (offered, cursor) ← showPrompt
  let line ← try pure (some (← readLine offered cursor))
    catch
      | .interrupt _ =>
        modifyConsole fun c => c.note .stopSound
        modifySession fun s => { s with prompt := false }
        pure none
      | s => throw s
  match line with
  | none => return false
  | some line =>
    let stored ← storeLine line
    modifySession fun s => { s with prompt := !stored }
    return true

/-- One pass of the loop; true once execution has come back to direct mode. -/
def pass (e : Engine) : MachineM Bool := do
  match (← get).session.mode with
  | .executing =>
    executePass e
    switchMode true
  | .autoNumbering =>
    autoPass
    switchMode false
  | .direct => if ← directPass then switchMode false else return false

/-! ## Loops -/

end Machine

/-- An operation with a bound on its passes: `none` when the bound is used up. -/
abbrev LoopM := ExceptT Signal (StateT Machine Option)

namespace Machine

/-- An operation without loops. -/
def once {α : Type} (f : MachineM α) : LoopM α := fun m =>
  match f m with
  | .ok a m => some (.ok a, m)
  | .error s m => some (.error s, m)

/-- The bound is used up. -/
def exhausted {α : Type} : LoopM α := fun _ => none

/-- Passes until execution has come back to direct mode, or a signal. -/
def settle (e : Engine) : Nat → LoopM Unit
  | 0 => exhausted
  | fuel + 1 => do
    if ← once (pass e) then return () else settle e fuel

/-- Passes until execution has come back to direct mode.  Errors, breaks and faults are reported and
end the cycle. -/
def cycle (e : Engine) (fuel : Nat) : LoopM Unit := do
  try settle e fuel
  catch s => once (report s)

/-- Whether a machine that leaves when idle has nothing left to do. -/
def isIdle (m : Machine) : Bool :=
  m.config.quit && m.session.mode = .direct && !m.console.inputPending

/-- Cycles until the machine is idle, or a signal. -/
def cycles (e : Engine) (bound : Nat) : Nat → LoopM Unit
  | 0 => exhausted
  | fuel + 1 => do
    if (← get).isIdle then return ()
    cycle e bound
    cycles e bound fuel

/-- Saves the session, then releases files and console. -/
def shutdown : MachineM Unit := do
  modify fun m =>
    { m with
      disk := Snapshot.save m.disk m.session m.config.stateFile
      session := { m.session with files := m.session.files.closeAll }
      console := m.console.note .close }

/-- Cycles, then shuts down whatever the outcome.  Leaving is no failure. -/
def mainLoop (e : Engine) (bound : Nat) : LoopM Unit := do
  let outcome ← try
      cycles e bound bound
      pure (Except.ok ())
    catch s => pure (Except.error s)
  if outcome matches .error .exit then
    if (← get).config.wait then once (modifyConsole fun c => c.note .waitKey)
  once shutdown
  match outcome with
  | .ok () => return ()
  | .error .exit => return ()
  | .error s => throw s

/-- The name and version shown at the start. -/
def greeting : String := "BASIC 0.1.0"

/-- Loads the configured program.  If that fails the reason is shown and the old program stays. -/
def loadProgram (name : String) : MachineM Unit := do
  let m ← get
  let program := match m.disk.read name with
    | .ok bytes => Program.load bytes
    | .error fault => .error fault.error
  match program with
  | .ok program => modifySession fun s => { s with program }
  | .error e => writeMessage e.text none

/-- Makes the program run from its start. -/
def startProgram : MachineM Unit := do
  onSession (Session.jump none)
  modifySession fun s => { s with mode := .executing }
  modifyConsole fun c => c.note .resetCursor

/-- Starts a session as configured. -/
def start (e : Engine) (bound : Nat) : LoopM Unit := do
  let config := (← get).config
  if let some name := config.program then once (loadProgram name)
  if config.greeting && !config.run && config.exec.isNone then once (writeLine greeting)
  if let some command := config.exec then
    let stored ← try pure (some (← once (storeLine command)))
      catch
        | .error err => once do
          handleError err
          return none
        | s => throw s
    if let some stored := stored then
      once (modifySession fun s => { s with prompt := !stored })
      if (← get).session.mode = .executing then cycle e bound
  if config.run then once startProgram
  mainLoop e bound

/-- A session without history. -/
def freshSession (config : Config) : Session :=
  { autoIncrement := config.autoIncrement, auto := { increment := config.autoIncrement } }

/-- A machine that is about to start. -/
def new (config : Config) (console : Console) (disk : Disk) (feed : EventFeed) (clock : Int64) :
    Machine :=
  { session := freshSession config, console, disk, clock, feed, config }

/-- Takes up the saved session if that is configured and possible; true if it was. -/
def resumeSaved : MachineM Bool := do
  let m ← get
  if !m.config.resume then return false
  let (saved, disk) := Snapshot.load m.disk m.config.stateFile
  set { m with disk }
  match saved with
  | .error _ => return false
  | .ok session =>
    let prompt := decide (session.mode = .executing) && session.prompt
    modify fun m => { m with session := { session with prompt } }
    return true

/-- Takes up the saved session, or starts a new one. -/
def launch (e : Engine) (bound : Nat) : LoopM Unit := do
  if ← once resumeSaved then mainLoop e bound else start e bound

/-- Forgets the saved session and what the current one knew. -/
def reset : MachineM Unit :=
  modify fun m =>
    { m with
      disk := Snapshot.delete m.disk m.config.stateFile
      session := freshSession m.config
      config := { m.config with resume := false } }

/-- Launches until the end is not a reset. -/
def launches (e : Engine) (bound : Nat) : Nat → LoopM Unit
  | 0 => exhausted
  | fuel + 1 => do
    let again ← try
        launch e bound
        pure false
      catch
        | .reset => once do
          reset
          return true
        | s => throw s
    if again then launches e bound fuel else return ()

/-- Runs a machine from its start to its shutdown. -/
def run (e : Engine) (bound : Nat) : LoopM Unit :=
  launches e bound bound

/-- A bound that is large enough for a machine whose feed and input are finite: every pass polls for
events, takes a line, or fails to write. -/
def passBound (m : Machine) : Nat :=
  m.feed.limit + m.console.input.length + m.console.failing.length + 8

end Machine

end LineBasic

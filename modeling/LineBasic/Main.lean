import LineBasic.CommandLine
import LineBasic.Machine.Loop

/-!
# The program

A session on standard input and output.  The files of the current directory are taken into the session's
disk at the start; those that it changed are written back at the end.

A pass that finds no line to read is run again once the operator has typed one, so the prompt is shown
before the line is waited for.
-/

namespace LineBasic

/-- Shows what a transcript records, oldest event first. -/
def showEvents (events : List ConsoleEvent) : IO Unit := do
  let out ← IO.getStdout
  for e in events do
    match e with
    | .out text => out.putStr text
    | .waitKey =>
      out.putStr "Press Enter to close\n"
      out.flush
      let _ ← (← IO.getStdin).getLine
    | _ => pure ()
  out.flush

/-- Shows what a machine has recorded, and forgets it. -/
def flushTranscript (m : Machine) : IO Machine := do
  showEvents m.console.transcript.reverse
  return { m with console := { m.console with transcript := [] } }

/-- The text that was offered to an operator who was not there, and the number of events up to then. -/
def unanswered? (m : Machine) : Option (String × Nat) :=
  match m.console.transcript.dropWhile fun e => !(e matches .read ..) with
  | .read offered _ .ended :: before => some (offered, before.length + 1)
  | _ => none

/-- A line of the operator; none at the end of input. -/
def askLine (offered : String) : IO (List Reply) := do
  (← IO.getStdout).putStr offered
  (← IO.getStdout).flush
  let line ← (← IO.getStdin).getLine
  return if line.isEmpty then [] else [.typed (String.ofList (line.toList.filter (· ≠ '\n')))]

/-- One pass of the loop: true once execution has come back to direct mode, or a signal. -/
def passOnce (m : Machine) : IO (Except Signal Bool × Machine) := do
  let m := { m with clock := Int64.ofNat (← IO.monoMsNow) }
  let outcome (m : Machine) : Except Signal Bool × Machine :=
    match Machine.pass .standard m with
    | .ok settled m => (.ok settled, m)
    | .error s m => (.error s, m)
  let (r, after) := outcome m
  match unanswered? after with
  | none => return (r, ← flushTranscript after)
  | some (offered, seen) =>
    showEvents (after.console.transcript.reverse.take seen)
    let (r, after) := outcome { m with console := { m.console with input := ← askLine offered } }
    let fresh := after.console.transcript.take (after.console.transcript.length - seen)
    return (r, ← flushTranscript { after with console := { after.console with transcript := fresh } })

/-- Passes until execution has come back to direct mode; errors, breaks and faults are reported. -/
partial def cycleOnce (m : Machine) : IO (Except Signal Unit × Machine) := do
  match ← passOnce m with
  | (.ok true, m) => return (.ok (), m)
  | (.ok false, m) => cycleOnce m
  | (.error s, m) =>
    match Machine.report s m with
    | .ok _ m => return (.ok (), ← flushTranscript m)
    | .error s m => return (.error s, ← flushTranscript m)

/-- Cycles until the machine is idle or a signal asks to leave. -/
partial def cycleAll (m : Machine) : IO (Except Signal Unit × Machine) := do
  if m.isIdle then return (.ok (), m)
  match ← cycleOnce m with
  | (.ok (), m) => cycleAll m
  | r => return r

/-- Runs an operation and shows what it recorded. -/
def perform {α : Type} (f : MachineM α) (m : Machine) : IO (Except Signal α × Machine) := do
  match f m with
  | .ok a m => return (.ok a, ← flushTranscript m)
  | .error s m => return (.error s, ← flushTranscript m)

/-- Cycles, then shuts down. -/
def converse (m : Machine) : IO (Except Signal Unit × Machine) := do
  let (r, m) ← cycleAll m
  let left := r matches .error .exit
  let m := if left && m.config.wait then
      { m with console := m.console.note .waitKey }
    else m
  let (_, m) ← perform Machine.shutdown m
  return (if left then .ok () else r, m)

/-- Enters the configured line and executes it. -/
def enterFirst (command : String) (m : Machine) : IO (Except Signal Unit × Machine) := do
  match ← perform (Machine.storeLine command) m with
  | (.error (.error e), m) => perform (Machine.handleError e) m
  | (.error s, m) => return (.error s, m)
  | (.ok stored, m) =>
    let m := { m with session := { m.session with prompt := !stored } }
    if m.session.mode = .executing then cycleOnce m else return (.ok (), m)

/-- Starts a session as configured. -/
def startSession (m : Machine) : IO (Except Signal Unit × Machine) := do
  let config := m.config
  let opening : MachineM Unit := do
    if let some name := config.program then Machine.loadProgram name
    if config.greeting && !config.run && config.exec.isNone then Machine.writeLine Machine.greeting
  let (_, m) ← perform opening m
  let (r, m) ← match config.exec with
    | some command => enterFirst command m
    | none => pure (.ok (), m)
  match r with
  | .error s => return (.error s, m)
  | .ok () =>
    let (_, m) ← perform (if config.run then Machine.startProgram else pure ()) m
    converse m

/-- Runs sessions until the end is not a reset. -/
partial def runSessions (m : Machine) : IO (Except Signal Unit × Machine) := do
  let (resumed, m) ← perform Machine.resumeSaved m
  let (r, m) ← if resumed matches .ok true then converse m else startSession m
  match r with
  | .error .reset =>
    let (_, m) ← perform Machine.reset m
    runSessions m
  | r => return (r, m)

/-- The files of the current directory. -/
def readDisk : IO Disk := do
  let mut disk : Disk := {}
  for e in ← (← IO.currentDir).readDir do
    if !(← e.path.isDir) then
      let bytes ← try IO.FS.readBinFile e.path catch _ => continue
      disk := (disk.write e.fileName bytes.toList).toOption.getD disk
  return disk

/-- Writes the files that a session has changed. -/
def writeDisk (before after : Disk) : IO Unit := do
  for (name, e) in after.top do
    if let .file id := e then
      if (before.read name).toOption ≠ some (after.contents id) then
        IO.FS.writeBinFile name (after.contents id).toByteArray
  for (name, _) in before.top do
    if !after.top.any (·.1 = name) then IO.FS.removeFile name

/-- What `--help` shows. -/
def usage : List String :=
  ["Tokenized BASIC with resumable sessions",
   "",
   "Usage: basic [OPTIONS] [PROGRAM]",
   "",
   "Options:",
   "  -r, --run                 Run the program after loading it",
   "  -e, --exec <COMMAND>      Command line to execute first",
   "      --resume              Continue the session saved in the state file",
   "  -q, --quit                Quit when idle and no input is waiting",
   "  -w, --wait                Wait for a key before exiting",
   "      --state-file <FILE>   Where to save the session on exit",
   "      --auto-increment <N>  Default AUTO increment [default: 10]",
   "      --no-greeting         Skip the greeting",
   "  -h, --help                Print help",
   "  -V, --version             Print version"]

/-- A feed without end on which nothing happens. -/
def quietFeed : EventFeed :=
  { limit := 0x8000000000000000 }

/-- Runs the program with its arguments. -/
def runMain (arguments : List String) : IO UInt32 := do
  match CommandLine.parse arguments with
  | .error e =>
    (← IO.getStderr).putStrLn e.message
    return 2
  | .ok .help =>
    usage.forM IO.println
    return 0
  | .ok .version =>
    IO.println "basic 0.1.0"
    return 0
  | .ok (.start config) =>
    let disk ← readDisk
    let (_, m) ← runSessions (.new config {} disk quietFeed 0)
    writeDisk disk m.disk
    return 0

end LineBasic

/-- The program, from its arguments to its exit code. -/
def main (arguments : List String) : IO UInt32 :=
  LineBasic.runMain arguments

import LineBasic.Session.Basic

/-!
# Flow of control

Where the session goes on: jumps, subroutines, `CONT`, and the dispatch of events to their handlers.
-/

namespace LineBasic.Session

/-- Goes on in the program or on the direct line, at an offset or, without one, at the end. -/
def setPointer (s : Session) (inProgram : Bool) (pos : Option Nat) : Session :=
  let s := { s with inProgram }
  s.moveTo (min (pos.getD s.stream.bytes.length) s.stream.bytes.length)

/-- Goes on in the program at a line or, without one, at its start. -/
def jump (line : Option UInt16) : SessionM Unit := do
  let s ← get
  match line with
  | none => set (s.setPointer true (some 0))
  | some number =>
    match s.program.offsetOf? number with
    | some offset => set (s.setPointer true (some offset))
    | none => throw (.of .undefinedLineNumber)

/-- Calls the subroutine at a line. -/
def call (line : UInt16) (handler : Option EventKind) : SessionM Unit := do
  let s ← get
  if !s.program.contains line then throw (.of .undefinedLineNumber)
  match s.gosub.push { statement := s.stream.pos, inProgram := s.inProgram, handler } with
  | .error e => throw e
  | .ok gosub =>
    set { s with gosub }
    jump (some line)

/-- Returns from a subroutine, to its caller or to a line.  The event whose handler it was can be
dispatched again. -/
def «return» (line : Option UInt16) : SessionM Unit := do
  let s ← get
  match s.gosub.pop? with
  | none => throw (.of .returnWithoutGosub)
  | some (frame, gosub) =>
    let events := match frame.handler with
      | some kind => s.events.release kind
      | none => s.events
    set { s with gosub, events }
    match line with
    | some _ => jump line
    | none => modify fun s => s.setPointer frame.inProgram (some frame.statement)

/-- Goes on where the program was stopped. -/
def cont : SessionM Unit := do
  let s ← get
  match s.stop with
  | some pos => set (s.setPointer true (some pos))
  | none => throw (.of .cantContinue)

/-- Changes the state of a trap. -/
def setEventState (kind : EventKind) (state : EventState) (s : Session) : Session :=
  { s with events := s.events.modify kind fun d => { d with state } }

/-- Dispatches at most one event: calls its handler as a subroutine.  If that fails the event is
forgotten and its trap stands as before. -/
def dispatchEvent : SessionM Unit := do
  let s ← get
  if s.events.suspended || !s.inProgram then return ()
  match s.events.nextReady? with
  | none => return ()
  | some (kind, line) =>
    let previous := ((s.events.get? kind).map EventDescriptor.state).getD .idle
    set { s with
      events := s.events.modify kind fun d => { d with triggered := false, state := .dispatching } }
    try
      call line (some kind)
      modify (setEventState kind .handlerActive)
    catch e =>
      modify (setEventState kind previous)
      throw e

end LineBasic.Session

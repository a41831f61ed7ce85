import LineBasic.Session.Flow

/-!
# Error traps

`ON ERROR GOTO` sends errors to a handler in the program, and `RESUME` goes back from it.  While a
handler runs, errors are not trapped and events are not dispatched.
-/

namespace LineBasic

/-- Where `RESUME` goes. -/
inductive ResumeTarget where
  /-- The statement that failed. -/
  | statement
  /-- The statement after it. -/
  | next
  | line (number : UInt16)
  deriving DecidableEq, Repr

namespace Session

/-- Where an error arose: its own place or, without one, where the code stands. -/
def locate (s : Session) (e : BasicError) : BasicError :=
  match e.location with
  | some _ => e
  | none => e.located (if s.inProgram then .program (s.program.pos - 1) else .direct)

/-- Sends an error to the handler, or hands it back if there is none or it already runs.  `ERR` and
`ERL` tell of the error in any case. -/
def trapError (e : BasicError) : SessionM Unit := do
  let e := (← get).locate e
  modify fun s => { s with trap := { s.trap with err := e.code.number, location := e.location } }
  let s ← get
  match s.trap.handler, s.trap.active with
  | some line, none =>
    jump (some line)
    modify fun t =>
      { t with
        trap := { t.trap with active := some ⟨s.statement, s.inProgram⟩ }
        events := { t.events with suspended := true } }
  | _, _ => throw e

/-- Installs the handler at a line; line 0 or none takes it away, which inside a handler raises the
error again. -/
def setErrorHandler (line : Option UInt16) : SessionM Unit := do
  modify fun s => { s with trap := { s.trap with handler := line.filter (· ≠ 0) } }
  let s ← get
  if s.trap.handler.isNone && s.trap.isHandling then
    throw { code := ⟨s.trap.err⟩, location := s.trap.location }

/-- Leaves the handler. -/
def resume (target : ResumeTarget) : SessionM Unit := do
  let s ← get
  match s.trap.active with
  | none => throw (.of .resumeWithoutError)
  | some context =>
    set { s with
      trap := { s.trap with err := 0, active := none }
      events := { s.events with suspended := false } }
    match target with
    | .statement => modify fun s => s.setPointer context.inProgram (some context.statement)
    | .next =>
      modify fun s => s.setPointer context.inProgram (some context.statement)
      scan (Scan.forwardTo Token.statementEnds false)
    | .line number => jump (some number)

end Session

end LineBasic

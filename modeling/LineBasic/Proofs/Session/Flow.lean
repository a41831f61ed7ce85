import LineBasic.Proofs.Code.Scanner
import LineBasic.Proofs.Program.Image
import LineBasic.Session.Trap

/-!
# Where a session goes on

What the operations of flow control give on a session, in closed form.

* `Session.place`: the code that runs, and where.
* `jump_apply`, `call_apply`, `return_apply`, `cont_apply`, `resume_apply`: jumps of all kinds.
* `setErrorHandler_apply`, `trapError_apply`, `trapError_eq_ok_iff`: how errors are trapped, and
  what is saved of them.
-/

namespace LineBasic

namespace Program

/-- Exactly the lines of a program have an offset. -/
theorem isSome_offsetOf? (p : Program) (number : UInt16) :
    (p.offsetOf? number).isSome = p.contains number := by
  cases hoffset : p.offsetOf? number with
  | none =>
    have hnone := offsetFrom_eq_none_iff.1 hoffset
    have hfind : p.find? number = none := by
      rw [find?, List.find?_eq_none]
      intro l hl
      simpa using hnone l hl
    rw [contains, hfind]
    rfl
  | some offset =>
    obtain ⟨before, l, after, hlines, hnumber, -⟩ := offsetFrom_eq_some_iff.1 hoffset
    have hmem : l ∈ p.lines := by simp [hlines]
    have hfind : (p.find? number).isSome = true := by
      rw [find?, List.find?_isSome]
      exact ⟨l, hmem, by simpa using hnumber⟩
    rw [contains, hfind]
    rfl

end Program

namespace Session

/-! ## Places -/

/-- Which code runs, and where: what has to be saved to come back here. -/
def place (s : Session) : ResumeContext :=
  ⟨s.stream.pos, s.inProgram⟩

/-- The image or the direct line. -/
def code (s : Session) (inProgram : Bool) : List UInt8 :=
  if inProgram then s.program.image else s.direct.bytes

theorem stream_of_inProgram {s : Session} (h : s.inProgram = true) : s.stream = s.program.stream :=
  if_pos h

theorem stream_bytes (s : Session) : s.stream.bytes = s.code s.inProgram := by
  unfold stream code
  cases s.inProgram <;> rfl

theorem stream_rest (s : Session) : s.stream.rest = (s.code s.inProgram).drop s.stream.pos := by
  rw [CodeStream.rest, stream_bytes]

/-- Execution goes to a place, if the code reaches that far. -/
theorem place_setPointer {s : Session} {place : ResumeContext}
    (hle : place.statement ≤ (s.code place.inProgram).length) :
    (s.setPointer place.inProgram (some place.statement)).place = place := by
  obtain ⟨pos, inProgram⟩ := place
  have hmin : min pos (s.code inProgram).length = pos := Nat.min_eq_left hle
  cases inProgram with
  | true => exact congrArg (ResumeContext.mk · true) hmin
  | false => exact congrArg (ResumeContext.mk · false) hmin

/-! ## Jumps -/

/-- Where a jump to a line, or to the start of the program, leads. -/
def target? (s : Session) : Option UInt16 → Option Nat
  | none => some 0
  | some number => s.program.offsetOf? number

theorem jump_apply (line : Option UInt16) (s : Session) :
    jump line s =
      match s.target? line with
      | some pos => .ok () (s.setPointer true (some pos))
      | none => .error (.of .undefinedLineNumber) s := by
  cases line with
  | none => rfl
  | some number =>
    simp only [jump, Effect.bind_apply, Effect.get_apply, target?]
    cases s.program.offsetOf? number <;> rfl

/-- A call fails without a trace, or saves where it was and goes to a line. -/
theorem call_apply (line : UInt16) (handler : Option EventKind) (s : Session) :
    (∃ e, call line handler s = .error e s) ∨
      ∃ gosub pos, s.gosub.push ⟨s.stream.pos, s.inProgram, handler⟩ = .ok gosub ∧
        s.program.offsetOf? line = some pos ∧
        call line handler s = .ok () ({ s with gosub }.setPointer true (some pos)) := by
  simp only [call, Effect.bind_apply, Effect.get_apply, Effect.ite_apply]
  cases hoffset : s.program.offsetOf? line with
  | none =>
    have hcontains : s.program.contains line = false := by
      rw [← Program.isSome_offsetOf?, hoffset]
      rfl
    exact .inl ⟨.of .undefinedLineNumber, by simp [hcontains]⟩
  | some pos =>
    have hcontains : s.program.contains line = true := by
      rw [← Program.isSome_offsetOf?, hoffset]
      rfl
    cases hpush : s.gosub.push ⟨s.stream.pos, s.inProgram, handler⟩ with
    | error e => exact .inl ⟨e, by simp [hcontains]⟩
    | ok gosub =>
      refine .inr ⟨gosub, pos, rfl, rfl, ?_⟩
      simp [hcontains, jump_apply, target?, hoffset]

/-- A session whose last subroutine has returned. -/
def popped (s : Session) (frame : GosubFrame) (rest : List GosubFrame) : Session :=
  { s with
    gosub := { s.gosub with items := rest }
    events := match frame.handler with
      | some kind => s.events.release kind
      | none => s.events }

theorem return_apply (line : Option UInt16) (s : Session) :
    Session.return line s =
      match s.gosub.items with
      | [] => .error (.of .returnWithoutGosub) s
      | frame :: rest =>
        match line with
        | some _ => jump line (s.popped frame rest)
        | none => .ok () ((s.popped frame rest).setPointer frame.inProgram (some frame.statement)) := by
  simp only [Session.return, Effect.bind_apply, Effect.get_apply, BoundedStack.pop?]
  cases s.gosub.items with
  | nil => rfl
  | cons frame rest => cases line <;> rfl

theorem cont_apply (s : Session) :
    cont s =
      match s.stop with
      | some pos => .ok () (s.setPointer true (some pos))
      | none => .error (.of .cantContinue) s := by
  simp only [cont, Effect.bind_apply, Effect.get_apply]
  cases s.stop <;> rfl

/-! ## Scanning -/

theorem scan_apply {α : Type} (p : Scanner α) (s : Session) :
    Session.scan p s =
      match p s.stream.rest with
      | .ok a rest => .ok a (s.moveTo (s.stream.pos + (s.stream.rest.length - rest.length)))
      | .error e rest => .error e (s.moveTo (s.stream.pos + (s.stream.rest.length - rest.length))) := by
  simp only [Session.scan, CodeStream.scan, CodeStream.advance]
  cases p s.stream.rest <;> rfl

/-! ## Error traps -/

/-- A session whose error handler has been left. -/
def resumed (s : Session) : Session :=
  { s with
    trap := { s.trap with err := 0, active := none }
    events := { s.events with suspended := false } }

/-- A session that goes on after the next end of a statement. -/
def skipped (s : Session) : Session :=
  s.moveTo (s.stream.pos +
    (s.stream.rest.length - (Scan.skipTo Token.statementEnds false false false s.stream.rest).length))

theorem resume_apply (target : ResumeTarget) (s : Session) :
    resume target s =
      match s.trap.active with
      | none => .error (.of .resumeWithoutError) s
      | some context =>
        match target with
        | .statement => .ok () (s.resumed.setPointer context.inProgram (some context.statement))
        | .next => .ok () (s.resumed.setPointer context.inProgram (some context.statement)).skipped
        | .line number => jump (some number) s.resumed := by
  simp only [resume, Effect.bind_apply, Effect.get_apply]
  cases s.trap.active with
  | none => rfl
  | some context => cases target <;> rfl

/-- A session whose errors go to a line; to none if that is 0. -/
def withHandler (s : Session) (line : UInt16) : Session :=
  { s with trap := { s.trap with handler := if line = 0 then none else some line } }

/-- To take the handler away while it runs is an error: the one that it handles. -/
theorem setErrorHandler_apply (line : UInt16) (s : Session) :
    setErrorHandler (some line) s =
      if line = 0 ∧ s.trap.isHandling then
        .error { code := ⟨s.trap.err⟩, location := s.trap.location } (s.withHandler line)
      else .ok () (s.withHandler line) := by
  simp only [setErrorHandler, Effect.bind_apply, Effect.modify_apply, Effect.get_apply,
    Effect.ite_apply, withHandler]
  by_cases hline : line = 0
  · simp [hline, Option.filter, ErrorTrap.isHandling]
  · simp [hline, Option.filter]

/-- A session that has taken note of an error. -/
def noted (s : Session) (e : BasicError) : Session :=
  { s with trap := { s.trap with err := e.code.number, location := (s.locate e).location } }

/-- A session that handles an error, from the line at an offset on. -/
def handling (s : Session) (offset : Nat) : Session :=
  { s.setPointer true (some offset) with
    trap := { s.trap with active := some ⟨s.statement, s.inProgram⟩ }
    events := { s.events with suspended := true } }

theorem code_locate (s : Session) (e : BasicError) : (s.locate e).code = e.code := by
  unfold locate
  split <;> rfl

theorem trapError_apply (e : BasicError) (s : Session) :
    trapError e s =
      match s.trap.handler, s.trap.active with
      | some line, none =>
        match s.program.offsetOf? line with
        | some offset => .ok () ((s.noted e).handling offset)
        | none => .error (.of .undefinedLineNumber) (s.noted e)
      | _, _ => .error (s.locate e) (s.noted e) := by
  have hnoted : { s with trap := { s.trap with
      err := (s.locate e).code.number, location := (s.locate e).location } } = s.noted e := by
    rw [code_locate]
    rfl
  simp only [trapError, Effect.bind_apply, Effect.get_apply, Effect.modify_apply, hnoted]
  cases hhandler : s.trap.handler with
  | none => simp [noted, hhandler]
  | some line =>
    cases hactive : s.trap.active with
    | some context => simp [noted, hhandler, hactive]
    | none =>
      have htarget : (s.noted e).target? (some line) = s.program.offsetOf? line := rfl
      simp only [noted, hhandler, hactive] at htarget ⊢
      simp only [Effect.bind_apply, jump_apply, htarget]
      cases s.program.offsetOf? line <;> rfl

/-- An error is trapped if there is a handler, at a line that exists, and it does not run yet. -/
theorem trapError_eq_ok_iff {e : BasicError} {s t : Session} :
    trapError e s = .ok () t ↔
      ∃ line offset, s.trap.handler = some line ∧ s.trap.active = none ∧
        s.program.offsetOf? line = some offset ∧ t = (s.noted e).handling offset := by
  rw [trapError_apply]
  cases s.trap.handler with
  | none => simp
  | some line =>
    cases s.trap.active with
    | some context => simp
    | none =>
      cases hoffset : s.program.offsetOf? line with
      | none => simp [hoffset]
      | some offset => simp [hoffset, eq_comm]

end Session

end LineBasic

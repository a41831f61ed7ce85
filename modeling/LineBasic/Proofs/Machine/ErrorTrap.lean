import LineBasic.Machine.Loop
import LineBasic.Proofs.Machine.Statement

/-!
# Errors that a program traps

A step of the interpreter looks for events, dispatches one that is due, and runs a statement.  An error in
any of these goes to the handler of `ON ERROR`, which saves where `RESUME` goes back to.

* `trapped_at_statement_iff`: what is saved is the place of the statement that failed, unless the error
  arose before the statement began and the statement before it began elsewhere.
* `trapped_in_handler_iff`: inside a handler an error is not trapped again, unless it is that of a `RESUME` to
  a line that does not exist.
-/

namespace LineBasic

/-- The machine's own statements, with events from anywhere. -/
def Engine.polling (poll : MachineM Unit) : Engine where
  poll
  statement := Machine.statement

/-! ## Loops -/

namespace Loop

variable {α β : Type}

@[simp] theorem bind_apply (x : LoopM α) (f : α → LoopM β) (m : Machine) :
    (x >>= f) m =
      match x m with
      | none => none
      | some (.ok a, m₁) => f a m₁
      | some (.error s, m₁) => some (.error s, m₁) := by
  show Option.bind (x m) _ = _
  cases x m with
  | none => rfl
  | some outcome =>
    obtain ⟨r, m₁⟩ := outcome
    cases r with
    | ok a => rfl
    | error s => rfl

theorem tryCatch_apply (x : LoopM α) (f : Signal → LoopM α) (m : Machine) :
    tryCatch x f m =
      match x m with
      | none => none
      | some (.ok a, m₁) => some (.ok a, m₁)
      | some (.error s, m₁) => f s m₁ := by
  show Option.bind (x m) _ = _
  cases x m with
  | none => rfl
  | some outcome =>
    obtain ⟨r, m₁⟩ := outcome
    cases r with
    | ok a => rfl
    | error s => rfl

@[simp] theorem pure_apply (a : α) (m : Machine) : (pure a : LoopM α) m = some (.ok a, m) := rfl

@[simp] theorem throw_apply (s : Signal) (m : Machine) :
    (throw s : LoopM α) m = some (.error s, m) := rfl

@[simp] theorem get_apply (m : Machine) : (get : LoopM Machine) m = some (.ok m, m) := rfl

end Loop

namespace Machine

/-! ## Steps -/

/-- What a step does before its statement. -/
def prepare (poll : MachineM Unit) : MachineM Unit := do
  poll
  onSession Session.dispatchEvent

/-- Where the statement of a step begins: the one that runs or, if the step fails before that, the one
that was about to. -/
def stepPlace (poll : MachineM Unit) (m : Machine) : ResumeContext :=
  match prepare poll m with
  | .ok _ m₁ => m₁.session.place
  | .error _ m₁ => m₁.session.place

/-- A step, by the outcome of its parts. -/
theorem step_apply (poll : MachineM Unit) (m : Machine) :
    step (.polling poll) m =
      match prepare poll m with
      | .ok _ m₁ =>
        match statement m₁ with
        | .ok true m₂ => .ok () m₂
        | .ok false m₂ => .ok () { m₂ with session := m₂.session.endExecution }
        | .error signal m₂ => .error signal m₂
      | .error signal m₁ => .error signal m₁ := by
  have hstep : step (.polling poll) = (do
      prepare poll
      if !(← statement) then modifySession Session.endExecution) := by
    simp only [step, prepare, Engine.polling, bind_assoc]
  rw [hstep, Effect.bind_apply]
  cases prepare poll m with
  | error signal m₁ => rfl
  | ok a m₁ =>
    simp only [Effect.bind_apply]
    cases statement m₁ with
    | error signal m₂ => rfl
    | ok goesOn m₂ => cases goesOn <;> rfl

/-- An error of a step is trapped by the session, or is passed on with its place. -/
theorem executePass_of_error {e : Engine} {m m' : Machine} {err : BasicError}
    (h : step e m = .error (.error err) m') :
    executePass e m = onSession (Session.trapError err) m' := by
  rw [executePass, Effect.tryCatch_of_error h]

/-! ## Runs -/

/-- The first passes of the loop. -/
def passes (e : Engine) : Nat → MachineM Unit
  | 0 => pure ()
  | n + 1 => do
    let _ ← pass e
    passes e n

/-- Whether a test succeeds after some passes. -/
def holdsAfter (e : Engine) (n : Nat) (m : Machine) (test : Machine → Bool) : Bool :=
  match passes e n m with
  | .ok _ m' => test m'
  | .error _ _ => false

theorem exists_of_holdsAfter {e : Engine} {n : Nat} {m : Machine} {test : Machine → Bool}
    (h : holdsAfter e n m test = true) : ∃ m', passes e n m = .ok () m' ∧ test m' = true := by
  unfold holdsAfter at h
  split at h
  · exact ⟨_, by assumption, h⟩
  · cases h

/-- What a step saves for `RESUME`, if its error is trapped. -/
def saved? (poll : MachineM Unit) (m : Machine) : Option ResumeContext :=
  match step (.polling poll) m with
  | .error (.error err) m' =>
    match Session.trapError err m'.session with
    | .ok _ s => s.trap.active
    | .error _ _ => none
  | _ => none

theorem exists_of_saved? {poll : MachineM Unit} {m : Machine} {context : ResumeContext}
    (h : saved? poll m = some context) :
    ∃ err m' s, step (.polling poll) m = .error (.error err) m' ∧
      Session.trapError err m'.session = .ok () s ∧ s.trap.active = some context := by
  unfold saved? at h
  split at h
  · split at h
    · exact ⟨_, _, _, by assumption, by assumption, h⟩
    · cases h
  · cases h

/-- A machine with a program and a typed line to come, at the direct prompt. -/
def typing (program line : String) (triggers : List (Nat × EventKind)) : Machine where
  session := { program := (Program.load (Text.utf8 program)).toOption.getD .empty }
  console := { input := [.typed line] }
  feed := { triggers }

/-- The program `10 ERROR 5`, `100 ERROR 6`. -/
def erring : Program where
  lines := [⟨10, [0xA7, 0x20, 0x16]⟩, ⟨100, [0xA7, 0x20, 0x17]⟩]
  pos := 0
  image := Program.render 0 [⟨10, [0xA7, 0x20, 0x16]⟩, ⟨100, [0xA7, 0x20, 0x17]⟩]
  ascending := by simp [Program.Ascending]
  linked := rfl
  fits := by decide

/-- A machine that runs this program from a place on. -/
def running (pos : Nat) (trap : ErrorTrap) : Machine where
  session :=
    { program := { erring with pos }
      inProgram := true
      mode := .executing
      trap
      events := { EventTable.initial with suspended := trap.isHandling } }

/-! ## Where `RESUME` goes -/

/-- What a trapped error saves: where the last statement began, in the code that runs now. -/
theorem active_of_trapError {e : BasicError} {s t : Session} (h : Session.trapError e s = .ok () t) :
    t.trap.active = some ⟨s.statement, s.inProgram⟩ := by
  obtain ⟨line, offset, -, -, -, rfl⟩ := Session.trapError_eq_ok_iff.1 h
  rfl

/-- `RESUME` goes to the place that was saved, if the code reaches that far. -/
theorem resume_statement {t : Session} {context : ResumeContext}
    (hactive : t.trap.active = some context) :
    ∃ t', Session.resume .statement t = .ok () t' ∧
      (context.statement ≤ (t.code context.inProgram).length → t'.place = context) := by
  rw [Session.resume_apply, hactive]
  exact ⟨_, rfl, fun hle => Session.place_setPointer (s := t.resumed) hle⟩

/-- If an error in a step is trapped, `RESUME` goes back to the statement of that step, except if the
error arose before the statement and the last statement began elsewhere: then it goes to the offset of that
one. -/
theorem trapped_at_statement_iff {poll : MachineM Unit} {m m' : Machine} {err : BasicError}
    {s : Session} (hstep : step (.polling poll) m = .error (.error err) m')
    (htrap : Session.trapError err m'.session = .ok () s) :
    executePass (.polling poll) m = .ok () { m' with session := s } ∧
      s.trap.active = some ⟨m'.session.statement, m'.session.inProgram⟩ ∧
      (s.trap.active = some (stepPlace poll m) ↔
        (∃ m₁, prepare poll m = .ok () m₁) ∨ m'.session.statement = m'.session.stream.pos) ∧
      ∀ t : Session, t.trap.active = s.trap.active →
        ∃ t', Session.resume .statement t = .ok () t' ∧
          (m'.session.statement ≤ (t.code m'.session.inProgram).length →
            some t'.place = s.trap.active) := by
  have hactive := active_of_trapError htrap
  refine ⟨?_, hactive, ?_, ?_⟩
  · rw [executePass_of_error hstep, onSession, htrap]
  · rw [step_apply] at hstep
    cases hprepare : prepare poll m with
    | error signal m₁ =>
      rw [hprepare] at hstep
      cases hstep
      simp [stepPlace, hprepare, hactive, Session.place]
    | ok a m₁ =>
      simp only [hprepare] at hstep
      have hfail : statement m₁ = .error (.error err) m' := by
        split at hstep <;> cases hstep
        assumption
      obtain ⟨hstatement, hinProgram⟩ := place_of_statement_error hfail
      simp [stepPlace, hprepare, hactive, Session.place, hstatement, hinProgram]
  · intro t ht
    rw [hactive] at ht ⊢
    obtain ⟨t', hresume, hplace⟩ := resume_statement ht
    exact ⟨t', hresume, fun hle => congrArg some (hplace hle)⟩

/-- Line 10 runs, and line 100 handles its error. -/
def failing : Machine :=
  running 0 { handler := some 100 }

/-- The error of line 10 is trapped with the place of line 10. -/
theorem error_saves_statement :
    ∃ m' s, step (.polling (pure ())) failing = .error (.raise ⟨5⟩) m' ∧
      Session.trapError (.of ⟨5⟩) m'.session = .ok () s ∧
      s.trap.active = some (stepPlace (pure ()) failing) ∧
      ∃ t, Session.resume .statement s = .ok () t ∧ some t.place = s.trap.active := by
  have hprepare : prepare (pure ()) failing = .ok () failing := rfl
  have hstep : step (.polling (pure ())) failing =
      .error (.raise ⟨5⟩) (failing.reading 8 failing.console) := rfl
  have htrap : Session.trapError (.of ⟨5⟩) (failing.reading 8 failing.console).session =
      .ok () (((failing.reading 8 failing.console).session.noted (.of ⟨5⟩)).handling 8) := rfl
  obtain ⟨-, -, hiff, hresume⟩ := trapped_at_statement_iff hstep htrap
  obtain ⟨t, ht, hplace⟩ := hresume _ rfl
  exact ⟨_, _, hstep, htrap, hiff.2 (.inl ⟨failing, hprepare⟩), t, ht, hplace (Nat.zero_le _)⟩

/-- A key is pressed that has a handler at a line that does not exist. -/
def keyPressed : Machine :=
  typing "10 END\n100 END" "ON ERROR GOTO 100:ON KEY(1) GOSUB 500:KEY(1) ON:GOTO 10" [(5, .key 1)]

/-- The error of the dispatch is trapped, but `RESUME` would go to the offset of `GOTO 10` in the direct
line, taken as one of the program. -/
theorem dispatch_error_saves_other_place :
    ∃ m err m' s, passes .standard 5 keyPressed = .ok () m ∧
      step (.polling poll) m = .error (.error err) m' ∧
      Session.trapError err m'.session = .ok () s ∧
      stepPlace poll m = ⟨0, true⟩ ∧ s.trap.active = some ⟨29, true⟩ := by
  obtain ⟨m, hm, htest⟩ := @exists_of_holdsAfter .standard 5 keyPressed
    (fun m => stepPlace poll m = ⟨0, true⟩ ∧ saved? poll m = some ⟨29, true⟩) (by decide +kernel)
  obtain ⟨hplace, hsaved⟩ := of_decide_eq_true htest
  obtain ⟨err, m', s, hstep, htrap, hactive⟩ := exists_of_saved? hsaved
  exact ⟨m, err, m', s, hm, hstep, htrap, hplace, hactive⟩

/-! ## Errors inside a handler -/

/-- A `RESUME` to a line that does not exist comes next, and there is a handler to go to. -/
def ResumesNowhere (m : Machine) : Prop :=
  ∃ line handler, m.Upcoming (.resume (.line line)) ∧ m.session.program.offsetOf? line = none ∧
    m.session.trap.handler = some handler ∧ (m.session.program.offsetOf? handler).isSome

/-- `RESUME` to a line that does not exist has left the handler when it fails. -/
theorem execute_resume_missing {m : Machine} {line : UInt16} {context : ResumeContext}
    (hactive : m.session.trap.active = some context)
    (hline : m.session.program.offsetOf? line = none) :
    Statement.execute (.resume (.line line)) m =
      .error (.raise .undefinedLineNumber) { m with session := m.session.resumed } := by
  have hresumed : m.session.resumed.target? (some line) = none := hline
  simp only [Statement.execute, Effect.bind_apply, onSession, Session.resume_apply, hactive,
    Session.jump_apply, hresumed]
  rfl

theorem offsetOf?_reading (m : Machine) (pos : Nat) (console : Console) (line : UInt16) :
    (m.reading pos console).session.program.offsetOf? line = m.session.program.offsetOf? line := by
  simp [reading, Program.offsetOf?]

/-- The error of a `RESUME` to a line that does not exist is trapped again: the handler was left before the
line was looked for. -/
theorem trapError_of_resumesNowhere {m m' : Machine} {context : ResumeContext} {e : BasicError}
    (hactive : m.session.trap.active = some context) (hnowhere : m.ResumesNowhere)
    (hfail : statement m = .error (.error e) m') :
    ∃ offset, Session.trapError e m'.session = .ok () ((m'.session.noted e).handling offset) := by
  obtain ⟨line, handler, hupcoming, hline, hhandler, hoffset⟩ := hnowhere
  obtain ⟨offset, hoffset⟩ := Option.isSome_iff_exists.1 hoffset
  obtain ⟨pos, console, ⟨-, hfault⟩ | ⟨st, hst, hexecute⟩⟩ := statement_error_cases hfail
  · obtain ⟨message, hmessage⟩ := hfault _ hupcoming
    cases hmessage
  · obtain rfl := hst.unique hupcoming
    have hreading : (m.reading pos console).session.trap.active = some context := by
      simpa [reading] using hactive
    rw [execute_resume_missing hreading (by rwa [offsetOf?_reading])] at hexecute
    cases hexecute
    refine ⟨offset, Session.trapError_eq_ok_iff.2 ⟨handler, offset, ?_, rfl, ?_, rfl⟩⟩
    · simpa [reading, Session.resumed] using hhandler
    · rw [← hoffset]
      exact offsetOf?_reading m pos console handler

/-- Inside a handler an error is not trapped. -/
theorem trapError_of_active {e : BasicError} {s : Session} {context : ResumeContext}
    (hactive : s.trap.active = some context) :
    Session.trapError e s = .error (s.locate e) (s.noted e) := by
  rw [Session.trapError_apply, hactive]
  cases s.trap.handler <;> rfl

/-- Without a handler an error is not trapped. -/
theorem trapError_of_unhandled {e : BasicError} {s : Session} (hhandler : s.trap.handler = none) :
    Session.trapError e s = .error (s.locate e) (s.noted e) := by
  rw [Session.trapError_apply, hhandler]

theorem trapError_of_missing {e : BasicError} {s : Session} {line : UInt16}
    (hhandler : s.trap.handler = some line) (hactive : s.trap.active = none)
    (hline : s.program.offsetOf? line = none) :
    Session.trapError e s = .error (.of .undefinedLineNumber) (s.noted e) := by
  rw [Session.trapError_apply, hhandler, hactive]
  simp only [hline]

/-- Any other error inside a handler is handed on. -/
theorem trapError_of_not_resumesNowhere {m m' : Machine} {context : ResumeContext} {e : BasicError}
    (hactive : m.session.trap.active = some context) (hsomewhere : ¬ m.ResumesNowhere)
    (hfail : statement m = .error (.error e) m') :
    ∃ e', e'.code = e.code ∧ Session.trapError e m'.session = .error e' (m'.session.noted e) ∧
      (m'.session.trap.active = some context ∨ m'.session.trap.active = none) := by
  obtain ⟨pos, console, ⟨rfl, -⟩ | ⟨st, hst, hexecute⟩⟩ := statement_error_cases hfail
  · have hreading : (m.reading pos console).session.trap.active = some context := by
      simpa [reading] using hactive
    exact ⟨_, Session.code_locate _ e, trapError_of_active hreading, .inl hreading⟩
  · have hreading : (m.reading pos console).session.trap.active = some context := by
      simpa [reading] using hactive
    obtain (hkept | ⟨hnone, hhandler⟩) | ⟨line, rfl, hline, -⟩ :=
      (Statement.abandoned_of_execute hexecute).trap_cases hreading
    · exact ⟨_, Session.code_locate _ e, trapError_of_active hkept, .inl hkept⟩
    · exact ⟨_, Session.code_locate _ e, trapError_of_unhandled hhandler, .inr hnone⟩
    · -- a `RESUME` to a missing line, but no handler that exists to go to
      rw [execute_resume_missing hreading hline] at hexecute
      cases hexecute
      rw [offsetOf?_reading] at hline
      cases hhandler : m.session.trap.handler with
      | none =>
        refine ⟨_, Session.code_locate _ _, trapError_of_unhandled ?_, .inr rfl⟩
        simpa [reading, Session.resumed] using hhandler
      | some handler =>
        cases hoffset : m.session.program.offsetOf? handler with
        | some offset =>
          exact absurd ⟨line, handler, hst, hline, hhandler, by simp [hoffset]⟩ hsomewhere
        | none =>
          refine ⟨_, rfl, @trapError_of_missing _ _ handler ?_ rfl ?_, .inr rfl⟩
          · simpa [reading, Session.resumed] using hhandler
          · exact (offsetOf?_reading m pos console handler).trans hoffset

/-! ## Reports -/

theorem shows_modifyConsole (f : Console → Console) : Shows (modifyConsole f) :=
  fun m => ⟨f m.console, .inl ⟨(), rfl⟩⟩

/-- A message is shown, and nothing else is done. -/
theorem shows_writeMessage (message : String) (line : Option UInt16) :
    Shows (writeMessage message line) := by
  refine shows_startLine.bind fun _ => ?_
  cases line with
  | none => exact shows_writeLine _
  | some n => exact shows_writeLine _

/-- How a cycle ends with an error: the message is shown and execution is left, or the console fails to
show it. -/
def Reports (m : Machine) (e : BasicError) (outcome : Option (Except Signal Unit × Machine)) : Prop :=
  ∃ console,
    (∃ session, outcome = some (.ok (), { m with console, session }) ∧
      writeMessage e.text (e.line.or (m.session.lineOf? e.location)) m = .ok () { m with console } ∧
      session.mode ≠ .executing ∧ session.trap.active = none) ∨
    outcome = some (.error (.fault "write failed"), { m with console })

theorem endExecution_mode (s : Session) : s.endExecution.mode ≠ .executing := by
  unfold Session.endExecution
  cases s.autoActive <;> simp

/-- Once its message has been shown, an error ends execution, and with it the handler that ran. -/
theorem handleError_of_shown {m : Machine} {e : BasicError} {console : Console}
    (hshown : writeMessage e.text (e.line.or (m.session.lineOf? e.location)) m =
      .ok () { m with console }) :
    ∃ session, handleError e m = .ok () { m with console, session } ∧ session.mode ≠ .executing ∧
      session.trap.active = none := by
  simp only [handleError, Effect.bind_apply, Effect.get_apply, hshown, modifySession_apply]
  refine ⟨_, rfl, ?_⟩
  by_cases hedit : e.isSyntax = true
  · simp only [hedit, if_true]
    split <;> exact ⟨endExecution_mode _, rfl⟩
  · simp only [hedit]
    exact ⟨endExecution_mode _, rfl⟩

/-- An error that is reported ends execution, unless the console fails. -/
theorem reports_report (m : Machine) (e : BasicError) : m.Reports e (once (report (.error e)) m) := by
  obtain ⟨console, ⟨⟨⟩, hshown⟩ | herror⟩ :=
    shows_writeMessage e.text (e.line.or (m.session.lineOf? e.location)) m
  · obtain ⟨session, hhandled, hmode, hactive⟩ := handleError_of_shown hshown
    refine ⟨console, .inl ⟨{ session with prompt := true }, ?_, hshown, hmode, hactive⟩⟩
    simp [once, report, hhandled]
  · refine ⟨console, .inr ?_⟩
    simp [once, report, handleError, herror]

/-- An error that escapes a pass of execution ends the cycle with a report. -/
theorem cycle_of_executePass_error {engine : Engine} {m m' : Machine} {e : BasicError}
    (hmode : m.session.mode = .executing) (h : executePass engine m = .error (.error e) m')
    (fuel : Nat) : cycle engine (fuel + 1) m = once (report (.error e)) m' := by
  have hpass : pass engine m = .error (.error e) m' := by
    simp [pass, hmode, h]
  have hsettle : settle engine (fuel + 1) m = some (.error (.error e), m') := by
    simp only [settle, Loop.bind_apply, once, hpass]
  rw [cycle, Loop.tryCatch_apply, hsettle]

/-- Inside an error handler an error is trapped again exactly if it is that of a `RESUME` to a line that does
not exist.  Any other error is reported, and execution is left. -/
theorem trapped_in_handler_iff {poll : MachineM Unit} {m m₁ m₂ : Machine}
    {context : ResumeContext} {e : BasicError} (hprepare : prepare poll m = .ok () m₁)
    (hactive : m₁.session.trap.active = some context)
    (hfail : statement m₁ = .error (.error e) m₂) :
    ((∃ offset, executePass (.polling poll) m =
      .ok () { m₂ with session := (m₂.session.noted e).handling offset }) ↔ m₁.ResumesNowhere) ∧
    (¬ m₁.ResumesNowhere → ∃ e' m₃, e'.code = e.code ∧
      executePass (.polling poll) m = .error (.error e') m₃ ∧
      m₃.session.statement = m₁.session.stream.pos ∧
      m₃.session.inProgram = m₁.session.inProgram ∧
      (m₃.session.trap.active = some context ∨ m₃.session.trap.active = none) ∧
      (m.session.mode = .executing →
        ∀ fuel, m₃.Reports e' (cycle (.polling poll) (fuel + 1) m))) := by
  have hstep : step (.polling poll) m = .error (.error e) m₂ := by
    rw [step_apply, hprepare]
    simp only [hfail]
  have hpass := executePass_of_error hstep
  have hescapes : ¬ m₁.ResumesNowhere → ∃ e', e'.code = e.code ∧
      executePass (.polling poll) m =
        .error (.error e') { m₂ with session := m₂.session.noted e } ∧
      (m₂.session.trap.active = some context ∨ m₂.session.trap.active = none) := by
    intro hsomewhere
    obtain ⟨e', hcode, htrap, hkept⟩ := trapError_of_not_resumesNowhere hactive hsomewhere hfail
    exact ⟨e', hcode, by rw [hpass, onSession, htrap], hkept⟩
  refine ⟨⟨?_, ?_⟩, ?_⟩
  · rintro ⟨offset, htrapped⟩
    apply Classical.byContradiction
    intro hsomewhere
    obtain ⟨e', -, hescape, -⟩ := hescapes hsomewhere
    simp [htrapped] at hescape
  · intro hnowhere
    obtain ⟨offset, htrap⟩ := trapError_of_resumesNowhere hactive hnowhere hfail
    exact ⟨offset, by rw [hpass, onSession, htrap]⟩
  · intro hsomewhere
    obtain ⟨e', hcode, hescape, hkept⟩ := hescapes hsomewhere
    obtain ⟨hstatement, hinProgram⟩ := place_of_statement_error hfail
    refine ⟨e', _, hcode, hescape, hstatement, hinProgram, hkept, fun hmode fuel => ?_⟩
    rw [cycle_of_executePass_error hmode hescape]
    exact reports_report _ e'

/-- The handler at line 100 runs. -/
def failingHandler : Machine :=
  running 8 { handler := some 100, active := some ⟨0, true⟩ }

/-- It raises an error itself, and that is reported. -/
theorem error_in_handler_reported :
    ∃ e' m₃, e'.code = ⟨6⟩ ∧
      executePass (.polling (pure ())) failingHandler = .error (.error e') m₃ ∧
      ∀ fuel, m₃.Reports e' (cycle (.polling (pure ())) (fuel + 1) failingHandler) := by
  have hprepare : prepare (pure ()) failingHandler = .ok () failingHandler := rfl
  have hactive : failingHandler.session.trap.active = some ⟨0, true⟩ := rfl
  have hfail : statement failingHandler =
      .error (.raise ⟨6⟩) (failingHandler.reading 16 failingHandler.console) := rfl
  have hupcoming : failingHandler.Upcoming (.raise ⟨6⟩) :=
    ⟨[0xA7, 0x20, 0x17, 0, 0, 0], [0, 0, 0], .line 100, rfl, by simp, rfl⟩
  have hsomewhere : ¬ failingHandler.ResumesNowhere := by
    rintro ⟨line, handler, hresume, -⟩
    cases hupcoming.unique hresume
  obtain ⟨-, hescapes⟩ := trapped_in_handler_iff hprepare hactive hfail
  obtain ⟨e', m₃, hcode, hescape, -, -, -, hreports⟩ := hescapes hsomewhere
  exact ⟨e', m₃, hcode, hescape, hreports rfl⟩

/-- The handler resumes at a line that does not exist. -/
def resumingNowhere : Machine :=
  typing "10 RESUME 999" "ON ERROR GOTO 10:ERROR 5" []

/-- Its error is trapped although the handler runs, with the place of the `RESUME` itself. -/
theorem error_in_handler_trapped :
    ∃ m, passes .standard 3 resumingNowhere = .ok () m ∧
      m.session.trap.active = some ⟨9, false⟩ ∧ stepPlace poll m = ⟨0, true⟩ ∧
      saved? poll m = some ⟨0, true⟩ := by
  obtain ⟨m, hm, htest⟩ := @exists_of_holdsAfter .standard 3 resumingNowhere
    (fun m => m.session.trap.active = some ⟨9, false⟩ ∧ stepPlace poll m = ⟨0, true⟩ ∧
      saved? poll m = some ⟨0, true⟩) (by decide +kernel)
  exact ⟨m, hm, of_decide_eq_true htest⟩

end Machine

end LineBasic

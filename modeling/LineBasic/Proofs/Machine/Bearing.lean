import LineBasic.Proofs.Machine.Entry
import LineBasic.Proofs.Machine.Mode
import LineBasic.Proofs.Session.Dispatch

/-!
# Where a machine executes

A machine executes its program or its direct line, and it keeps that place while it does not execute.
Here is what each operation of a cycle does about it.

* `Session.bearing`: the mode, and the place as far as it is not one in the program.
* `Machine.Stays`: operations that stay in the program, or on the direct line.
* `Moment.Proceeds`: all that the operations of a cycle do to the bearing.
-/

namespace LineBasic

open Effect

namespace Session

/-- How a session executes: its mode, and where it is unless in the program. -/
def bearing (s : Session) : Mode × Bool × Bool × CodeStream :=
  (s.mode, s.autoActive, s.inProgram, s.direct)

section Bearing

variable {s s' : Session} (h : s'.bearing = s.bearing)

include h

theorem mode_of_bearing : s'.mode = s.mode :=
  congrArg (fun b => b.1) h

theorem autoActive_of_bearing : s'.autoActive = s.autoActive :=
  congrArg (fun b => b.2.1) h

theorem inProgram_of_bearing : s'.inProgram = s.inProgram :=
  congrArg (fun b => b.2.2.1) h

theorem direct_of_bearing : s'.direct = s.direct :=
  congrArg (fun b => b.2.2.2) h

end Bearing

/-- The end of execution changes the mode and no other part of the bearing. -/
theorem bearing_endExecution (s : Session) :
    s.endExecution.bearing =
      (if s.bearing.2.1 then .autoNumbering else .direct, s.bearing.2) := rfl

/-- A statement that is abandoned leaves the mode alone. -/
theorem Abandoned.mode {s s' : Session} {st : Statement} (h : Abandoned s st s') : s'.mode = s.mode := by
  cases h <;> rfl

end Session

namespace Machine

/-! ## Operations that stay in their code -/

/-- An operation that stays in the program, or on the direct line. -/
def Stays {α : Type} (x : MachineM α) : Prop :=
  Always (fun m m' => m'.session.inProgram = m.session.inProgram) x

section Stays

variable {α β : Type} {x : MachineM α} {f : α → MachineM β}

theorem Stays.pure (a : α) : Stays (pure a) :=
  fun _ => rfl

theorem Stays.throw (s : Signal) : Stays (throw s : MachineM α) :=
  fun _ => rfl

theorem Stays.bind (hx : Stays x) (hf : ∀ a, Stays (f a)) : Stays (x >>= f) :=
  Always.bind hx hf (fun _ _ => id) fun _ _ _ h h' => h'.trans h

theorem Stays.recover {f : Signal → MachineM α} (hx : Stays x) (hf : ∀ s, Stays (f s)) :
    Stays (tryCatch x f) :=
  Always.recover hx hf (fun _ _ => id) fun _ _ _ h h' => h'.trans h

theorem Stays.ite {c : Prop} [Decidable c] {y : MachineM α} (hx : Stays x) (hy : Stays y) :
    Stays (if c then x else y) :=
  Always.ite hx hy

/-- A change of the session that keeps its pointer in the same code. -/
theorem stays_modifySession {f : Session → Session} (h : ∀ s, (f s).inProgram = s.inProgram) :
    Stays (modifySession f) :=
  fun m => h m.session

theorem stays_modifyConsole (f : Console → Console) : Stays (modifyConsole f) :=
  fun _ => rfl

/-- Output moves nothing. -/
theorem Shows.stays (h : Shows x) : Stays x := by
  intro m
  obtain ⟨console, ⟨a, hok⟩ | herror⟩ := h m
  · rw [hok]
    rfl
  · rw [herror]
    rfl

end Stays

theorem stays_readLine (offered : String) (cursor : Nat) : Stays (readLine offered cursor) := by
  intro m
  simp only [readLine, bind_apply, modifySession_apply, get_apply, set_apply]
  cases (m.console.readLine offered cursor).1 with
  | ok text => rfl
  | error s => rfl

theorem stays_takeLine (text : String) : Stays (takeLine text) :=
  (stays_modifySession (by intro s; rfl)).bind fun _ => .pure _

/-- An edit leaves the pointer in the same code. -/
theorem stays_editProgram (deleteMissing : Bool) : Stays (editProgram deleteMissing) := by
  refine Stays.bind ?_ fun checked => ?_
  · intro m
    unfold checkDirect
    cases Program.checkNumbered m.session.direct with
    | ok a direct => rfl
    | error e direct => rfl
  · refine Stays.bind (fun _ => rfl) fun m => Stays.bind ?_ fun program => ?_
    · generalize (if (!checked.1) = true then _ else _ : Except BasicError Program) = r
      cases r with
      | ok program => exact .pure program
      | error e => exact .throw _
    · exact (stays_modifySession (by intro s; rfl)).bind fun _ => .pure _

theorem stays_storeLine (text : String) : Stays (storeLine text) := by
  refine .ite (.pure true) ((stays_takeLine text).bind fun isNumbered => .ite ?_ ?_)
  · exact (stays_editProgram true).bind fun _ => Stays.bind (fun _ => rfl) fun _ => .pure _
  · exact (stays_modifySession (by intro s; rfl)).bind fun _ => .pure _

theorem stays_offerNext (number : UInt16) : Stays (offerNext number) := by
  refine stays_modifySession fun s => ?_
  dsimp only
  split
  · rfl
  · rfl

theorem stays_autoStep : Stays autoStep := by
  refine Stays.bind (fun _ => rfl) fun m => (stays_readLine _ _).bind fun line => ?_
  refine (stays_takeLine _).bind fun isNumbered => .ite ?_ (.ite ?_ (.pure ()))
  · exact (stays_editProgram false).bind stays_offerNext
  · exact stays_modifySession (by intro s; rfl)

theorem stays_autoPass : Stays autoPass := by
  refine stays_autoStep.recover fun s => ?_
  cases s with
  | interrupt stop => exact (stays_modifyConsole _).bind fun _ => stays_modifySession (by intro s; rfl)
  | error e => exact .throw _
  | exit => exact .throw _
  | reset => exact .throw _
  | fault message => exact .throw _

theorem stays_showPrompt : Stays showPrompt := by
  refine Stays.bind (fun _ => rfl) fun m => (stays_modifySession (by intro s; rfl)).bind fun _ => ?_
  cases m.session.editPrompt.bind fun edit => m.session.program.editText? edit.line edit.position with
  | some offered => exact .pure offered
  | none =>
    refine .ite ?_ (.pure _)
    exact shows_startLine.stays.bind fun _ => (shows_writeLine _).stays.bind fun _ => .pure _

theorem stays_directPass : Stays directPass := by
  refine stays_showPrompt.bind fun prompt => Stays.bind ?_ fun line => ?_
  · refine ((stays_readLine _ _).bind fun _ => .pure _).recover fun s => ?_
    cases s with
    | interrupt stop =>
      refine (stays_modifyConsole _).bind fun _ => ?_
      exact (stays_modifySession (by intro s; rfl)).bind fun _ => .pure _
    | error e => exact .throw _
    | exit => exact .throw _
    | reset => exact .throw _
    | fault message => exact .throw _
  · cases line with
    | none => exact .pure false
    | some line =>
      refine (stays_storeLine line).bind fun stored => ?_
      exact (stays_modifySession (by intro s; rfl)).bind fun _ => .pure true

/-- The report of an error leaves the pointer in the program, if it was there. -/
theorem stays_handleError (e : BasicError) : Stays (handleError e) := by
  refine Stays.bind (fun _ => rfl) fun m => (shows_writeMessage _ _).stays.bind fun _ => ?_
  refine stays_modifySession fun s => ?_
  dsimp only
  split
  · split
    · rfl
    · rfl
  · rfl

/-! ## Signals -/

/-- An operation that does not end with a break. -/
def Unbroken {α : Type} (x : MachineM α) : Prop :=
  ∀ m s m', x m = .error s m' → ∀ stop, s ≠ .interrupt stop

section Unbroken

variable {α β : Type} {x : MachineM α} {f : α → MachineM β}

theorem Unbroken.pure (a : α) : Unbroken (pure a) := by
  intro m s m' h
  cases h

theorem Unbroken.get : Unbroken (get : MachineM Machine) := by
  intro m s m' h
  cases h

theorem Unbroken.modifySession (f : Session → Session) : Unbroken (modifySession f) := by
  intro m s m' h
  cases h

theorem Unbroken.throw {s : Signal} (hs : ∀ stop, s ≠ .interrupt stop) :
    Unbroken (throw s : MachineM α) := by
  intro m s' m' h
  cases h
  exact hs

theorem Unbroken.bind (hx : Unbroken x) (hf : ∀ a, Unbroken (f a)) : Unbroken (x >>= f) := by
  intro m s m' h
  rw [bind_apply] at h
  cases hxm : x m with
  | ok a m₁ =>
    rw [hxm] at h
    exact hf a m₁ s m' h
  | error s₁ m₁ =>
    rw [hxm] at h
    cases h
    exact hx m s m' hxm

theorem Unbroken.ite {c : Prop} [Decidable c] {y : MachineM α} (hx : Unbroken x) (hy : Unbroken y) :
    Unbroken (if c then x else y) := by
  split
  · exact hx
  · exact hy

/-- A handler may be all that is left of a break. -/
theorem Unbroken.recover {f : Signal → MachineM α} (hf : ∀ s, Unbroken (f s)) :
    Unbroken (tryCatch x f) := by
  intro m s m' h
  cases hxm : x m with
  | ok a m₁ =>
    rw [tryCatch_of_ok hxm] at h
    cases h
  | error s₁ m₁ =>
    rw [tryCatch_of_error hxm] at h
    exact hf s₁ m₁ s m' h

/-- Output does not end in a break. -/
theorem Shows.unbroken (h : Shows x) : Unbroken x := by
  intro m s m' hx stop
  obtain ⟨console, ⟨a, hok⟩ | herror⟩ := h m
  · rw [hx] at hok
    cases hok
  · rw [hx] at herror
    cases herror
    exact Signal.noConfusion

end Unbroken

theorem unbroken_autoPass : Unbroken autoPass := by
  refine .recover fun s => ?_
  cases s with
  | interrupt stop => exact (shows_modifyConsole _).unbroken.bind fun _ => .modifySession _
  | error e => exact .throw fun _ => Signal.noConfusion
  | exit => exact .throw fun _ => Signal.noConfusion
  | reset => exact .throw fun _ => Signal.noConfusion
  | fault message => exact .throw fun _ => Signal.noConfusion

theorem unbroken_ofExcept {α : Type} (r : Except BasicError α) : Unbroken (ofExcept r) := by
  cases r with
  | ok a => exact .pure a
  | error e => exact .throw fun _ => Signal.noConfusion

theorem unbroken_checkDirect : Unbroken checkDirect := by
  intro m s m' h stop
  unfold checkDirect at h
  cases hcheck : Program.checkNumbered m.session.direct with
  | ok a direct =>
    rw [hcheck] at h
    cases h
  | error e direct =>
    rw [hcheck] at h
    cases h
    exact Signal.noConfusion

/-- A line that is entered is no break. -/
theorem unbroken_storeLine (text : String) : Unbroken (storeLine text) := by
  refine .ite (.pure true) (((Unbroken.modifySession _).bind fun _ => .pure _).bind fun _ => .ite ?_ ?_)
  · have hedit : Unbroken (editProgram true) :=
      unbroken_checkDirect.bind fun _ => Unbroken.get.bind fun _ => (unbroken_ofExcept _).bind fun _ =>
        (Unbroken.modifySession _).bind fun _ => .pure _
    exact hedit.bind fun _ => Unbroken.get.bind fun _ => .pure _
  · exact (Unbroken.modifySession _).bind fun _ => .pure _

theorem unbroken_showPrompt : Unbroken showPrompt := by
  refine Unbroken.get.bind fun m => (Unbroken.modifySession _).bind fun _ => ?_
  cases m.session.editPrompt.bind fun edit => m.session.program.editText? edit.line edit.position with
  | some offered => exact .pure offered
  | none =>
    refine .ite ?_ (.pure _)
    exact shows_startLine.unbroken.bind fun _ => (shows_writeLine _).unbroken.bind fun _ => .pure _

/-- A pass at the direct prompt takes a break of the operator itself. -/
theorem unbroken_directPass : Unbroken directPass := by
  refine unbroken_showPrompt.bind fun prompt => Unbroken.bind ?_ fun line => ?_
  · refine .recover fun s => ?_
    cases s with
    | interrupt stop =>
      exact (shows_modifyConsole _).unbroken.bind fun _ => (Unbroken.modifySession _).bind fun _ => .pure _
    | error e => exact .throw fun _ => Signal.noConfusion
    | exit => exact .throw fun _ => Signal.noConfusion
    | reset => exact .throw fun _ => Signal.noConfusion
    | fault message => exact .throw fun _ => Signal.noConfusion
  · cases line with
    | none => exact .pure false
    | some line =>
      exact (unbroken_storeLine line).bind fun _ => (Unbroken.modifySession _).bind fun _ => .pure _

/-! ## The ends of execution -/

/-- What an operation has made of a break: it is reported and execution is left, or there is a fault and
nothing has changed. -/
def Breaks (x : MachineM Unit) (m : Machine) : Prop :=
  (∃ m', x m = .ok () m' ∧ m'.session.bearing = m.session.endExecution.bearing) ∨
    ∃ message m', x m = .error (.fault message) m' ∧ m'.session.bearing = m.session.bearing

/-- What comes before a report. -/
theorem Breaks.of_bearing {x y : MachineM Unit} {m m₁ : Machine} (h : Breaks y m₁)
    (hbearing : m₁.session.bearing = m.session.bearing) (hxy : x m = y m₁) : Breaks x m := by
  obtain ⟨m', hok, hends⟩ | ⟨message, m', herror, hkept⟩ := h
  · refine .inl ⟨m', hxy.trans hok, ?_⟩
    rw [hends, Session.bearing_endExecution, Session.bearing_endExecution, hbearing]
  · exact .inr ⟨message, m', hxy.trans herror, hkept.trans hbearing⟩

theorem breaks_message (line : Option UInt16) (m : Machine) :
    Breaks (do
      writeMessage "Break" line
      modifySession fun s => { s.endExecution with awaitingInput := false }) m := by
  obtain ⟨console, ⟨a, hok⟩ | herror⟩ := shows_writeMessage "Break" line m
  · exact .inl ⟨_, by rw [bind_apply, hok]; rfl, rfl⟩
  · exact .inr ⟨"write failed", { m with console }, by rw [bind_apply, herror], rfl⟩

/-- A break ends execution, unless it cannot be reported. -/
theorem breaks_handleBreak (stop : Bool) (m : Machine) : Breaks (handleBreak stop) m := by
  have hrest : ∀ m : Machine, Breaks (do
      let s := (← get).session
      if s.inProgram then modifySession fun s => { s with stop := some s.program.pos }
      let line := if s.inProgram then
          s.program.lineAt? (if stop then s.statement else s.program.pos)
        else none
      writeMessage "Break" line
      modifySession fun s => { s.endExecution with awaitingInput := false }) m := by
    intro m
    by_cases hin : m.session.inProgram = true
    · refine Breaks.of_bearing (breaks_message
        (m.session.program.lineAt? (if stop then m.session.statement else m.session.program.pos))
        { m with session := { m.session with stop := some m.session.program.pos } }) rfl ?_
      simp only [bind_apply, get_apply, Effect.ite_apply, if_pos hin, modifySession_apply]
    · refine (breaks_message none m).of_bearing rfl ?_
      simp only [bind_apply, get_apply, Effect.ite_apply, if_neg hin]
  by_cases hsign : (!m.session.awaitingInput && !stop) = true
  · obtain ⟨console, ⟨⟨⟩, hok⟩ | herror⟩ := shows_write "^C" m
    · refine (hrest { m with console }).of_bearing rfl ?_
      simp only [handleBreak, bind_apply, get_apply, Effect.ite_apply, if_pos hsign, hok]
    · refine .inr ⟨"write failed", { m with console }, ?_, rfl⟩
      simp only [handleBreak, bind_apply, get_apply, Effect.ite_apply, if_pos hsign, herror]
  · refine (hrest m).of_bearing rfl ?_
    simp only [handleBreak, bind_apply, get_apply, Effect.ite_apply, if_neg hsign]

/-- A break that is reported ends execution, or faults. -/
theorem breaks_breakPart (stop : Bool) (m : Machine) : Breaks (Moment.breakPart stop) m :=
  (breaks_handleBreak stop { m with console := m.console.note .stopSound }).of_bearing rfl rfl

/-- Unless the console fails, an error ends execution where it is. -/
theorem report_error_cases (e : BasicError) (m : Machine) :
    (∃ m', report (.error e) m = .ok () m' ∧ m'.session.mode ≠ .executing ∧
      m'.session.inProgram = m.session.inProgram) ∨
    ∃ s m', report (.error e) m = .error s m' ∧ m'.session.bearing = m.session.bearing := by
  have hstays : Stays (report (.error e)) :=
    (stays_handleError e).bind fun _ => stays_modifySession (by intro s; rfl)
  have hin := hstays m
  cases hreport : report (.error e) m with
  | ok a m' =>
    rw [hreport] at hin
    exact .inl ⟨m', rfl, halts_report _ m a m' hreport, hin⟩
  | error s m' =>
    obtain ⟨console, ⟨session, hok, -⟩ | herror⟩ := reports_report m e
    · simp [once, hreport] at hok
    · simp only [once, hreport, Option.some.injEq, Prod.mk.injEq] at herror
      refine .inr ⟨s, m', rfl, ?_⟩
      rw [herror.2]

/-- A fault takes the machine out of the program. -/
theorem inProgram_of_fault (message : String) (m : Machine) :
    (left (report (.fault message) m)).session.inProgram = false := by
  have hshows : Stays (do
      startLine
      writeLine ("Internal error; " ++ message)) :=
    shows_startLine.stays.bind fun _ => (shows_writeLine _).stays
  refine (hshows _).trans ?_
  rfl

/-- The end of a pass. -/
theorem switchMode_cases (wasExecuting : Bool) (m : Machine) :
    (decide (m.session.mode = .executing) ≠ wasExecuting ∧
      ∃ m', switchMode wasExecuting m = .ok (decide (m.session.mode = .direct) && wasExecuting) m' ∧
        m'.session.mode = m.session.mode ∧ m'.session.inProgram = false) ∨
    decide (m.session.mode = .executing) = wasExecuting ∧ switchMode wasExecuting m = .ok false m := by
  simp only [switchMode, bind_apply, get_apply, Effect.ite_apply]
  by_cases hswitch : decide (m.session.mode = .executing) ≠ wasExecuting
  · rw [if_pos hswitch]
    exact .inl ⟨hswitch, _, rfl, rfl, rfl⟩
  · rw [if_neg hswitch]
    have hsame := Classical.not_not.1 hswitch
    refine .inr ⟨hsame, ?_⟩
    cases hmode : m.session.mode with
    | direct => simp [← hsame, hmode]
    | autoNumbering => simp
    | executing => simp

/-- What becomes of a line: it changes at most the program, or it is a command.  A command is put at its
start and is to be executed, but a machine that is in its program stays there. -/
theorem storeLine_cases (text : String) (m : Machine) :
    (∃ stored m', storeLine text m = .ok stored m' ∧ m'.session.mode = m.session.mode ∧
      (m.session.mode = .direct → stored = true)) ∨
    (∃ s m', storeLine text m = .error s m' ∧ m'.session.mode = m.session.mode) ∨
    ∃ m', storeLine text m = .ok false m' ∧ m'.session.bearing =
      (.executing, m.session.autoActive, m.session.inProgram, { bytes := Crunch.line text }) := by
  cases hblank : Text.isBlank text with
  | true => exact .inl ⟨true, m, storeLine_of_isBlank m hblank, rfl, fun _ => rfl⟩
  | false =>
    by_cases hhead : (Crunch.line text).head? = some Token.endLine
    · rw [storeLine_of_head m hblank hhead]
      obtain ⟨direct, hedit⟩ := editProgram_withLine true m (Crunch.line text)
      rw [bind_apply, hedit]
      cases m.session.program.edit true (Crunch.line text) with
      | ok p =>
        refine .inl ⟨_, _, rfl, rfl, fun hmode => ?_⟩
        simp [withLine, Session.clear, hmode]
      | error e => exact .inr (.inl ⟨_, _, rfl, rfl⟩)
    · exact .inr (.inr ⟨_, storeLine_of_command m hblank hhead, rfl⟩)

/-- Execution is not ended by a line. -/
theorem executing_storeLine (text : String) {m : Machine} (hmode : m.session.mode = .executing) :
    (left (storeLine text m)).session.mode = .executing := by
  obtain ⟨stored, m', hok, hkept, -⟩ | ⟨s, m', herror, hkept⟩ | ⟨m', hok, hbearing⟩ :=
    storeLine_cases text m
  · rw [hok]
    exact hkept.trans hmode
  · rw [herror]
    exact hkept.trans hmode
  · rw [hok]
    exact congrArg (fun b => b.1) hbearing

/-- A statement that fails leaves the mode alone. -/
theorem mode_of_statement_error {m m' : Machine} {signal : Signal}
    (h : statement m = .error signal m') : m'.session.mode = m.session.mode := by
  have hreading : ∀ pos console, (m.reading pos console).session.mode = m.session.mode := by
    intro pos console
    unfold reading Session.moveTo
    split <;> rfl
  obtain ⟨pos, console, ⟨rfl, -⟩ | ⟨st, -, hexecute⟩⟩ := statement_error_cases h
  · exact hreading pos console
  · exact (Statement.abandoned_of_execute hexecute).mode.trans (hreading pos console)

/-- An event that is dispatched leads elsewhere in the program; the bearing stays. -/
theorem bearing_dispatchEvent (s : Session) :
    (left (Session.dispatchEvent s)).bearing = s.bearing := by
  rw [Session.dispatchEvent_apply]
  split
  · rfl
  · rename_i hon
    have hin : s.inProgram = true := by
      cases hin : s.inProgram with
      | true => rfl
      | false => exact absurd (.inr hin) hon
    cases s.events.nextReady? with
    | none => rfl
    | some due =>
      obtain ⟨kind, line⟩ := due
      dsimp only
      cases hcode : (FlowOperation.call line (some kind)).failure? s with
      | some code =>
        rw [Session.call_of_failure? hcode]
        rfl
      | none =>
        obtain ⟨pos, hpos, hroom⟩ := Session.failure?_call_eq_none hcode
        rw [Session.call_of_room (some kind) hpos hroom]
        simp [Session.concluded, Session.called, Session.bearing, hin, left]

end Machine

/-! ## The operations of a cycle -/

/-- A look for events leaves the bearing alone. -/
theorem EventSource.bearing_poll (source : EventSource) (m : Machine) :
    (left (source.poll m)).session.bearing = m.session.bearing := by
  obtain ⟨events, -, hsession, -⟩ := source.spares m
  rw [hsession]
  rfl

namespace Control

/-- What there is in the cycles of the owner, and between them. -/
inductive Serves : Control → Prop where
  | pass : Serves (.pass .owner)
  | dispatch : Serves (.dispatch .owner)
  | statement : Serves (.statement .owner)
  | trap (e : BasicError) : Serves (.trap e .owner)
  | interrupt (stop : Bool) : Serves (.interrupt stop .owner)
  | switch (wasExecuting : Bool) : Serves (.switch wasExecuting .owner)
  /-- A break is not left to the end of the cycle. -/
  | report {s : Signal} (hs : ∀ stop, s ≠ .interrupt stop) : Serves (.report s .owner)
  | cycled (outcome : Except Signal Unit) : Serves (.cycled outcome .owner)
  | enter (text : String) : Serves (.enter text)
  | returned (outcome : Except Signal Unit) : Serves (.returned outcome)

theorem serves_failed (s : Signal) : (failed .owner s).Serves := by
  cases s with
  | error e => exact .trap e
  | interrupt stop => exact .interrupt stop
  | exit => exact .report fun _ => Signal.noConfusion
  | reset => exact .report fun _ => Signal.noConfusion
  | fault message => exact .report fun _ => Signal.noConfusion

end Control

namespace Moment

open Machine

/-- What an operation of a cycle does to the mode of a machine and to its place. -/
inductive Proceeds : Moment → Moment → Prop where
  | polled {m m' : Machine} (hmode : m.session.mode = .executing)
      (hbearing : m'.session.bearing = m.session.bearing) :
      Proceeds ⟨.pass .owner, m⟩ ⟨.dispatch .owner, m'⟩
  | pollFailed {m m' : Machine} (s : Signal) (hmode : m.session.mode = .executing)
      (hbearing : m'.session.bearing = m.session.bearing) :
      Proceeds ⟨.pass .owner, m⟩ ⟨.failed .owner s, m'⟩
  /-- A line was asked for. -/
  | asked {m m' : Machine} {c : Control} (hmode : m.session.mode ≠ .executing)
      (hin : m'.session.inProgram = m.session.inProgram)
      (hc : c = .switch false .owner ∨ c = .pass .owner ∨
        ∃ s, c = .report s .owner ∧ ∀ stop, s ≠ .interrupt stop) :
      Proceeds ⟨.pass .owner, m⟩ ⟨c, m'⟩
  | dispatched {m m' : Machine} (hbearing : m'.session.bearing = m.session.bearing) :
      Proceeds ⟨.dispatch .owner, m⟩ ⟨.statement .owner, m'⟩
  | dispatchFailed {m m' : Machine} (e : BasicError) (hbearing : m'.session.bearing = m.session.bearing) :
      Proceeds ⟨.dispatch .owner, m⟩ ⟨.trap e .owner, m'⟩
  | ran {m : Machine} (m' : Machine) : Proceeds ⟨.statement .owner, m⟩ ⟨.switch true .owner, m'⟩
  | failed {m m' : Machine} (s : Signal) (hmode : m'.session.mode = m.session.mode) :
      Proceeds ⟨.statement .owner, m⟩ ⟨.failed .owner s, m'⟩
  | trapped {m m' : Machine} (e : BasicError) (hmode : m'.session.mode = m.session.mode)
      (hauto : m'.session.autoActive = m.session.autoActive) (hin : m'.session.inProgram = true) :
      Proceeds ⟨.trap e .owner, m⟩ ⟨.switch true .owner, m'⟩
  | untrapped {m m' : Machine} (e e' : BasicError) (hbearing : m'.session.bearing = m.session.bearing) :
      Proceeds ⟨.trap e .owner, m⟩ ⟨.report (.error e') .owner, m'⟩
  | broke {m m' : Machine} (stop : Bool)
      (hbearing : m'.session.bearing = m.session.endExecution.bearing) :
      Proceeds ⟨.interrupt stop .owner, m⟩ ⟨.switch true .owner, m'⟩
  | breakFailed {m m' : Machine} (stop : Bool) (message : String)
      (hbearing : m'.session.bearing = m.session.bearing) :
      Proceeds ⟨.interrupt stop .owner, m⟩ ⟨.report (.fault message) .owner, m'⟩
  /-- Execution began or ended. -/
  | switched {m m' : Machine} {wasExecuting : Bool}
      (hswitch : decide (m.session.mode = .executing) ≠ wasExecuting)
      (hmode : m'.session.mode = m.session.mode) (hin : m'.session.inProgram = false) :
      Proceeds ⟨.switch wasExecuting .owner, m⟩
        ⟨if decide (m.session.mode = .direct) && wasExecuting then .cycled (.ok ()) .owner
          else .pass .owner, m'⟩
  | wentOn {m : Machine} {wasExecuting : Bool}
      (hsame : decide (m.session.mode = .executing) = wasExecuting) :
      Proceeds ⟨.switch wasExecuting .owner, m⟩ ⟨.pass .owner, m⟩
  | reported {m m' : Machine} (e : BasicError) (hmode : m'.session.mode ≠ .executing)
      (hin : m'.session.inProgram = m.session.inProgram) :
      Proceeds ⟨.report (.error e) .owner, m⟩ ⟨.cycled (.ok ()) .owner, m'⟩
  | reportFailed {m m' : Machine} (e : BasicError) (s : Signal)
      (hbearing : m'.session.bearing = m.session.bearing) :
      Proceeds ⟨.report (.error e) .owner, m⟩ ⟨.cycled (.error s) .owner, m'⟩
  | abandoned {m m' : Machine} (message : String) (outcome : Except Signal Unit)
      (hin : m'.session.inProgram = false) :
      Proceeds ⟨.report (.fault message) .owner, m⟩ ⟨.cycled outcome .owner, m'⟩
  | passedOn {m : Machine} {s : Signal} (hs : s = .exit ∨ s = .reset) :
      Proceeds ⟨.report s .owner, m⟩ ⟨.cycled (.error s) .owner, m⟩
  | cycled {m : Machine} (outcome : Except Signal Unit) :
      Proceeds ⟨.cycled outcome .owner, m⟩ ⟨.returned outcome, m⟩
  | entered {m m' : Machine} (text : String) (outcome : Except Signal Unit)
      (hmode : m.session.mode = .executing → m'.session.mode = .executing)
      (hin : m'.session.inProgram = m.session.inProgram) :
      Proceeds ⟨.enter text, m⟩ ⟨.returned outcome, m'⟩
  | returned {m : Machine} (outcome : Except Signal Unit) :
      Proceeds ⟨.returned outcome, m⟩ ⟨.returned outcome, m⟩

/-- What is known of both outcomes of an operation is known of the moment after it. -/
theorem of_after {α : Type} {x : MachineM α} {m : Machine} {ok : α → Control}
    {error : Signal → Control} {P : Moment → Prop} (hok : ∀ a m', x m = .ok a m' → P ⟨ok a, m'⟩)
    (herror : ∀ s m', x m = .error s m' → P ⟨error s, m'⟩) : P (after x m ok error) := by
  unfold after
  cases hx : x m with
  | ok a m' => exact hok a m' hx
  | error s m' => exact herror s m' hx

/-- A pass begins. -/
theorem proceeds_pass (source : EventSource) (m : Machine) :
    Proceeds ⟨.pass .owner, m⟩ (next source.engine ⟨.pass .owner, m⟩) := by
  cases hmode : m.session.mode with
  | executing =>
    have hnext : next source.engine ⟨.pass .owner, m⟩ =
        after source.poll m (fun _ => .dispatch .owner) (.failed .owner) := by
      simp only [next, hmode]
      rfl
    have hbearing := source.bearing_poll m
    rw [hnext]
    refine of_after (fun a m' hx => ?_) fun s m' hx => ?_
    · rw [hx] at hbearing
      exact .polled hmode hbearing
    · rw [hx] at hbearing
      exact .pollFailed s hmode hbearing
  | autoNumbering =>
    have hnext : next source.engine ⟨.pass .owner, m⟩ =
        after autoPass m (fun _ => .switch false .owner) (.report · .owner) := by
      simp only [next, hmode]
    have hwaits : m.session.mode ≠ .executing := by simp [hmode]
    have hstays := stays_autoPass m
    rw [hnext]
    refine of_after (fun a m' hx => ?_) fun s m' hx => ?_
    · rw [hx] at hstays
      exact .asked hwaits hstays (.inl rfl)
    · rw [hx] at hstays
      exact .asked hwaits hstays (.inr (.inr ⟨s, rfl, unbroken_autoPass m s m' hx⟩))
  | direct =>
    have hnext : next source.engine ⟨.pass .owner, m⟩ = after directPass m
        (fun taken => if taken then .switch false .owner else .pass .owner) (.report · .owner) := by
      simp only [next, hmode]
    have hwaits : m.session.mode ≠ .executing := by simp [hmode]
    have hstays := stays_directPass m
    rw [hnext]
    refine of_after (fun taken m' hx => ?_) fun s m' hx => ?_
    · rw [hx] at hstays
      cases taken with
      | true => exact .asked hwaits hstays (.inl rfl)
      | false => exact .asked hwaits hstays (.inr (.inl rfl))
    · rw [hx] at hstays
      exact .asked hwaits hstays (.inr (.inr ⟨s, rfl, unbroken_directPass m s m' hx⟩))

/-- An event is dispatched, or not. -/
theorem proceeds_dispatch (e : Engine) (m : Machine) :
    Proceeds ⟨.dispatch .owner, m⟩ (next e ⟨.dispatch .owner, m⟩) := by
  have hbearing := bearing_dispatchEvent m.session
  show Proceeds _ (after (onSession Session.dispatchEvent) m _ _)
  unfold after onSession
  cases hdispatch : Session.dispatchEvent m.session with
  | ok a session =>
    rw [hdispatch] at hbearing
    exact .dispatched hbearing
  | error err session =>
    rw [hdispatch] at hbearing
    exact .dispatchFailed err hbearing

/-- A statement is run. -/
theorem proceeds_statement (source : EventSource) (m : Machine) :
    Proceeds ⟨.statement .owner, m⟩ (next source.engine ⟨.statement .owner, m⟩) := by
  show Proceeds _ (after (statementPart source.engine) m _ _)
  refine of_after (fun a m' hx => .ran m') fun s m' hx => .failed s ?_
  simp only [statementPart, bind_apply] at hx
  cases hstatement : source.engine.statement m with
  | ok goesOn m₁ =>
    rw [hstatement] at hx
    cases goesOn with
    | true => cases hx
    | false => cases hx
  | error s₁ m₁ =>
    rw [hstatement] at hx
    cases hx
    exact mode_of_statement_error hstatement

/-- An error goes to its handler, or is reported. -/
theorem proceeds_trap (e : Engine) (err : BasicError) (m : Machine) :
    Proceeds ⟨.trap err .owner, m⟩ (next e ⟨.trap err .owner, m⟩) := by
  show Proceeds _ (after (onSession (Session.trapError err)) m _ _)
  unfold after onSession
  rw [Session.trapError_apply]
  cases m.session.trap.handler with
  | none => exact .untrapped err _ rfl
  | some line =>
    cases m.session.trap.active with
    | some context => exact .untrapped err _ rfl
    | none =>
      dsimp only
      cases m.session.program.offsetOf? line with
      | none => exact .untrapped err _ rfl
      | some offset => exact .trapped err rfl rfl rfl

/-- A signal is reported. -/
theorem proceeds_report (e : Engine) {s : Signal} (hs : ∀ stop, s ≠ .interrupt stop) (m : Machine) :
    Proceeds ⟨.report s .owner, m⟩ (next e ⟨.report s .owner, m⟩) := by
  show Proceeds _ (after (report s) m _ _)
  cases s with
  | interrupt stop => exact absurd rfl (hs stop)
  | exit => exact .passedOn (.inl rfl)
  | reset => exact .passedOn (.inr rfl)
  | fault message =>
    have hin := inProgram_of_fault message m
    refine of_after (fun a m' hx => ?_) fun s m' hx => ?_
    · rw [hx] at hin
      exact .abandoned message _ hin
    · rw [hx] at hin
      exact .abandoned message _ hin
  | error err =>
    unfold after
    obtain ⟨m', hok, hmode, hin⟩ | ⟨s, m', herror, hbearing⟩ := report_error_cases err m
    · rw [hok]
      exact .reported err hmode hin
    · rw [herror]
      exact .reportFailed err s hbearing

/-- Each operation of a cycle does one of these things. -/
theorem proceeds_next (source : EventSource) {t : Moment} (h : t.control.Serves) :
    Proceeds t (t.next source.engine) := by
  obtain ⟨control, m⟩ := t
  cases h with
  | pass => exact proceeds_pass source m
  | dispatch => exact proceeds_dispatch _ m
  | statement => exact proceeds_statement source m
  | trap err => exact proceeds_trap _ err m
  | interrupt stop =>
    show Proceeds _ (after (breakPart stop) m _ _)
    unfold after
    obtain ⟨m', hok, hbearing⟩ | ⟨message, m', herror, hbearing⟩ := breaks_breakPart stop m
    · rw [hok]
      exact .broke stop hbearing
    · rw [herror]
      exact .breakFailed stop message hbearing
  | switch wasExecuting =>
    show Proceeds _ (after (switchMode wasExecuting) m _ _)
    unfold after
    obtain ⟨hswitch, m', hok, hmode, hin⟩ | ⟨hsame, hok⟩ := switchMode_cases wasExecuting m
    · rw [hok]
      exact .switched hswitch hmode hin
    · rw [hok]
      exact .wentOn hsame
  | report hs => exact proceeds_report _ hs m
  | cycled outcome => exact .cycled outcome
  | enter text =>
    show Proceeds _ (after (storeLine text) m _ _)
    have hmode := executing_storeLine text (m := m)
    have hin := stays_storeLine text m
    refine of_after (fun a m' hx => ?_) fun s m' hx => ?_
    · rw [hx] at hmode hin
      exact .entered text _ hmode hin
    · rw [hx] at hmode hin
      exact .entered text _ hmode hin
  | returned outcome => exact .returned outcome

/-- A cycle goes on as a cycle of its owner. -/
theorem Proceeds.serves {t u : Moment} (h : Proceeds t u) : u.control.Serves := by
  cases h with
  | polled => exact .dispatch
  | pollFailed s => exact Control.serves_failed s
  | asked _ _ hc =>
    obtain rfl | rfl | ⟨s, rfl, hs⟩ := hc
    · exact .switch false
    · exact .pass
    · exact .report hs
  | dispatched => exact .statement
  | dispatchFailed e => exact .trap e
  | ran => exact .switch true
  | failed s => exact Control.serves_failed s
  | trapped => exact .switch true
  | untrapped => exact .report fun _ => Signal.noConfusion
  | broke => exact .switch true
  | breakFailed => exact .report fun _ => Signal.noConfusion
  | switched =>
    split
    · exact .cycled _
    · exact .pass
  | wentOn => exact .pass
  | reported => exact .cycled _
  | reportFailed => exact .cycled _
  | abandoned message outcome => exact .cycled outcome
  | passedOn => exact .cycled _
  | cycled outcome => exact .returned outcome
  | entered text outcome => exact .returned outcome
  | returned outcome => exact .returned outcome

end Moment

end LineBasic

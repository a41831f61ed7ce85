import LineBasic.Proofs.Session.Flow
import LineBasic.Statement.Execute

/-!
# What statements make of a session

* `Session.Abandoned`: what a statement that fails leaves of a session.
* `Session.Continued`: what a statement makes of a session if execution goes on after it.
* `abandoned_of_execute`, `continued_of_execute`: every statement does one of these things.
-/

namespace LineBasic

namespace Session

/-- What a statement that fails leaves of a session. -/
inductive Abandoned (s : Session) : Statement → Session → Prop where
  /-- The place is kept, whatever became of files and of the timer. -/
  | kept (st : Statement) (files : FileTable) (events : EventTable) :
      Abandoned s st { s with files, events }
  /-- A return to a line that does not exist has left the subroutine. -/
  | returned {line : UInt16} {frame : GosubFrame} {rest : List GosubFrame}
      (hitems : s.gosub.items = frame :: rest) (hline : s.program.offsetOf? line = none) :
      Abandoned s (.returnTo (some line)) (s.popped frame rest)
  /-- A run from a line that does not exist has cleared the session. -/
  | cleared {line : UInt16} (hline : s.program.offsetOf? line = none) :
      Abandoned s (.run (some line)) s.clear
  /-- A resumption at a line that does not exist has left the error handler. -/
  | resumed {line : UInt16} {context : ResumeContext} (hactive : s.trap.active = some context)
      (hline : s.program.offsetOf? line = none) : Abandoned s (.resume (.line line)) s.resumed
  /-- An error handler was taken away while it ran. -/
  | unhandled {context : ResumeContext} (hactive : s.trap.active = some context) :
      Abandoned s (.onError 0) (s.withHandler 0)

/-- What a statement makes of a session if execution goes on after it. -/
inductive Continued (s : Session) : Statement → Session → Prop where
  /-- The place is kept, and all that it takes to come back from it. -/
  | kept (st : Statement) (vars : Variables) (files : FileTable) (events : EventTable) (tron : Bool)
      (auto : AutoNumber) (autoActive : Bool) (mode : Mode) (handler : Option UInt16) :
      Continued s st
        { s with vars, files, events, tron, auto, autoActive, mode, trap := { s.trap with handler } }
  | cleared : Continued s .clear s.clear
  | jumped {line : UInt16} {pos : Nat} (hline : s.program.offsetOf? line = some pos) :
      Continued s (.goto line) (s.setPointer true (some pos))
  | called {line : UInt16} {pos : Nat} {gosub : BoundedStack GosubFrame}
      (hpush : s.gosub.push ⟨s.stream.pos, s.inProgram, none⟩ = .ok gosub)
      (hline : s.program.offsetOf? line = some pos) :
      Continued s (.gosub line) ({ s with gosub }.setPointer true (some pos))
  | returned {frame : GosubFrame} {rest : List GosubFrame} (hitems : s.gosub.items = frame :: rest) :
      Continued s (.returnTo none)
        ((s.popped frame rest).setPointer frame.inProgram (some frame.statement))
  | returnedTo {line : UInt16} {pos : Nat} {frame : GosubFrame} {rest : List GosubFrame}
      (hitems : s.gosub.items = frame :: rest) (hline : s.program.offsetOf? line = some pos) :
      Continued s (.returnTo (some line)) ((s.popped frame rest).setPointer true (some pos))
  | continued {pos : Nat} (hstop : s.stop = some pos) :
      Continued s .cont (s.setPointer true (some pos))
  | ran {line : Option UInt16} {pos : Nat} (hline : s.target? line = some pos) :
      Continued s (.run line) (s.clear.setPointer true (some pos))
  | resumed {context : ResumeContext} (hactive : s.trap.active = some context) :
      Continued s (.resume .statement)
        (s.resumed.setPointer context.inProgram (some context.statement))
  | resumedNext {context : ResumeContext} (hactive : s.trap.active = some context) :
      Continued s (.resume .next)
        (s.resumed.setPointer context.inProgram (some context.statement)).skipped
  | resumedAt {line : UInt16} {pos : Nat} {context : ResumeContext}
      (hactive : s.trap.active = some context) (hline : s.program.offsetOf? line = some pos) :
      Continued s (.resume (.line line)) (s.resumed.setPointer true (some pos))

/-- A statement that changes nothing goes on where it was. -/
theorem Continued.refl (s : Session) (st : Statement) : Continued s st s :=
  .kept st s.vars s.files s.events s.tron s.auto s.autoActive s.mode s.trap.handler

theorem Abandoned.refl (s : Session) (st : Statement) : Abandoned s st s :=
  .kept st s.files s.events

/-- A statement that fails stays where it is. -/
theorem Abandoned.stays {s s' : Session} {st : Statement} (h : Abandoned s st s') :
    s'.program = s.program ∧ s'.direct = s.direct ∧ s'.inProgram = s.inProgram ∧
      s'.statement = s.statement := by
  cases h <;> exact ⟨rfl, rfl, rfl, rfl⟩

/-- A statement that fails inside an error handler leaves the handler running, unless it takes the
handler away or is a `RESUME` to a line that does not exist. -/
theorem Abandoned.trap_cases {s s' : Session} {st : Statement} {context : ResumeContext}
    (h : Abandoned s st s') (hactive : s.trap.active = some context) :
    (s'.trap.active = some context ∨ s'.trap.active = none ∧ s'.trap.handler = none) ∨
      ∃ line, st = .resume (.line line) ∧ s.program.offsetOf? line = none ∧ s' = s.resumed := by
  cases h with
  | kept files events => exact .inl (.inl hactive)
  | returned hitems hline => exact .inl (.inl hactive)
  | cleared hline => exact .inl (.inr ⟨rfl, rfl⟩)
  | resumed _ hline => exact .inr ⟨_, rfl, hline, rfl⟩
  | unhandled _ => exact .inl (.inl hactive)

end Session

namespace Machine

@[simp] theorem modifySession_apply (f : Session → Session) (m : Machine) :
    modifySession f m = .ok () { m with session := f m.session } := rfl

@[simp] theorem ofExcept_ok {α : Type} (a : α) (m : Machine) :
    (ofExcept (.ok a) : MachineM α) m = .ok a m := rfl

@[simp] theorem ofExcept_error {α : Type} (e : BasicError) (m : Machine) :
    (ofExcept (.error e) : MachineM α) m = .error (.error e) m := rfl

/-- A computation that shows something and does nothing else: it succeeds, or a write fails. -/
def Shows {α : Type} (x : MachineM α) : Prop :=
  ∀ m, ∃ console, (∃ a, x m = .ok a { m with console }) ∨
    x m = .error (.fault "write failed") { m with console }

theorem Shows.pure {α : Type} (a : α) : Shows (pure a : MachineM α) :=
  fun m => ⟨m.console, .inl ⟨a, rfl⟩⟩

theorem Shows.bind {α β : Type} {x : MachineM α} {f : α → MachineM β} (hx : Shows x)
    (hf : ∀ a, Shows (f a)) : Shows (x >>= f) := by
  intro m
  obtain ⟨console, ⟨a, ha⟩ | herror⟩ := hx m
  · obtain ⟨console', hnext⟩ := hf a { m with console }
    exact ⟨console', by simpa [ha] using hnext⟩
  · exact ⟨console, .inr (by simp [herror])⟩

/-- What is sent to the console changes the console only, and fails if the console does. -/
theorem output_apply (send : Console → Bool × Console) (m : Machine) :
    output send m =
      if (send m.console).1 = true then .ok () { m with console := (send m.console).2 }
      else .error (.fault "write failed") { m with console := (send m.console).2 } := by
  simp only [output, Effect.bind_apply, Effect.get_apply, Effect.set_apply, Effect.ite_apply]
  cases (send m.console).1 <;> rfl

theorem shows_output (send : Console → Bool × Console) : Shows (output send) := by
  intro m
  refine ⟨(send m.console).2, ?_⟩
  rw [output_apply]
  split
  · exact .inl ⟨(), rfl⟩
  · exact .inr rfl

theorem shows_write (text : String) : Shows (write text) :=
  shows_output _

theorem shows_startLine : Shows startLine :=
  shows_output _

theorem shows_writeLine (text : String) : Shows (writeLine text) :=
  (shows_write text).bind fun _ => shows_write "\n"

theorem shows_writeLines (lines : List String) :
    Shows (forIn lines PUnit.unit fun line _ => do
      writeLine line
      pure (ForInStep.yield PUnit.unit)) := by
  induction lines with
  | nil => exact Shows.pure PUnit.unit
  | cons line rest ih =>
    simp only [List.forIn_cons, bind_assoc, pure_bind] at ih ⊢
    exact (shows_writeLine line).bind fun _ => ih

end Machine

namespace Statement

open Machine Session

/-- What becomes of a session when a statement is executed. -/
def Leaves (s : Session) (st : Statement) : EStateM.Result Signal Machine Bool → Prop
  | .error _ m => s.Abandoned st m.session
  | .ok true m => s.Continued st m.session
  | .ok false _ => True

/-- A statement that works on the session and goes on after that. -/
theorem leaves_onSession {s : Session} {st : Statement} {f : SessionM Unit} {m : Machine}
    (herror : ∀ e s', f m.session = .error e s' → s.Abandoned st s')
    (hok : ∀ s', f m.session = .ok () s' → s.Continued st s') :
    Leaves s st ((do onSession f; return true : MachineM Bool) m) := by
  simp only [Effect.bind_apply, onSession]
  cases hf : f m.session with
  | ok a s' => exact hok s' hf
  | error e s' => exact herror e s' hf

/-- A statement that shows something and goes on after that. -/
theorem leaves_shows {st : Statement} {x : MachineM Unit} (hx : Shows x) (m : Machine) :
    Leaves m.session st ((do x; return true : MachineM Bool) m) := by
  simp only [Effect.bind_apply]
  obtain ⟨console, ⟨a, hok⟩ | herror⟩ := hx m
  · rw [hok]
    exact Continued.refl m.session st
  · rw [herror]
    exact Abandoned.refl m.session st

theorem leaves_goto (line : UInt16) (m : Machine) :
    Leaves m.session (.goto line) (execute (.goto line) m) := by
  apply leaves_onSession
  · intro e s' h
    rw [jump_apply] at h
    split at h <;> cases h
    exact .refl _ _
  · intro s' h
    rw [jump_apply] at h
    split at h <;> cases h
    rename_i pos hpos
    exact .jumped hpos

theorem leaves_gosub (line : UInt16) (m : Machine) :
    Leaves m.session (.gosub line) (execute (.gosub line) m) := by
  apply leaves_onSession
  · intro e s' h
    obtain ⟨e', herror⟩ | ⟨gosub, pos, -, -, hok⟩ := call_apply line none m.session
    · rw [herror] at h
      cases h
      exact .refl _ _
    · simp [hok] at h
  · intro s' h
    obtain ⟨e', herror⟩ | ⟨gosub, pos, hpush, hpos, hok⟩ := call_apply line none m.session
    · simp [herror] at h
    · rw [hok] at h
      cases h
      exact .called hpush hpos

theorem leaves_returnTo (line : Option UInt16) (m : Machine) :
    Leaves m.session (.returnTo line) (execute (.returnTo line) m) := by
  simp only [execute, Effect.bind_apply, onSession, return_apply]
  cases hitems : m.session.gosub.items with
  | nil => exact Abandoned.refl m.session _
  | cons frame rest =>
    cases line with
    | none => exact Continued.returned hitems
    | some line =>
      simp only [jump_apply]
      cases hpos : (m.session.popped frame rest).target? (some line) with
      | none => exact Abandoned.returned hitems hpos
      | some pos => exact Continued.returnedTo hitems hpos

theorem leaves_run (line : Option UInt16) (m : Machine) :
    Leaves m.session (.run line) (execute (.run line) m) := by
  simp only [execute, Effect.bind_apply, modifySession_apply, onSession, jump_apply]
  cases line with
  | none => exact Continued.ran rfl
  | some line =>
    cases hpos : m.session.clear.target? (some line) with
    | none => exact Abandoned.cleared hpos
    | some pos => exact Continued.ran hpos

theorem leaves_resume (target : ResumeTarget) (m : Machine) :
    Leaves m.session (.resume target) (execute (.resume target) m) := by
  simp only [execute, Effect.bind_apply, onSession, resume_apply]
  cases hactive : m.session.trap.active with
  | none => exact Abandoned.refl m.session _
  | some context =>
    cases target with
    | statement => exact Continued.resumed hactive
    | next => exact Continued.resumedNext hactive
    | line line =>
      simp only [jump_apply]
      cases hpos : m.session.resumed.target? (some line) with
      | none => exact Abandoned.resumed hactive hpos
      | some pos => exact Continued.resumedAt hactive hpos

theorem leaves_onError (line : UInt16) (m : Machine) :
    Leaves m.session (.onError line) (execute (.onError line) m) := by
  simp only [execute, installErrorHandler, Effect.bind_apply, Effect.get_apply, Effect.ite_apply,
    onSession, setErrorHandler_apply]
  by_cases hmissing : (line ≠ 0 && !m.session.program.contains line) = true
  · simp only [hmissing, if_true]
    exact Abandoned.refl m.session _
  · simp only [hmissing, Bool.false_eq_true, if_false]
    by_cases hagain : line = 0 ∧ m.session.trap.isHandling = true
    · simp only [hagain, and_self, if_true]
      obtain ⟨context, hactive⟩ := Option.isSome_iff_exists.1 hagain.2
      exact Abandoned.unhandled hactive
    · simp only [hagain, if_false]
      exact Continued.kept _ _ _ _ _ _ _ _ _

/-- Every statement leaves a session in one of the ways told, unless execution ends with it. -/
theorem leaves_execute (st : Statement) (m : Machine) : Leaves m.session st (st.execute m) := by
  cases st with
  | goto line => exact leaves_goto line m
  | gosub line => exact leaves_gosub line m
  | returnTo line => exact leaves_returnTo line m
  | run line => exact leaves_run line m
  | resume target => exact leaves_resume target m
  | onError line => exact leaves_onError line m
  | cont =>
    simp only [execute, Effect.bind_apply, onSession, cont_apply]
    cases hstop : m.session.stop with
    | none => exact Abandoned.refl m.session _
    | some pos => exact Continued.continued hstop
  | onTimer seconds line =>
    cases line with
    | ok line => exact Continued.kept _ _ _ _ _ _ _ _ _
    | error e => exact Abandoned.kept _ _ _
  | closeFiles numbers rest =>
    cases rest with
    | ok => exact Continued.kept _ _ _ _ _ _ _ _ _
    | error e => exact Abandoned.kept _ _ _
  | assign name value =>
    simp only [execute, assignVariable, Effect.bind_apply, Effect.get_apply]
    cases m.session.vars.store name value with
    | ok vars => exact Continued.kept _ _ _ _ _ _ _ _ _
    | error e => exact Abandoned.refl m.session _
  | print file text =>
    cases file with
    | none => exact leaves_shows (shows_write text) m
    | some number =>
      simp only [execute, printTo, Effect.bind_apply, Effect.get_apply]
      cases m.session.files.write m.disk number text with
      | ok written => exact Continued.kept _ _ _ _ _ _ _ _ _
      | error e => exact Abandoned.refl m.session _
  | openFile name mode number =>
    simp only [execute, openNumbered, Effect.bind_apply, Effect.get_apply]
    cases m.session.files.open m.disk number name mode with
    | ok opened => exact Continued.kept _ _ _ _ _ _ _ _ _
    | error e => exact Abandoned.refl m.session _
  | list first last => exact leaves_shows (shows_writeLines (m.session.program.listing first last)) m
  | auto line increment =>
    simp only [execute, startAuto, Effect.bind_apply, Effect.get_apply, Effect.ite_apply]
    by_cases hzero : increment.getD m.session.autoIncrement = 0
    · simp only [hzero, if_true]
      exact Abandoned.refl m.session _
    · simp only [hzero, if_false]
      exact Continued.kept _ _ _ _ _ _ _ _ _
  | edit line =>
    simp only [execute, offerEdit, Effect.bind_apply, Effect.get_apply]
    cases m.session.program.offsetOf? line with
    | none => exact Abandoned.refl m.session _
    | some offset => trivial
  | delete first last =>
    simp only [execute, Effect.bind_apply, Effect.get_apply]
    cases m.session.program.deleteRange first last with
    | ok program => trivial
    | error e => exact Abandoned.refl m.session _
  | clear => exact Continued.cleared
  | nothing | comment => exact Continued.refl m.session _
  | onKey _ _ | trapCommand _ _ | trace _ | closeAll => exact Continued.kept _ _ _ _ _ _ _ _ _
  | stop | system | raise _ => exact Abandoned.refl m.session _
  | endProgram | new => trivial

theorem abandoned_of_execute {st : Statement} {m m' : Machine} {signal : Signal}
    (h : st.execute m = .error signal m') : m.session.Abandoned st m'.session := by
  have hleaves := leaves_execute st m
  rwa [h] at hleaves

theorem continued_of_execute {st : Statement} {m m' : Machine}
    (h : st.execute m = .ok true m') : m.session.Continued st m'.session := by
  have hleaves := leaves_execute st m
  rwa [h] at hleaves

end Statement

end LineBasic

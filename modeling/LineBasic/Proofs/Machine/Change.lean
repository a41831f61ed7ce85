import LineBasic.Proofs.Machine.Moment
import LineBasic.Proofs.Session.Memory

/-!
# What the operations of a machine change

Every operation of the interpreter loop keeps the configuration, keeps the mode sound, and changes
the memory of the session in at most one of the ways of `Memory.Change`.  What holds of every such
change then holds in every moment of a run.

* `Machine.Quiet`, `Machine.Turning`: operations that keep the memory, or change it in one way.
* `turning_execute`, `turns_statement`: statements.  Only a command to a trap has a label.
* `EventSource`: where events come from.  A source makes events happen, and tells the machine to
  stop.
* `Moment.Passage`: all that one operation can make of a machine, the beginning of a session
  included.
-/

namespace LineBasic

open Effect

namespace Machine

/-! ## Judgements -/

/-- A machine that has kept its memory and its configuration. -/
structure Keeps (m m' : Machine) : Prop where
  session : m.session.Keeps m'.session
  config : m'.config = m.config

/-- A machine whose memory has changed in one way. -/
structure Turns (m : Machine) (label : Option (EventKind × EventCommand)) (m' : Machine) : Prop where
  session : m.session.Turns label m'.session
  config : m'.config = m.config

section Composition

variable {m m₁ m₂ : Machine} {label : Option (EventKind × EventCommand)}

theorem Keeps.refl (m : Machine) : m.Keeps m :=
  ⟨.refl m.session, rfl⟩

theorem Keeps.trans (h : m.Keeps m₁) (h' : m₁.Keeps m₂) : m.Keeps m₂ :=
  ⟨h.session.trans h'.session, h'.config.trans h.config⟩

/-- What changes no trap is a turn without a command. -/
theorem Keeps.turns (h : m.Keeps m₁) : m.Turns none m₁ :=
  ⟨h.session.turns, h.config⟩

theorem Keeps.trans_turns (h : m.Keeps m₁) (h' : m₁.Turns label m₂) : m.Turns label m₂ :=
  ⟨h.session.trans_turns h'.session, h'.config.trans h.config⟩

theorem Turns.trans_keeps (h : m.Turns label m₁) (h' : m₁.Keeps m₂) : m.Turns label m₂ :=
  ⟨h.session.trans_keeps h'.session, h'.config.trans h.config⟩

end Composition

/-- An operation that keeps the memory, whether it succeeds or fails. -/
def Quiet {α : Type} (x : MachineM α) : Prop :=
  Always Keeps x

/-- An operation that changes the memory in one way, whether it succeeds or fails. -/
def Turning {α : Type} (x : MachineM α) : Prop :=
  Always (fun m m' => m.Turns none m') x

section Rules

variable {α β : Type} {x : MachineM α} {f : α → MachineM β}

theorem Quiet.turning (h : Quiet x) : Turning x :=
  Always.mono h fun _ _ => Keeps.turns

theorem Quiet.pure (a : α) : Quiet (pure a) :=
  Keeps.refl

theorem Quiet.throw (s : Signal) : Quiet (throw s : MachineM α) :=
  Keeps.refl

theorem Quiet.bind (hx : Quiet x) (hf : ∀ a, Quiet (f a)) : Quiet (x >>= f) :=
  Always.bind hx hf (fun _ _ => id) fun _ _ _ => Keeps.trans

theorem Quiet.bind_turning (hx : Quiet x) (hf : ∀ a, Turning (f a)) : Turning (x >>= f) :=
  Always.bind hx hf (fun _ _ => Keeps.turns) fun _ _ _ => Keeps.trans_turns

theorem Turning.bind_quiet (hx : Turning x) (hf : ∀ a, Quiet (f a)) : Turning (x >>= f) :=
  Always.bind hx hf (fun _ _ => id) fun _ _ _ => Turns.trans_keeps

theorem Quiet.recover {f : Signal → MachineM α} (hx : Quiet x) (hf : ∀ s, Quiet (f s)) :
    Quiet (tryCatch x f) :=
  Always.recover hx hf (fun _ _ => id) fun _ _ _ => Keeps.trans

theorem Turning.recover {f : Signal → MachineM α} (hx : Turning x) (hf : ∀ s, Quiet (f s)) :
    Turning (tryCatch x f) :=
  Always.recover hx hf (fun _ _ => id) fun _ _ _ => Turns.trans_keeps

theorem Quiet.ite {c : Prop} [Decidable c] {y : MachineM α} (hx : Quiet x) (hy : Quiet y) :
    Quiet (if c then x else y) :=
  Always.ite hx hy

theorem Turning.ite {c : Prop} [Decidable c] {y : MachineM α} (hx : Turning x) (hy : Turning y) :
    Turning (if c then x else y) :=
  Always.ite hx hy

/-- What has been read of the machine is the machine as it is. -/
theorem Quiet.get_bind {f : Machine → MachineM β} (h : ∀ m : Machine, m.Keeps (left (f m m))) :
    Quiet (get >>= f) :=
  h

theorem Turning.get_bind {f : Machine → MachineM β} (h : ∀ m : Machine, m.Turns none (left (f m m))) :
    Turning (get >>= f) :=
  h

/-- Output changes no trap. -/
theorem Shows.quiet (h : Shows x) : Quiet x := by
  intro m
  have hkeeps : ∀ console, m.Keeps { m with console } := fun _ => ⟨.refl m.session, rfl⟩
  obtain ⟨console, ⟨a, hok⟩ | herror⟩ := h m
  · rw [hok]
    exact hkeeps console
  · rw [herror]
    exact hkeeps console

theorem quiet_ofExcept (r : Except BasicError α) : Quiet (ofExcept r) := by
  cases r with
  | ok a => exact .pure a
  | error e => exact .throw _

/-- What keeps the session's memory is quiet. -/
theorem quiet_modifySession {f : Session → Session} (h : ∀ s : Session, s.Keeps (f s)) :
    Quiet (modifySession f) :=
  fun m => ⟨h m.session, rfl⟩

/-- What turns the session turns the machine. -/
theorem turning_modifySession {f : Session → Session} (h : ∀ s : Session, s.Turns none (f s)) :
    Turning (modifySession f) :=
  fun m => ⟨h m.session, rfl⟩

theorem left_onSession (f : SessionM α) (m : Machine) :
    left (onSession f m) = { m with session := left (f m.session) } := by
  unfold onSession
  cases f m.session with
  | ok a s => rfl
  | error e s => rfl

/-- What the session does is quiet if it keeps its memory, whether it succeeds or fails. -/
theorem quiet_onSession {f : SessionM α} (h : ∀ s : Session, s.Keeps (left (f s))) :
    Quiet (onSession f) := by
  intro m
  rw [left_onSession]
  exact ⟨h m.session, rfl⟩

theorem turning_onSession {f : SessionM α} (h : ∀ s : Session, s.Turns none (left (f s))) :
    Turning (onSession f) := by
  intro m
  rw [left_onSession]
  exact ⟨h m.session, rfl⟩

end Rules

/-! ## Lines -/

theorem quiet_readLine (offered : String) (cursor : Nat) : Quiet (readLine offered cursor) := by
  intro m
  have hkeeps : ∀ console,
      m.Keeps { m with console, session := { m.session with awaitingInput := false } } :=
    fun _ => ⟨⟨rfl, fun hs => ⟨hs.direct, hs.autoNumbering, rfl⟩⟩, rfl⟩
  simp only [readLine, bind_apply, modifySession_apply, get_apply, set_apply]
  cases (m.console.readLine offered cursor).1 with
  | ok text => exact hkeeps _
  | error s => exact hkeeps _

theorem quiet_takeLine (text : String) : Quiet (takeLine text) :=
  (quiet_modifySession (by intro s; exact .of_eq rfl rfl)).bind fun _ => .pure _

theorem quiet_checkDirect : Quiet checkDirect := by
  intro m
  have hkeeps : ∀ direct, m.Keeps { m with session := { m.session with direct } } :=
    fun _ => ⟨.of_eq rfl rfl, rfl⟩
  unfold checkDirect
  cases Program.checkNumbered m.session.direct with
  | ok a direct => exact hkeeps direct
  | error e direct => exact hkeeps direct

/-- A change of the program makes the session forget all else. -/
theorem turns_edited (s : Session) (program : Program) :
    s.Turns none (Session.clear { s with program }) :=
  .of_change (.edited program.lines) rfl

/-- An edit clears the memory, or leaves it alone. -/
theorem turning_editProgram (deleteMissing : Bool) : Turning (editProgram deleteMissing) := by
  refine quiet_checkDirect.bind_turning fun checked => ?_
  refine Quiet.bind_turning (fun m => .refl m) fun m => ?_
  refine (quiet_ofExcept _).bind_turning fun program => ?_
  exact (turning_modifySession fun s => turns_edited s program).bind_quiet fun _ => .pure _

theorem keeps_executing (s : Session) : s.Keeps { s with mode := .executing } :=
  ⟨rfl, fun hs => ⟨by simp, by simp, hs.awaitingInput⟩⟩

/-- A session that stops offering line numbers. -/
theorem keeps_direct (s : Session) : s.Keeps { s with autoActive := false, mode := .direct } :=
  ⟨rfl, fun hs => ⟨fun _ => rfl, by simp, hs.awaitingInput⟩⟩

/-- A line at the direct prompt clears the memory, or leaves it alone. -/
theorem turning_storeLine (text : String) : Turning (storeLine text) := by
  unfold storeLine
  refine .ite (Quiet.pure true).turning ?_
  refine (quiet_takeLine text).bind_turning fun isNumbered => .ite ?_ ?_
  · exact (turning_editProgram true).bind_quiet fun _ => .get_bind fun m => .refl m
  · exact ((quiet_modifySession keeps_executing).bind fun _ => .pure false).turning

theorem quiet_offerNext (number : UInt16) : Quiet (offerNext number) := by
  refine quiet_modifySession fun s => ?_
  dsimp only
  split
  · exact ⟨rfl, fun hs => ⟨fun _ => rfl, by simp, hs.awaitingInput⟩⟩
  · exact .of_eq rfl rfl

theorem turning_autoStep : Turning autoStep := by
  refine Quiet.bind_turning (fun m => .refl m) fun m => ?_
  refine (quiet_readLine _ _).bind_turning fun line => ?_
  refine (quiet_takeLine _).bind_turning fun isNumbered => .ite ?_ ?_
  · exact (turning_editProgram false).bind_quiet quiet_offerNext
  · exact Quiet.turning (.ite (quiet_modifySession keeps_executing) (.pure ()))

theorem quiet_modifyConsole (f : Console → Console) : Quiet (modifyConsole f) :=
  (shows_modifyConsole f).quiet

theorem turning_autoPass : Turning autoPass := by
  refine turning_autoStep.recover fun s => ?_
  cases s with
  | interrupt stop => exact (quiet_modifyConsole _).bind fun _ => quiet_modifySession keeps_direct
  | error e => exact .throw _
  | exit => exact .throw _
  | reset => exact .throw _
  | fault message => exact .throw _

theorem quiet_showPrompt : Quiet showPrompt := by
  refine Quiet.bind (fun m => .refl m) fun m => ?_
  refine (quiet_modifySession (by intro s; exact .of_eq rfl rfl)).bind fun _ => ?_
  cases m.session.editPrompt.bind fun edit => m.session.program.editText? edit.line edit.position with
  | some offered => exact .pure offered
  | none =>
    refine .ite ?_ (.pure _)
    exact shows_startLine.quiet.bind fun _ => (shows_writeLine _).quiet.bind fun _ => .pure _

theorem turning_directPass : Turning directPass := by
  refine quiet_showPrompt.bind_turning fun prompt => ?_
  refine Quiet.bind_turning ?_ fun line => ?_
  · refine ((quiet_readLine _ _).bind fun _ => .pure _).recover fun s => ?_
    cases s with
    | interrupt stop =>
      refine (quiet_modifyConsole _).bind fun _ => ?_
      exact (quiet_modifySession (by intro s; exact .of_eq rfl rfl)).bind fun _ => .pure _
    | error e => exact .throw _
    | exit => exact .throw _
    | reset => exact .throw _
    | fault message => exact .throw _
  · cases line with
    | none => exact (Quiet.pure _).turning
    | some line =>
      refine (turning_storeLine line).bind_quiet fun stored => ?_
      exact (quiet_modifySession (by intro s; exact .of_eq rfl rfl)).bind fun _ => .pure _

/-! ## Reports -/

theorem keeps_endOfExecution (s : Session) : s.Keeps { s.endExecution with awaitingInput := false } :=
  s.keeps_endExecution.trans ⟨rfl, fun hs => ⟨hs.direct, hs.autoNumbering, rfl⟩⟩

/-- The report of an error ends an error handler that was running. -/
theorem turning_handleError (e : BasicError) : Turning (handleError e) := by
  refine Quiet.bind_turning (fun m => .refl m) fun m => ?_
  refine (shows_writeMessage _ _).quiet.bind_turning fun _ => ?_
  refine turning_modifySession fun s => ?_
  -- the handler is left, then execution; what follows is told to the operator only
  let unhandled : Session :=
    { s with
      trap := { s.trap with active := none }
      events := { s.events with suspended := false } }
  have hunhandled : s.Turns none unhandled := .of_change .resumed rfl
  have hleft := hunhandled.trans_keeps (keeps_endOfExecution unhandled)
  dsimp only
  split
  · split
    · exact hleft.trans_keeps (.of_eq rfl rfl)
    · exact hleft.trans_keeps (.of_eq rfl rfl)
  · exact hleft

/-- A break notes the place at which `CONT` goes on. -/
theorem turning_handleBreak (stop : Bool) : Turning (handleBreak stop) := by
  have hnote : Turning (modifySession fun s => { s with stop := some s.program.pos }) :=
    turning_modifySession fun s => .of_change (.filed s.files (some s.program.pos)) rfl
  have hend : ∀ line, Quiet (do
      writeMessage "Break" line
      modifySession fun s => { s.endExecution with awaitingInput := false }) := by
    intro line
    exact (shows_writeMessage _ _).quiet.bind fun _ => quiet_modifySession keeps_endOfExecution
  refine Quiet.bind_turning (fun m => .refl m) fun m => ?_
  -- the sign of a break is shown or not; what follows is the same
  refine .ite ((shows_write "^C").quiet.bind_turning fun _ => ?_) ?_
  all_goals
    refine Quiet.bind_turning (fun m => .refl m) fun m => ?_
    exact .ite (hnote.bind_quiet fun _ => hend _) (hend _).turning

theorem quiet_handleFault (message : String) : Quiet (handleFault message) := by
  refine Quiet.bind (quiet_modifySession fun s => ?_) fun _ => ?_
  · have hleft : s.Keeps { s with autoActive := false, mode := .direct, awaitingInput := false } :=
      ⟨rfl, fun _ => ⟨fun _ => rfl, by simp, rfl⟩⟩
    exact (hleft.trans (Session.keeps_setPointer _ false none)).trans (.of_eq rfl rfl)
  · exact shows_startLine.quiet.bind fun _ => (shows_writeLine _).quiet

theorem turning_report (s : Signal) : Turning (report s) := by
  have hprompt : Quiet (modifySession fun s => { s with prompt := true }) :=
    quiet_modifySession fun _ => .of_eq rfl rfl
  cases s with
  | error e => exact (turning_handleError e).bind_quiet fun _ => hprompt
  | interrupt stop =>
    refine (quiet_modifyConsole _).bind_turning fun _ => ?_
    exact (turning_handleBreak stop).bind_quiet fun _ => hprompt
  | fault message => exact (quiet_handleFault message).turning
  | exit => exact (Quiet.throw _).turning
  | reset => exact (Quiet.throw _).turning

theorem quiet_switchMode (wasExecuting : Bool) : Quiet (switchMode wasExecuting) := by
  refine Quiet.bind (fun m => .refl m) fun m => ?_
  refine .ite ?_ (.pure _)
  refine (quiet_modifySession fun s => s.keeps_setPointer false (some 0)).bind fun _ => ?_
  exact (quiet_modifyConsole _).bind fun _ => .pure _

theorem quiet_startProgram : Quiet startProgram := by
  refine (quiet_onSession (Session.keeps_jump none)).bind fun _ => ?_
  exact (quiet_modifySession keeps_executing).bind fun _ => quiet_modifyConsole _

/-- Leaving closes the files. -/
theorem turning_shutdown : Turning shutdown :=
  fun m => ⟨.of_change (.filed m.session.files.closeAll m.session.stop) rfl, rfl⟩

/-- A saved session is taken up, or the session stays as it is. -/
theorem resumeSaved_cases (m : Machine) :
    (∃ disk, resumeSaved m = .ok false { m with disk }) ∨ ∃ m', resumeSaved m = .ok true m' := by
  simp only [resumeSaved, bind_apply, get_apply, Effect.ite_apply]
  by_cases hresume : (!m.config.resume) = true
  · rw [if_pos hresume]
    exact .inl ⟨m.disk, rfl⟩
  · rw [if_neg hresume]
    obtain ⟨saved, disk⟩ := Snapshot.load m.disk m.config.stateFile
    cases saved with
    | error e => exact .inl ⟨disk, rfl⟩
    | ok session => exact .inr ⟨_, rfl⟩

/-! ## Statements -/

end Machine

/-- The command to a trap that a statement is. -/
def Statement.command? : Statement → Option (EventKind × EventCommand)
  | trapCommand kind command => some (kind, command)
  | _ => none

namespace Machine

theorem quiet_list (first last : Option UInt16) : Quiet (Statement.list first last).execute := by
  intro m
  have hshows := (shows_writeLines (m.session.program.listing first last)).bind fun _ => Shows.pure true
  exact hshows.quiet m

theorem turning_assign (name : String) (value : Value) :
    Turning (Statement.assignVariable name value) := by
  refine Quiet.bind_turning (fun m => .refl m) fun m => ?_
  refine (quiet_ofExcept _).bind_turning fun vars => ?_
  exact turning_modifySession fun s => .of_change (.assigned vars) rfl

theorem turning_printTo (file : Option UInt8) (text : String) :
    Turning (Statement.printTo file text) := by
  cases file with
  | none => exact (shows_write text).quiet.turning
  | some number =>
    refine .get_bind fun m => ?_
    rw [bind_apply]
    cases m.session.files.write m.disk number text with
    | ok written => exact ⟨.of_change (.filed written.1 m.session.stop) rfl, rfl⟩
    | error e => exact (Keeps.refl m).turns

theorem turning_openNumbered (name : String) (mode : FileMode) (number : UInt8) :
    Turning (Statement.openNumbered name mode number) := by
  refine .get_bind fun m => ?_
  rw [bind_apply]
  cases m.session.files.open m.disk number name mode with
  | ok opened => exact ⟨.of_change (.filed opened.1 m.session.stop) rfl, rfl⟩
  | error e => exact (Keeps.refl m).turns

theorem quiet_startAuto (line : UInt16) (increment : Option UInt16) :
    Quiet (Statement.startAuto line increment) := by
  refine Quiet.bind (fun m => .refl m) fun m => ?_
  refine .ite ((Quiet.throw _).bind fun _ => ?_) ?_
  all_goals
    exact quiet_modifySession fun s => ⟨rfl, fun hs => ⟨by simp, fun _ => rfl, hs.awaitingInput⟩⟩

theorem quiet_offerEdit (line : UInt16) : Quiet (Statement.offerEdit line) := by
  refine Quiet.bind (fun m => .refl m) fun m => ?_
  cases m.session.program.offsetOf? line with
  | none => exact .throw _
  | some offset => exact quiet_modifySession (by intro s; exact .of_eq rfl rfl)

/-- `ON ERROR` changes the handler; inside one, line 0 raises the error again. -/
theorem turning_installErrorHandler (line : UInt16) :
    Turning (Statement.installErrorHandler line) := by
  refine .get_bind fun m => ?_
  rw [Effect.ite_apply]
  by_cases hmissing : (line ≠ 0 && !m.session.program.contains line) = true
  · rw [if_pos hmissing]
    exact (Keeps.refl m).turns
  · rw [if_neg hmissing, left_onSession]
    have hline : line = 0 ∨ m.session.program.contains line = true := by
      simpa [Classical.or_iff_not_imp_left] using hmissing
    exact ⟨Session.turns_setErrorHandler hline, rfl⟩

/-- Every statement but a command to a trap changes the memory without a label. -/
theorem turning_execute {st : Statement} (h : st.command? = none) : Turning st.execute := by
  have hthen : ∀ {x : MachineM Unit}, Turning x → Turning (do x; return true : MachineM Bool) :=
    fun hx => hx.bind_quiet fun _ => .pure true
  cases st with
  | nothing => exact (Quiet.pure true).turning
  | comment => exact (Quiet.pure true).turning
  | assign name value => exact hthen (turning_assign name value)
  | print file text => exact hthen (turning_printTo file text)
  | goto line => exact hthen (quiet_onSession (Session.keeps_jump _)).turning
  | gosub line => exact hthen (turning_onSession (Session.turns_call line))
  | returnTo line => exact hthen (turning_onSession (Session.turns_return line))
  | endProgram =>
    refine Turning.bind_quiet (turning_modifySession ?_) fun _ => .pure false
    intro s
    exact .of_change (.filed s.files.closeAll _) rfl
  | stop => exact (Quiet.throw _).turning
  | cont => exact hthen (quiet_onSession Session.keeps_cont).turning
  | run line =>
    refine (turning_modifySession Session.turns_clear).bind_quiet fun _ => ?_
    exact (quiet_onSession (Session.keeps_jump line)).bind fun _ => .pure true
  | new => exact (turning_modifySession fun s => turns_edited s .empty).bind_quiet fun _ => .pure false
  | clear => exact hthen (turning_modifySession Session.turns_clear)
  | list first last => exact (quiet_list first last).turning
  | auto line increment => exact hthen (quiet_startAuto line increment).turning
  | edit line => exact ((quiet_offerEdit line).bind fun _ => .pure false).turning
  | delete first last =>
    refine Quiet.bind_turning (fun m => .refl m) fun m => ?_
    refine (quiet_ofExcept _).bind_turning fun program => ?_
    exact (turning_modifySession fun s => turns_edited s program).bind_quiet fun _ => .pure false
  | onError line => exact hthen (turning_installErrorHandler line)
  | onKey key line =>
    refine hthen (turning_modifySession fun s => ?_)
    exact .of_change (.signalled _ (EventTable.standing_setHandler _ _ _)) rfl
  | onTimer seconds line =>
    intro m
    cases line with
    | ok line =>
      refine ⟨.of_change (.signalled _ ?_) rfl, rfl⟩
      exact EventTable.standing_setHandler _ _ _
    | error e => exact ⟨.of_change (.signalled _ (EventTable.standing_setTimer _ _ _)) rfl, rfl⟩
  | trapCommand kind command => cases h
  | raise code => exact (Quiet.throw _).turning
  | resume target => exact hthen (turning_onSession (Session.turns_resume target))
  | trace on => exact hthen (quiet_modifySession (by intro s; exact .of_eq rfl rfl)).turning
  | openFile name mode number => exact hthen (turning_openNumbered name mode number)
  | closeFiles numbers rest =>
    refine Turning.bind_quiet (turning_modifySession ?_) fun _ => ?_
    · intro s
      exact .of_change (.filed _ s.stop) rfl
    · exact (quiet_ofExcept rest).bind fun _ => .pure true
  | closeAll => exact hthen (turning_modifySession fun s => .of_change (.filed _ s.stop) rfl)
  | system => exact (Quiet.throw _).turning

/-- A command to a trap comes next, and is executed. -/
def Commands (m : Machine) (kind : EventKind) (command : EventCommand) : Prop :=
  m.Upcoming (.trapCommand kind command) ∧ ∃ m', statement m = .ok true m'

/-- Reading a statement changes nothing that is remembered. -/
theorem keeps_reading (m : Machine) (pos : Nat) (console : Console) :
    m.Keeps (m.reading pos console) := by
  have hnoted : m.session.Keeps { m.session with statement := m.session.stream.pos } := .of_eq rfl rfl
  exact ⟨hnoted.trans (Session.keeps_moveTo _ pos), rfl⟩

/-- A command to a trap is the one turn that has a label. -/
theorem execute_trapCommand (kind : EventKind) (command : EventCommand) (m : Machine) :
    ∃ m', (Statement.trapCommand kind command).execute m = .ok true m' ∧
      m.Turns (some (kind, command)) m' :=
  ⟨_, rfl, .of_change (.commanded kind command) rfl, rfl⟩

/-- Running a statement: a command to a trap is executed, or the memory changes without a label. -/
theorem turns_statement (m : Machine) :
    (∃ kind command, m.Commands kind command ∧
      m.Turns (some (kind, command)) (left (statement m))) ∨
    (∀ kind command, ¬ m.Commands kind command) ∧ m.Turns none (left (statement m)) := by
  obtain ⟨pos, console, signal, herror, -⟩ | ⟨pos, console, hok⟩ |
    ⟨st, before, after, console, hreads, hexecute⟩ := statement_cases m
  · refine .inr ⟨?_, ?_⟩
    · rintro kind command ⟨-, m', hm'⟩
      rw [herror] at hm'
      cases hm'
    · rw [herror]
      exact (keeps_reading m pos console).turns
  · refine .inr ⟨?_, ?_⟩
    · rintro kind command ⟨-, m', hm'⟩
      rw [hok] at hm'
      cases hm'
    · rw [hok]
      exact (keeps_reading m pos console).turns
  · have hupcoming : m.Upcoming st := ⟨before, after, hreads⟩
    cases hcommand : st.command? with
    | some label =>
      obtain ⟨kind, command⟩ := label
      obtain rfl : st = .trapCommand kind command := by
        cases st <;> cases hcommand
        rfl
      obtain ⟨m', hm', hturns⟩ := execute_trapCommand kind command (m.reading _ console)
      have hdone := hexecute.trans hm'
      refine .inl ⟨kind, command, ⟨hupcoming, m', hdone⟩, ?_⟩
      rw [hdone]
      exact (keeps_reading m _ console).trans_turns hturns
    | none =>
      refine .inr ⟨?_, ?_⟩
      · rintro kind command ⟨hnext, -⟩
        cases hupcoming.unique hnext
        cases hcommand
      · rw [hexecute]
        exact (keeps_reading m _ console).trans_turns (turning_execute hcommand _)

end Machine

/-! ## Sources of events -/

/-- Where events come from.  A source makes events happen and may raise a signal; how the traps
stand with their handlers is not its affair. -/
structure EventSource where
  poll : MachineM Unit
  /-- It touches nothing of the session but events that happen. -/
  spares : ∀ m, ∃ events : EventTable, events.standing = m.session.events.standing ∧
    (left (poll m)).session = { m.session with events } ∧ (left (poll m)).config = m.config

namespace EventSource

/-- The machine's own statements, with the events of a source. -/
def engine (source : EventSource) : Engine :=
  .polling source.poll

/-- A look for events triggers traps. -/
theorem turning_poll (source : EventSource) : Machine.Turning source.poll := by
  intro m
  obtain ⟨events, hstanding, hsession, hconfig⟩ := source.spares m
  refine ⟨?_, hconfig⟩
  rw [hsession]
  exact .of_change (.signalled events hstanding) rfl

/-- The machine's own events: the engine is then the standard one. -/
def feed : EventSource where
  poll := Machine.poll
  spares := by
    intro m
    refine ⟨(m.feed.poll m.session.events m.clock).2.2, EventTable.standing_poll _ _ _, ?_⟩
    simp only [Machine.poll, bind_apply, get_apply, set_apply]
    cases (m.feed.poll m.session.events m.clock).1 with
    | ok => exact ⟨rfl, rfl⟩
    | error s => exact ⟨rfl, rfl⟩

end EventSource

/-! ## Moments -/

namespace Control

/-- Whether a session has begun. -/
def begun : Control → Bool
  | launch => false
  | load => false
  | _ => true

theorem begun_leave (s : Signal) : (leave s).begun = true := by
  cases s <;> rfl

theorem begun_failed (caller : Caller) (s : Signal) : (failed caller s).begun = true := by
  cases s <;> rfl

theorem begun_ended (outcome : Except Signal Unit) : (ended outcome).begun = true := by
  cases outcome with
  | ok => rfl
  | error s => cases s <;> rfl

theorem begun_resumed (caller : Caller) (outcome : Except Signal Unit) :
    (resumed caller outcome).begun = true := by
  cases caller with
  | owner => rfl
  | start config =>
    cases outcome with
    | ok => rfl
    | error s => exact begun_leave s
  | mainLoop => cases outcome <;> rfl

theorem begun_ite {c : Prop} [Decidable c] {a b : Control} (ha : a.begun = true) (hb : b.begun = true) :
    (if c then a else b).begun = true := by
  split
  · exact ha
  · exact hb

end Control

namespace Moment

open Machine

/-- The machine that an operation leaves, however it ends. -/
theorem machine_after {α : Type} (x : MachineM α) (m : Machine) (ok : α → Control)
    (error : Signal → Control) : (after x m ok error).machine = left (x m) := by
  unfold after
  cases x m with
  | ok a m' => rfl
  | error s m' => rfl

/-- The next operation is a command to a trap. -/
def Commands (t : Moment) (kind : EventKind) (command : EventCommand) : Prop :=
  (∃ caller, t.control = .statement caller) ∧ t.machine.Commands kind command

/-- A new session begins, from a saved one, a program or nothing. -/
def Renews (t : Moment) : Prop :=
  t.control = .launch ∨ t.control = .load ∨ t.control = .reset

/-- A statement turns the memory, with a label exactly if it gives a trap a command. -/
theorem turns_statementPart (source : EventSource) (m : Machine) :
    (∃ kind command, m.Commands kind command ∧
      m.Turns (some (kind, command)) (left (statementPart source.engine m))) ∨
    (∀ kind command, ¬ m.Commands kind command) ∧
      m.Turns none (left (statementPart source.engine m)) := by
  have hrest : (left (statement m)).Keeps (left (statementPart source.engine m)) := by
    have hpart : statementPart source.engine m = (statement >>= fun goesOn =>
        if !goesOn then modifySession Session.endExecution else pure ()) m := rfl
    rw [hpart, bind_apply]
    cases statement m with
    | error s m' => exact .refl m'
    | ok goesOn m' =>
      exact Quiet.ite (quiet_modifySession Session.keeps_endExecution) (.pure ()) m'
  obtain ⟨kind, command, hcommands, hturns⟩ | ⟨hnone, hturns⟩ := turns_statement m
  · exact .inl ⟨kind, command, hcommands, hturns.trans_keeps hrest⟩
  · exact .inr ⟨hnone, hturns.trans_keeps hrest⟩

theorem turning_shutdownPart (outcome : Except Signal Unit) : Turning (shutdownPart outcome) := by
  refine .ite ?_ turning_shutdown
  refine Quiet.bind_turning (fun m => .refl m) fun m => .ite ?_ turning_shutdown
  exact (quiet_modifyConsole _).bind_turning fun _ => turning_shutdown

/-- Every operation but a statement, and but the beginning of a session. -/
theorem turning_next (source : EventSource) {t : Moment} (hold : ¬ t.Renews)
    (hother : ∀ caller, t.control ≠ .statement caller) :
    t.machine.Turns none (t.next source.engine).machine := by
  have hafter : ∀ {α : Type} {x : MachineM α} {ok : α → Control} {error : Signal → Control},
      Turning x → t.machine.Turns none (after x t.machine ok error).machine := by
    intro α x ok error hx
    rw [machine_after]
    exact hx t.machine
  obtain ⟨control, m⟩ := t
  cases control with
  | launch => exact absurd (.inl rfl) hold
  | load => exact absurd (.inr (.inl rfl)) hold
  | reset => exact absurd (.inr (.inr rfl)) hold
  | statement caller => exact absurd rfl (hother caller)
  | greet config => exact hafter (Quiet.ite (shows_writeLine _).quiet (.pure ())).turning
  | command config =>
    unfold next
    dsimp only
    cases config.exec with
    | none => exact (Keeps.refl m).turns
    | some text => exact hafter (turning_storeLine text)
  | refuse e config => exact hafter (turning_handleError e)
  | commanded stored config =>
    exact hafter (quiet_modifySession (by intro s; exact .of_eq rfl rfl)).turning
  | begin config => exact hafter (Quiet.ite quiet_startProgram (.pure ())).turning
  | idle => exact (Keeps.refl m).turns
  | pass caller =>
    unfold next
    dsimp only
    cases m.session.mode with
    | executing => exact hafter source.turning_poll
    | autoNumbering => exact hafter turning_autoPass
    | direct => exact hafter turning_directPass
  | dispatch caller => exact hafter (turning_onSession Session.turns_dispatchEvent)
  | trap e caller => exact hafter (turning_onSession (Session.turns_trapError e))
  | interrupt stop caller =>
    exact hafter ((quiet_modifyConsole _).bind_turning fun _ => turning_handleBreak stop)
  | switch wasExecuting caller => exact hafter (quiet_switchMode wasExecuting).turning
  | report s caller => exact hafter (turning_report s)
  | cycled outcome caller => exact (Keeps.refl m).turns
  | shutdown outcome => exact hafter (turning_shutdownPart outcome)
  | enter text => exact hafter (turning_storeLine text)
  | returned outcome => exact (Keeps.refl m).turns

/-- What the next operation makes of a moment, unless a new session begins. -/
theorem turns_next (source : EventSource) {t : Moment} (hold : ¬ t.Renews) :
    (∃ kind command, t.Commands kind command ∧
      t.machine.Turns (some (kind, command)) (t.next source.engine).machine) ∨
    (∀ kind command, ¬ t.Commands kind command) ∧
      t.machine.Turns none (t.next source.engine).machine := by
  by_cases hstatement : ∃ caller, t.control = .statement caller
  · obtain ⟨caller, hcontrol⟩ := hstatement
    obtain ⟨control, m⟩ := t
    cases hcontrol
    have hnext : (next source.engine ⟨.statement caller, m⟩).machine =
        left (statementPart source.engine m) := machine_after _ _ _ _
    rw [hnext]
    obtain ⟨kind, command, hcommands, hturns⟩ | ⟨hnone, hturns⟩ := turns_statementPart source m
    · exact .inl ⟨kind, command, ⟨⟨caller, rfl⟩, hcommands⟩, hturns⟩
    · exact .inr ⟨fun kind command hcommands => hnone kind command hcommands.2, hturns⟩
  · refine .inr ⟨fun kind command hcommands => hstatement hcommands.1, ?_⟩
    exact turning_next source hold fun caller hcontrol => hstatement ⟨caller, hcontrol⟩

/-! ## The beginning of a session -/

/-- The next operation takes up a saved session. -/
def TakesUp (t : Moment) : Prop :=
  t.control = .launch ∧ ∃ m', resumeSaved t.machine = .ok true m'

/-- Without a saved session the machine goes on to its program. -/
theorem next_launch_of_fresh (e : Engine) {m m' : Machine} (h : resumeSaved m = .ok false m') :
    next e ⟨.launch, m⟩ = ⟨.load, m'⟩ := by
  unfold next after
  dsimp only
  rw [h]
  rfl

/-- With one it goes on where that was. -/
theorem next_launch_of_taken (e : Engine) {m m' : Machine} (h : resumeSaved m = .ok true m') :
    next e ⟨.launch, m⟩ = ⟨.idle, m'⟩ := by
  unfold next after
  dsimp only
  rw [h]
  rfl

/-- Loading puts a program into the session, or leaves the one that is there. -/
theorem next_load (e : Engine) (m : Machine) :
    ∃ program console, (next e ⟨.load, m⟩).machine =
      { m with console, session := { m.session with program } } := by
  have hnext : (next e ⟨.load, m⟩).machine = left (m.config.program.elim (pure ()) loadProgram m) :=
    machine_after _ _ _ _
  rw [hnext]
  cases m.config.program with
  | none => exact ⟨m.session.program, m.console, rfl⟩
  | some name =>
    have hrefused : ∀ text, ∃ program console, left (writeMessage text none m) =
        { m with console, session := { m.session with program } } := by
      intro text
      obtain ⟨console, ⟨a, hok⟩ | herror⟩ := shows_writeMessage text none m
      · exact ⟨m.session.program, console, by rw [hok]; rfl⟩
      · exact ⟨m.session.program, console, by rw [herror]; rfl⟩
    show ∃ program console, left (loadProgram name m) = _
    simp only [loadProgram, bind_apply, get_apply]
    cases m.disk.read name with
    | error fault => exact hrefused _
    | ok bytes =>
      dsimp only
      cases Program.load bytes with
      | error e => exact hrefused _
      | ok program => exact ⟨program, m.console, rfl⟩

theorem begun_after {α : Type} {x : MachineM α} {m : Machine} {ok : α → Control}
    {error : Signal → Control} (hok : ∀ a, (ok a).begun = true) (herror : ∀ s, (error s).begun = true) :
    (after x m ok error).control.begun = true := by
  unfold after
  cases x m with
  | ok a m' => exact hok a
  | error s m' => exact herror s

/-- Only a reset leads to a launch, and only a launch to the loading of a program. -/
theorem begun_next (e : Engine) {t : Moment} (hlaunch : t.control ≠ .launch)
    (hreset : t.control ≠ .reset) : (t.next e).control.begun = true := by
  obtain ⟨control, m⟩ := t
  cases control with
  | launch => exact absurd rfl hlaunch
  | reset => exact absurd rfl hreset
  | load => exact begun_after (fun _ => rfl) Control.begun_leave
  | greet config => exact begun_after (fun _ => rfl) Control.begun_leave
  | command config =>
    unfold next
    dsimp only
    cases config.exec with
    | none => exact rfl
    | some text =>
      refine begun_after (fun _ => rfl) fun s => ?_
      cases s with
      | error e => exact rfl
      | interrupt stop => exact Control.begun_leave _
      | exit => exact Control.begun_leave _
      | reset => exact Control.begun_leave _
      | fault message => exact Control.begun_leave _
  | refuse e config => exact begun_after (fun _ => rfl) Control.begun_leave
  | commanded stored config =>
    exact begun_after (fun _ => Control.begun_ite rfl rfl) Control.begun_leave
  | begin config => exact begun_after (fun _ => rfl) Control.begun_leave
  | idle => exact Control.begun_ite rfl rfl
  | pass caller =>
    unfold next
    dsimp only
    cases m.session.mode with
    | executing => exact begun_after (fun _ => rfl) (Control.begun_failed caller)
    | autoNumbering => exact begun_after (fun _ => rfl) fun _ => rfl
    | direct =>
      exact begun_after (fun _ => Control.begun_ite rfl rfl) fun _ => rfl
  | dispatch caller => exact begun_after (fun _ => rfl) (Control.begun_failed caller)
  | statement caller => exact begun_after (fun _ => rfl) (Control.begun_failed caller)
  | trap e caller => exact begun_after (fun _ => rfl) fun _ => rfl
  | interrupt stop caller => exact begun_after (fun _ => rfl) fun _ => rfl
  | switch wasExecuting caller =>
    exact begun_after (fun _ => Control.begun_ite rfl rfl) fun _ => rfl
  | report s caller => exact begun_after (fun _ => rfl) fun _ => rfl
  | cycled outcome caller => exact Control.begun_resumed caller outcome
  | shutdown outcome => exact begun_after (fun _ => Control.begun_ended outcome) Control.begun_leave
  | enter text => exact begun_after (fun _ => rfl) fun _ => rfl
  | returned outcome => exact rfl

/-- What the next operation makes of the machine. -/
inductive Passage (t : Moment) : Machine → Prop where
  /-- A saved session is taken up. -/
  | taken {m' : Machine} (hcontrol : t.control = .launch)
      (hsaved : resumeSaved t.machine = .ok true m') : t.Passage m'
  /-- There is no saved session to take up. -/
  | launched (hcontrol : t.control = .launch) (disk : Disk) : t.Passage { t.machine with disk }
  | loaded (hcontrol : t.control = .load) (program : Program) (console : Console) :
      t.Passage { t.machine with console, session := { t.machine.session with program } }
  | renewed (hcontrol : t.control = .reset) (disk : Disk) :
      t.Passage { t.machine with
        disk
        session := freshSession t.machine.config
        config := { t.machine.config with resume := false } }
  /-- The session goes on. -/
  | turned {label : Option (EventKind × EventCommand)} {m' : Machine}
      (hlabel : ∀ kind command, t.Commands kind command ↔ label = some (kind, command))
      (hturns : t.machine.Turns label m') : t.Passage m'

/-- At a moment at most one command is given to a trap. -/
theorem Commands.unique {t : Moment} {kind kind' : EventKind} {command command' : EventCommand}
    (h : t.Commands kind command) (h' : t.Commands kind' command') :
    (kind, command) = (kind', command') := by
  cases h.2.1.unique h'.2.1
  rfl

/-- What one moment makes of the memory. -/
theorem passage_next (source : EventSource) (t : Moment) :
    t.Passage (t.next source.engine).machine := by
  by_cases hrenews : t.Renews
  · obtain ⟨control, m⟩ := t
    obtain hcontrol | hcontrol | hcontrol := hrenews
    · cases hcontrol
      obtain ⟨disk, hfresh⟩ | ⟨m', hsaved⟩ := resumeSaved_cases m
      · rw [next_launch_of_fresh source.engine hfresh]
        exact .launched rfl disk
      · rw [next_launch_of_taken source.engine hsaved]
        exact .taken rfl hsaved
    · cases hcontrol
      obtain ⟨program, console, hload⟩ := next_load source.engine m
      rw [hload]
      exact .loaded rfl program console
    · cases hcontrol
      exact .renewed rfl _
  · obtain ⟨kind, command, hcommands, hturns⟩ | ⟨hnone, hturns⟩ := turns_next source hrenews
    · refine .turned ?_ hturns
      intro kind' command'
      constructor
      · intro hcommands'
        exact congrArg some (hcommands.unique hcommands')
      · rintro ⟨⟩
        exact hcommands
    · refine .turned ?_ hturns
      intro kind command
      exact iff_of_false (hnone kind command) nofun

end Moment

end LineBasic

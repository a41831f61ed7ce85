import LineBasic.Proofs.Machine.Footing
import LineBasic.Proofs.Machine.Memory

/-!
# How a run ends

On a console that works, nothing but a request to leave or to start anew gets through the reports of a
cycle.  A run then ends with the shutdown of its session, and with success; only the line that is
configured to be entered first can leave without a shutdown.

* `Control.Underway`: what a machine may be about to do while a run goes on.
* `Moment.underway_next`: the next operation goes on with the run, or concludes it.
* `run_shuts_down_iff`: which runs end with a shutdown.
-/

namespace LineBasic

open Effect

/-! ## Runs under way -/

/-- What can be the outcome of a cycle on a console that works. -/
inductive Quits : Except Signal Unit → Prop where
  | done : Quits (.ok ())
  | exit : Quits (.error .exit)
  | reset : Quits (.error .reset)

namespace Control

/-- A run goes on: it has not returned, and nobody but the run itself waits for a cycle to end. -/
def Underway : Control → Prop
  | pass caller => caller ≠ .owner
  | dispatch caller => caller ≠ .owner
  | statement caller => caller ≠ .owner
  | trap _ caller => caller ≠ .owner
  | interrupt _ caller => caller ≠ .owner
  | switch _ caller => caller ≠ .owner
  | report _ caller => caller ≠ .owner
  | cycled outcome caller => caller ≠ .owner ∧ Quits outcome
  | shutdown outcome => Quits outcome
  | enter _ => False
  | returned _ => False
  | _ => True

theorem underway_failed {caller : Caller} (h : caller ≠ .owner) (s : Signal) :
    (failed caller s).Underway := by
  cases s <;> exact h

theorem underway_ite {c : Prop} [Decidable c] {a b : Control} (ha : a.Underway) (hb : b.Underway) :
    (if c then a else b).Underway := by
  split
  · exact ha
  · exact hb

end Control

/-- What a break leaves of a session.  If a program ran, `CONT` goes on where it was. -/
def Session.broken (s : Session) : Session :=
  { s.endExecution with
    stop := if s.inProgram then some s.program.pos else s.stop
    awaitingInput := false }

namespace Machine

/-! ## Signals -/

/-- An operation that raises no signal but an error. -/
def Refuses {α : Type} (x : MachineM α) : Prop :=
  ∀ m s m', x m = .error s m' → ∃ e, s = .error e

section Refuses

variable {α β : Type} {x : MachineM α} {f : α → MachineM β}

theorem Refuses.pure (a : α) : Refuses (pure a : MachineM α) := by
  rintro m s m' ⟨⟩

theorem Refuses.bind (hx : Refuses x) (hf : ∀ a, Refuses (f a)) : Refuses (x >>= f) := by
  intro m s m' h
  rw [bind_apply] at h
  cases hxm : x m with
  | ok a m₁ =>
    rw [hxm] at h
    exact hf a m₁ s m' h
  | error s₁ m₁ =>
    rw [hxm] at h
    cases h
    exact hx m s m' hxm

theorem Refuses.ite {c : Prop} [Decidable c] {y : MachineM α} (hx : Refuses x) (hy : Refuses y) :
    Refuses (if c then x else y) := by
  split
  · exact hx
  · exact hy

theorem refuses_get : Refuses (get : MachineM Machine) := by
  rintro m s m' ⟨⟩

theorem refuses_modifySession (f : Session → Session) : Refuses (modifySession f) := by
  rintro m s m' ⟨⟩

theorem refuses_ofExcept (r : Except BasicError α) : Refuses (ofExcept r) := by
  intro m s m' h
  cases r with
  | ok a => cases h
  | error e =>
    cases h
    exact ⟨e, rfl⟩

end Refuses

theorem refuses_checkDirect : Refuses checkDirect := by
  intro m s m' h
  unfold checkDirect at h
  cases hcheck : Program.checkNumbered m.session.direct with
  | ok a direct =>
    rw [hcheck] at h
    cases h
  | error e direct =>
    rw [hcheck] at h
    cases h
    exact ⟨e, rfl⟩

/-- A line is stored or executed next, or refused with an error. -/
theorem refuses_storeLine (text : String) : Refuses (storeLine text) := by
  have htake : Refuses (takeLine text) := (refuses_modifySession _).bind fun _ => .pure _
  have hedit : Refuses (editProgram true) := by
    refine refuses_checkDirect.bind fun checked => refuses_get.bind fun m => ?_
    exact (refuses_ofExcept _).bind fun _ => (refuses_modifySession _).bind fun _ => .pure _
  unfold storeLine
  refine .ite (.pure true) (htake.bind fun isNumbered => .ite ?_ ?_)
  · exact hedit.bind fun _ => refuses_get.bind fun _ => .pure _
  · exact (refuses_modifySession _).bind fun _ => .pure false

/-! ## Reports -/

/-- On a working console an error is reported. -/
theorem handleError_succeeds {m : Machine} (hm : m.console.Works) (e : BasicError) :
    ∃ m', handleError e m = .ok () m' := by
  obtain ⟨⟨⟩, console, -, hshown⟩ :=
    says_writeMessage e.text (e.line.or (m.session.lineOf? e.location)) m hm
  obtain ⟨session, hok, -⟩ := handleError_of_shown hshown
  exact ⟨_, hok⟩

/-- What follows the sign of a break. -/
def breakReport (stop : Bool) : MachineM Unit := do
  let s := (← get).session
  if s.inProgram then modifySession fun s => { s with stop := some s.program.pos }
  let line := if s.inProgram then
      s.program.lineAt? (if stop then s.statement else s.program.pos)
    else none
  writeMessage "Break" line
  modifySession fun s => { s.endExecution with awaitingInput := false }

/-- On a working console a break is reported. -/
theorem breakReport_apply {m : Machine} (hm : m.console.Works) (stop : Bool) :
    ∃ console, console.Works ∧
      breakReport stop m = .ok () { m with console, session := m.session.broken } := by
  have hreport : ∀ {m : Machine} (line : Option UInt16), m.console.Works →
      ∃ console, console.Works ∧ (do
        writeMessage "Break" line
        modifySession fun s => { s.endExecution with awaitingInput := false } : MachineM Unit) m =
        .ok () { m with
          console, session := { m.session.endExecution with awaitingInput := false } } := by
    intro m line hm
    obtain ⟨⟨⟩, console, hconsole, hshown⟩ := says_writeMessage "Break" line m hm
    exact ⟨console, hconsole, by rw [bind_apply, hshown]; rfl⟩
  let line := if m.session.inProgram then
      m.session.program.lineAt? (if stop then m.session.statement else m.session.program.pos)
    else none
  by_cases hcode : m.session.inProgram = true
  · let m₁ : Machine := { m with session := { m.session with stop := some m.session.program.pos } }
    obtain ⟨console, hconsole, hok⟩ := hreport (m := m₁) line hm
    refine ⟨console, hconsole, ?_⟩
    rw [Session.broken, if_pos hcode]
    refine Eq.trans ?_ hok
    simp only [breakReport, bind_apply, get_apply, Effect.ite_apply]
    rw [if_pos hcode]
    rfl
  · obtain ⟨console, hconsole, hok⟩ := hreport line hm
    refine ⟨console, hconsole, ?_⟩
    rw [Session.broken, if_neg hcode]
    refine Eq.trans ?_ hok
    simp only [breakReport, bind_apply, get_apply, Effect.ite_apply]
    rw [if_neg hcode]

/-- A break is reported and execution is left. -/
theorem handleBreak_apply {m : Machine} (hm : m.console.Works) (stop : Bool) :
    ∃ console, console.Works ∧
      handleBreak stop m = .ok () { m with console, session := m.session.broken } := by
  have hbreak : handleBreak stop m = (if !m.session.awaitingInput && !stop then
      write "^C" >>= fun _ => breakReport stop else breakReport stop) m := rfl
  rw [hbreak, Effect.ite_apply]
  split
  · obtain ⟨⟨⟩, console, hconsole, hsign⟩ := says_write "^C" m hm
    rw [bind_apply, hsign]
    exact breakReport_apply (m := { m with console }) hconsole stop
  · exact breakReport_apply hm stop

theorem handleFault_succeeds {m : Machine} (hm : m.console.Works) (message : String) :
    ∃ m', handleFault message m = .ok () m' := by
  let m₁ : Machine := { m with
    session := { Session.setPointer
      { m.session with autoActive := false, mode := .direct, awaitingInput := false } false none with
      prompt := true } }
  obtain ⟨⟨⟩, console, -, hshown⟩ := (says_startLine.bind fun _ =>
    says_writeLine ("Internal error; " ++ message)) m₁ hm
  exact ⟨_, hshown⟩

theorem loadProgram_succeeds {m : Machine} (hm : m.console.Works) (name : String) :
    ∃ m', loadProgram name m = .ok () m' := by
  have hrefused : ∀ e : BasicError, ∃ m', writeMessage e.text none m = .ok () m' := by
    intro e
    obtain ⟨⟨⟩, console, -, hshown⟩ := says_writeMessage e.text none m hm
    exact ⟨_, hshown⟩
  simp only [loadProgram, bind_apply, get_apply]
  cases m.disk.read name with
  | error fault => exact hrefused _
  | ok bytes =>
    dsimp only
    cases Program.load bytes with
    | error e => exact hrefused e
    | ok program => exact ⟨_, rfl⟩

/-- On a console that works, all is reported but a request to leave or to start anew. -/
theorem report_cases {m : Machine} (hm : m.console.Works) (s : Signal) :
    (∃ m', report s m = .ok () m') ∨ (s = .exit ∨ s = .reset) ∧ report s m = .error s m := by
  cases s with
  | error e =>
    obtain ⟨m', hok⟩ := handleError_succeeds hm e
    exact .inl ⟨_, by simp only [report, bind_apply, hok]; rfl⟩
  | interrupt stop =>
    obtain ⟨console, -, hok⟩ :=
      handleBreak_apply (m := { m with console := m.console.note .stopSound }) hm stop
    exact .inl ⟨_, by simp only [report, bind_apply, modifyConsole, modify_apply, hok]; rfl⟩
  | fault message => exact .inl (handleFault_succeeds hm message)
  | exit => exact .inr ⟨.inl rfl, rfl⟩
  | reset => exact .inr ⟨.inr rfl, rfl⟩

/-- The session has been saved, and files and console have been closed. -/
structure ShutDown (m m' : Machine) : Prop where
  disk : m'.disk = Snapshot.save m.disk m.session m.config.stateFile
  files : m'.session.files = m.session.files.closeAll
  console : m'.console.transcript.head? = some .close

end Machine

namespace Moment

open Machine

theorem after_of_ok {α : Type} {x : MachineM α} {m m' : Machine} {a : α} {ok : α → Control}
    {error : Signal → Control} (h : x m = .ok a m') : after x m ok error = ⟨ok a, m'⟩ := by
  unfold after
  rw [h]

theorem underway_after {α : Type} {x : MachineM α} {m : Machine} {ok : α → Control}
    {error : Signal → Control} (hok : ∀ a, (ok a).Underway)
    (herror : ∀ s m', x m = .error s m' → (error s).Underway) :
    (after x m ok error).control.Underway := by
  unfold after
  cases hx : x m with
  | ok a m' => exact hok a
  | error s m' => exact herror s m' hx

/-- The line that is configured to be entered first has asked to leave. -/
def LeavesAtStart (t : Moment) : Prop :=
  ∃ config, t.control = .cycled (.error .exit) (.start config)

/-- The next operation shuts the session down, and leaves the machine as given. -/
def ShutsDown (t : Moment) (m' : Machine) : Prop :=
  (∃ ended, t.control = .shutdown ended) ∧ t.machine.ShutDown m'

/-- The end of a run: with a shutdown, or because the first line has asked to leave. -/
inductive Ends (t : Moment) : Moment → Prop where
  | shutDown {m' : Machine} (h : t.ShutsDown m') : t.Ends ⟨.returned (.ok ()), m'⟩
  | left (h : t.LeavesAtStart) : t.Ends ⟨.returned (.error .exit), t.machine⟩

/-- After any of these outcomes a shutdown succeeds. -/
theorem shutdownPart_apply {outcome : Except Signal Unit} (h : Quits outcome) (m : Machine) :
    ∃ m', shutdownPart outcome m = .ok () m' ∧ m.ShutDown m' := by
  have hshutdown : ∀ console, ∃ m', shutdown { m with console } = .ok () m' ∧ m.ShutDown m' :=
    fun _ => ⟨_, rfl, rfl, rfl, rfl⟩
  cases h with
  | done => exact hshutdown m.console
  | reset => exact hshutdown m.console
  | exit =>
    have hpart : shutdownPart (.error .exit) m = (if m.config.wait then
        modifyConsole (fun c => c.note .waitKey) >>= fun _ => shutdown else shutdown) m := rfl
    rw [hpart, Effect.ite_apply]
    split
    · exact hshutdown (m.console.note .waitKey)
    · exact hshutdown m.console

theorem underway_shutdown (e : Engine) {outcome : Except Signal Unit} (h : Quits outcome)
    (m : Machine) : (next e ⟨.shutdown outcome, m⟩).control.Underway ∨
      Ends ⟨.shutdown outcome, m⟩ (next e ⟨.shutdown outcome, m⟩) := by
  obtain ⟨m', hok, hdown⟩ := shutdownPart_apply h m
  have hnext : next e ⟨.shutdown outcome, m⟩ = ⟨.ended outcome, m'⟩ := after_of_ok hok
  rw [hnext]
  cases h with
  | done => exact .inr (.shutDown ⟨⟨_, rfl⟩, hdown⟩)
  | exit => exact .inr (.shutDown ⟨⟨_, rfl⟩, hdown⟩)
  | reset => exact .inl trivial

theorem underway_cycled (e : Engine) {outcome : Except Signal Unit} (h : Quits outcome)
    {caller : Caller} (hcaller : caller ≠ .owner) (m : Machine) :
    (next e ⟨.cycled outcome caller, m⟩).control.Underway ∨
      Ends ⟨.cycled outcome caller, m⟩ (next e ⟨.cycled outcome caller, m⟩) := by
  have hnext : next e ⟨.cycled outcome caller, m⟩ = ⟨.resumed caller outcome, m⟩ := rfl
  rw [hnext]
  cases caller with
  | owner => exact absurd rfl hcaller
  | start config =>
    cases h with
    | done => exact .inl trivial
    | exit => exact .inr (.left ⟨config, rfl⟩)
    | reset => exact .inl trivial
  | mainLoop =>
    cases h with
    | done => exact .inl trivial
    | exit => exact .inl .exit
    | reset => exact .inl .reset

/-- On a console that works, the next operation goes on with the run or ends it. -/
theorem underway_next (e : Engine) {t : Moment} (h : t.control.Underway)
    (hworks : t.machine.console.Works) : (t.next e).control.Underway ∨ t.Ends (t.next e) := by
  obtain ⟨control, m⟩ := t
  -- what follows an operation that succeeds
  have hsucceeds : ∀ {α : Type} {x : MachineM α} {ok : α → Control} {error : Signal → Control},
      (∃ a m', x m = .ok a m') → (∀ a, (ok a).Underway) →
        (after x m ok error).control.Underway := by
    rintro α x ok error ⟨a, m', hx⟩ hok
    rw [after_of_ok hx]
    exact hok a
  have hsaid : ∀ {α : Type} {x : MachineM α}, Says x → ∃ a m', x m = .ok a m' := by
    intro α x hx
    obtain ⟨a, console, -, hok⟩ := hx m hworks
    exact ⟨a, _, hok⟩
  cases control with
  | launch =>
    refine .inl (hsucceeds ?_ fun taken => Control.underway_ite trivial trivial)
    obtain ⟨disk, hfresh⟩ | ⟨m', htaken⟩ := resumeSaved_cases m
    · exact ⟨false, _, hfresh⟩
    · exact ⟨true, m', htaken⟩
  | load =>
    refine .inl (hsucceeds ?_ fun _ => trivial)
    cases m.config.program with
    | none => exact ⟨(), m, rfl⟩
    | some name => exact ⟨(), loadProgram_succeeds hworks name⟩
  | greet config =>
    exact .inl (hsucceeds (hsaid (.ite (says_writeLine _) (.pure ()))) fun _ => trivial)
  | command config =>
    unfold next
    dsimp only
    cases config.exec with
    | none => exact .inl trivial
    | some text =>
      refine .inl (underway_after (fun _ => trivial) ?_)
      intro s m' hrefused
      obtain ⟨e, rfl⟩ := refuses_storeLine text m s m' hrefused
      exact trivial
  | refuse e config =>
    obtain ⟨m', hok⟩ := handleError_succeeds hworks e
    exact .inl (hsucceeds ⟨(), m', hok⟩ fun _ => trivial)
  | commanded stored config =>
    refine .inl (hsucceeds ⟨(), _, rfl⟩ fun _ => Control.underway_ite ?_ trivial)
    exact nofun
  | begin config =>
    refine .inl (hsucceeds ?_ fun _ => trivial)
    split
    · exact ⟨(), _, rfl⟩
    · exact ⟨(), _, rfl⟩
  | idle => exact .inl (Control.underway_ite .done nofun)
  | pass caller =>
    refine .inl ?_
    unfold next
    dsimp only
    cases m.session.mode with
    | executing => exact underway_after (fun _ => h) fun s _ _ => Control.underway_failed h s
    | autoNumbering => exact underway_after (fun _ => h) fun _ _ _ => h
    | direct => exact underway_after (fun _ => Control.underway_ite h h) fun _ _ _ => h
  | dispatch caller =>
    exact .inl (underway_after (fun _ => h) fun s _ _ => Control.underway_failed h s)
  | statement caller =>
    exact .inl (underway_after (fun _ => h) fun s _ _ => Control.underway_failed h s)
  | trap e caller => exact .inl (underway_after (fun _ => h) fun _ _ _ => h)
  | interrupt stop caller => exact .inl (underway_after (fun _ => h) fun _ _ _ => h)
  | switch wasExecuting caller =>
    exact .inl (underway_after (fun _ => Control.underway_ite ⟨h, .done⟩ h) fun _ _ _ => h)
  | report s caller =>
    refine .inl ?_
    obtain ⟨m', hok⟩ | ⟨hs, herror⟩ := report_cases hworks s
    · exact hsucceeds ⟨(), m', hok⟩ fun _ => ⟨h, .done⟩
    · unfold next after
      dsimp only
      rw [herror]
      obtain rfl | rfl := hs
      · exact ⟨h, .exit⟩
      · exact ⟨h, .reset⟩
  | cycled outcome caller => exact underway_cycled e h.2 h.1 m
  | shutdown outcome => exact underway_shutdown e h m
  | reset => exact .inl trivial
  | enter text => exact h.elim
  | returned outcome => exact h.elim

/-- Once a run has ended nothing comes. -/
theorem next_of_ends (e : Engine) {t u : Moment} (h : t.Ends u) : u.next e = u := by
  cases h <;> rfl

/-- A run goes on, or it has ended in one of its moments. -/
theorem underway_moment {poll : MachineM Unit} (hpoll : Upholding poll) {m : Machine}
    (hm : m.console.Works) (n : Nat) :
    (m.moment (.polling poll) n).control.Underway ∨
      ∃ k, (m.moment (.polling poll) k).Ends (m.moment (.polling poll) (k + 1)) ∧
        m.moment (.polling poll) n = m.moment (.polling poll) (k + 1) := by
  induction n with
  | zero => exact .inl trivial
  | succ n ih =>
    obtain hunderway | ⟨k, hends, hlast⟩ := ih
    · have hworks := (upholds_moment hpoll m n).console hm
      obtain hnext | hends := underway_next (.polling poll) hunderway hworks
      · rw [moment_succ]
        exact .inl hnext
      · rw [← moment_succ] at hends
        exact .inr ⟨n, hends, rfl⟩
    · refine .inr ⟨k, hends, ?_⟩
      rw [moment_succ, hlast]
      exact next_of_ends _ hends

end Moment

namespace Machine

open Moment

/-- A run on a console that works ends with the shutdown of its session and with success, unless the line
that is configured to be entered first has asked to leave.  Such a run ends there and then, with the
request as its outcome. -/
theorem run_shuts_down_iff {poll : MachineM Unit} (hpoll : Upholding poll) {m m' : Machine}
    (hm : m.console.Works) {bound : Nat} {outcome : Except Signal Unit}
    (hrun : run (.polling poll) bound m = some (outcome, m')) :
    ∃ n, m.moment (.polling poll) (n + 1) = ⟨.returned outcome, m'⟩ ∧
      ((m.moment (.polling poll) n).ShutsDown m' ∧ outcome = .ok () ↔
        ¬ (m.moment (.polling poll) n).LeavesAtStart) ∧
      ((m.moment (.polling poll) n).LeavesAtStart →
        outcome = .error .exit ∧ m' = (m.moment (.polling poll) n).machine) := by
  obtain ⟨last, hlast⟩ := exists_moment_of_run hrun
  obtain hunderway | ⟨n, hends, hmoment⟩ := underway_moment hpoll hm last
  · rw [hlast] at hunderway
    exact hunderway.elim
  · rw [← hmoment, hlast] at hends
    refine ⟨n, hmoment.symm.trans hlast, ?_⟩
    generalize m.moment (.polling poll) n = t at hends
    cases hends with
    | shutDown h =>
      have hstays : ¬ t.LeavesAtStart := by
        rintro ⟨config, hleft⟩
        obtain ⟨ended, hshutdown⟩ := h.1
        rw [hleft] at hshutdown
        cases hshutdown
      exact ⟨iff_of_true ⟨h, rfl⟩ hstays, fun hleaves => absurd hleaves hstays⟩
    | left h =>
      refine ⟨iff_of_false ?_ (not_not_intro h), fun _ => ⟨rfl, rfl⟩⟩
      rintro ⟨-, ⟨⟩⟩

/-- A line is executed at the start, and then the operator leaves. -/
def leaving : Machine :=
  .new { exec := some "PRINT 1", stateFile := some "s.bin" } { input := [.typed "SYSTEM"] } {} {} 0

/-- The run succeeds, and its last operation is the shutdown. -/
theorem leaving_shuts_down :
    ∃ n m', run .standard 8 leaving = some (.ok (), m') ∧
      leaving.moment .standard (n + 1) = ⟨.returned (.ok ()), m'⟩ ∧
      (leaving.moment .standard n).ShutsDown m' := by
  have hworks : leaving.console.Works := Console.works_of_nil rfl rfl
  obtain ⟨m', hrun⟩ := exists_of_succeeds (x := run .standard 8) (m := leaving) (by decide +kernel)
  obtain ⟨n, hlast, hiff, hleaves⟩ :=
    run_shuts_down_iff EventSource.silent_feed.upholding hworks hrun
  have hstays : ¬ (leaving.moment .standard n).LeavesAtStart := by
    intro h
    cases (hleaves h).1
  exact ⟨n, m', hrun, hlast, (hiff.2 hstays).1⟩

/-- Whether a run ends with a request to leave, with nothing saved and no word to the console. -/
def leavesSilently (x : LoopM Unit) (m : Machine) : Bool :=
  match x m with
  | some (.error .exit, m') => m'.disk.entries.isEmpty && m'.console.transcript.isEmpty
  | _ => false

theorem exists_of_leavesSilently {x : LoopM Unit} {m : Machine} (h : leavesSilently x m = true) :
    ∃ m', x m = some (.error .exit, m') ∧ m'.disk.entries = [] ∧ m'.console.transcript = [] := by
  unfold leavesSilently at h
  split at h
  · obtain ⟨hdisk, hconsole⟩ := Bool.and_eq_true_iff.1 h
    exact ⟨_, by assumption, List.isEmpty_iff.1 hdisk, List.isEmpty_iff.1 hconsole⟩
  · cases h

/-- The line that is entered at the start asks to leave. -/
def leavingAtOnce : Machine :=
  .new { exec := some "SYSTEM", stateFile := some "s.bin" } { input := [.typed "PRINT 1"] } {} {} 0

/-- The request is the outcome of the run.  The session is not saved, and the console is not closed. -/
theorem leavingAtOnce_not_saved :
    ∃ m', run .standard 8 leavingAtOnce = some (.error .exit, m') ∧
      m'.disk.entries = [] ∧ m'.console.transcript = [] :=
  exists_of_leavesSilently (by decide +kernel)

end Machine

end LineBasic

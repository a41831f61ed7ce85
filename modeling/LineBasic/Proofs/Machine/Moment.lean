import Mathlib.Logic.Function.Iterate
import LineBasic.Proofs.Machine.ErrorTrap

/-!
# Runs, moment by moment

`Machine.run` and `Machine.cycle` are loops: they tell of a machine only once they have come to an
end, and some never do.  Here a run is a sequence of moments.  In each the machine is between two
operations, and its `Control` says which one comes next.

* `Moment.next`: what the next operation makes of a moment.
* `Machine.moment`: the moments of a run, without end if the run has none.
* `Moment.Reached`: the moments of a machine that is run, cycled and given lines in any order.
* `follows_cycle`, `exists_moment_of_run`, `Reached.returned`: where a loop comes to an end, its
  moments lead to the same machine and the same outcome.
-/

namespace LineBasic

/-! ## Control -/

/-- Who waits for a cycle to end. -/
inductive Caller where
  /-- The owner of the machine. -/
  | owner
  /-- The start of a session, which has entered the configured line. -/
  | start (config : Config)
  | mainLoop

/-- What a machine is about to do. -/
inductive Control where
  /-- To take up the saved session, or else to start one. -/
  | launch
  /-- To load the configured program. -/
  | load
  | greet (config : Config)
  /-- To enter the configured line. -/
  | command (config : Config)
  /-- To report that the configured line was refused. -/
  | refuse (e : BasicError) (config : Config)
  /-- To execute the configured line, unless it was stored. -/
  | commanded (stored : Bool) (config : Config)
  /-- To start the program if that is configured. -/
  | begin (config : Config)
  /-- To begin a cycle, unless there is nothing left to do. -/
  | idle
  /-- To begin a pass of a cycle; when a program runs, to look for events. -/
  | pass (caller : Caller)
  | dispatch (caller : Caller)
  | statement (caller : Caller)
  /-- To send an error to the program's handler. -/
  | trap (e : BasicError) (caller : Caller)
  | interrupt (stop : Bool) (caller : Caller)
  /-- To end a pass. -/
  | switch (wasExecuting : Bool) (caller : Caller)
  | report (s : Signal) (caller : Caller)
  /-- To go on after a cycle. -/
  | cycled (outcome : Except Signal Unit) (caller : Caller)
  | shutdown (outcome : Except Signal Unit)
  | reset
  /-- To enter a line of the owner. -/
  | enter (text : String)
  /-- To wait for the next call of the owner. -/
  | returned (outcome : Except Signal Unit)

namespace Control

/-- How a launch ends early. -/
def leave : Signal → Control
  | .reset => reset
  | s => returned (.error s)

/-- Where a signal that ended a step of execution goes. -/
def failed (caller : Caller) : Signal → Control
  | .error e => trap e caller
  | .interrupt stop => interrupt stop caller
  | s => report s caller

/-- How the session goes on after a cycle. -/
def resumed : Caller → Except Signal Unit → Control
  | .owner, outcome => returned outcome
  | .start config, .ok () => begin config
  | .start _, .error s => leave s
  | .mainLoop, .ok () => idle
  | .mainLoop, .error s => shutdown (.error s)

/-- How a launch ends after the shutdown.  Leaving is no failure. -/
def ended : Except Signal Unit → Control
  | .ok () => returned (.ok ())
  | .error .exit => returned (.ok ())
  | .error s => leave s

end Control

/-- A machine between two operations. -/
structure Moment where
  control : Control
  machine : Machine

namespace Moment

open Machine

/-- The moment after an operation, by its outcome. -/
def after {α : Type} (x : MachineM α) (m : Machine) (ok : α → Control) (error : Signal → Control) :
    Moment :=
  match x m with
  | .ok a m => ⟨ok a, m⟩
  | .error s m => ⟨error s, m⟩

/-- Runs a statement, and leaves execution if there is nothing more to run. -/
def statementPart (e : Engine) : MachineM Unit := do
  if !(← e.statement) then modifySession Session.endExecution

/-- Stops the sound and reports a break. -/
def breakPart (stop : Bool) : MachineM Unit := do
  modifyConsole fun c => c.note .stopSound
  handleBreak stop

/-- Waits for a key if the operator has left, then shuts down. -/
def shutdownPart (outcome : Except Signal Unit) : MachineM Unit := do
  if outcome matches .error .exit then
    if (← get).config.wait then modifyConsole fun c => c.note .waitKey
  shutdown

/-- What the next operation makes of a moment. -/
def next (e : Engine) : Moment → Moment
  | ⟨.launch, m⟩ => after resumeSaved m (fun taken => if taken then .idle else .load) .leave
  | ⟨.load, m⟩ =>
    after (m.config.program.elim (pure ()) loadProgram) m (fun _ => .greet m.config) .leave
  | ⟨.greet config, m⟩ =>
    after (if config.greeting && !config.run && config.exec.isNone then writeLine greeting else pure ()) m
      (fun _ => .command config) .leave
  | ⟨.command config, m⟩ =>
    match config.exec with
    | none => ⟨.begin config, m⟩
    | some text =>
      after (storeLine text) m (fun stored => .commanded stored config) fun
        | .error e => .refuse e config
        | s => .leave s
  | ⟨.refuse err config, m⟩ => after (handleError err) m (fun _ => .begin config) .leave
  | ⟨.commanded stored config, m⟩ =>
    after (modifySession fun s => { s with prompt := !stored }) m
      (fun _ => if m.session.mode = .executing then .pass (.start config) else .begin config) .leave
  | ⟨.begin config, m⟩ =>
    after (if config.run then startProgram else pure ()) m (fun _ => .idle) .leave
  | ⟨.idle, m⟩ => ⟨if m.isIdle then .shutdown (.ok ()) else .pass .mainLoop, m⟩
  | ⟨.pass caller, m⟩ =>
    match m.session.mode with
    | .executing => after e.poll m (fun _ => .dispatch caller) (.failed caller)
    | .autoNumbering => after autoPass m (fun _ => .switch false caller) (.report · caller)
    | .direct =>
      after directPass m (fun taken => if taken then .switch false caller else .pass caller)
        (.report · caller)
  | ⟨.dispatch caller, m⟩ =>
    after (onSession Session.dispatchEvent) m (fun _ => .statement caller) (.failed caller)
  | ⟨.statement caller, m⟩ =>
    after (statementPart e) m (fun _ => .switch true caller) (.failed caller)
  | ⟨.trap err caller, m⟩ =>
    after (onSession (Session.trapError err)) m (fun _ => .switch true caller) (.report · caller)
  | ⟨.interrupt stop caller, m⟩ =>
    after (breakPart stop) m (fun _ => .switch true caller) (.report · caller)
  | ⟨.switch wasExecuting caller, m⟩ =>
    after (switchMode wasExecuting) m
      (fun settled => if settled then .cycled (.ok ()) caller else .pass caller) (.report · caller)
  | ⟨.report s caller, m⟩ =>
    after (report s) m (fun _ => .cycled (.ok ()) caller) fun s => .cycled (.error s) caller
  | ⟨.cycled outcome caller, m⟩ => ⟨.resumed caller outcome, m⟩
  | ⟨.shutdown outcome, m⟩ => after (shutdownPart outcome) m (fun _ => .ended outcome) .leave
  | ⟨.reset, m⟩ => after Machine.reset m (fun _ => .launch) fun s => .returned (.error s)
  | ⟨.enter text, m⟩ =>
    after (storeLine text) m (fun _ => .returned (.ok ())) fun s => .returned (.error s)
  | ⟨.returned outcome, m⟩ => ⟨.returned outcome, m⟩

/-- What the owner of a machine may ask for. -/
inductive Call where
  | run
  | cycle
  | enter (text : String)

/-- Where a call begins. -/
def Call.control : Call → Control
  | .run => .launch
  | .cycle => .pass .owner
  | .enter text => .enter text

/-- The moments of a machine under any sequence of calls.  Between calls the world may change: more
is typed, other events will happen, time passes. -/
inductive Reached (e : Engine) (m : Machine) : Moment → Prop where
  | new : Reached e m ⟨.returned (.ok ()), m⟩
  | called {outcome : Except Signal Unit} {m' : Machine} (h : Reached e m ⟨.returned outcome, m'⟩)
      (call : Call) (console : Console) (disk : Disk) (feed : EventFeed) (clock : Int64) :
      Reached e m ⟨call.control, { m' with console, disk, feed, clock }⟩
  | next {t : Moment} (h : Reached e m t) : Reached e m (t.next e)

end Moment

/-- The moments of a run. -/
def Machine.moment (e : Engine) (m : Machine) (n : Nat) : Moment :=
  (Moment.next e)^[n] ⟨.launch, m⟩

namespace Machine

theorem moment_succ (e : Engine) (m : Machine) (n : Nat) :
    m.moment e (n + 1) = (m.moment e n).next e :=
  Function.iterate_succ_apply' (Moment.next e) n ⟨.launch, m⟩

end Machine

namespace Moment

open Machine

/-! ## Sequences of moments -/

/-- One moment comes after another, or is the same. -/
def Leads (e : Engine) (t u : Moment) : Prop :=
  ∃ n, (next e)^[n] t = u

namespace Leads

variable {e : Engine} {t u v : Moment}

theorem refl (e : Engine) (t : Moment) : Leads e t t :=
  ⟨0, rfl⟩

theorem trans (h : Leads e t u) (h' : Leads e u v) : Leads e t v := by
  obtain ⟨n, rfl⟩ := h
  obtain ⟨k, rfl⟩ := h'
  exact ⟨k + n, Function.iterate_add_apply (next e) k n t⟩

theorem step (h : t.next e = u) : Leads e t u :=
  ⟨1, h⟩

theorem head (h : Leads e (t.next e) u) : Leads e t u :=
  (step rfl).trans h

end Leads

/-- What comes of a moment that is reached is reached too. -/
theorem Reached.leads {e : Engine} {m : Machine} {t u : Moment} (h : Reached e m t)
    (hleads : Leads e t u) : Reached e m u := by
  obtain ⟨n, rfl⟩ := hleads
  induction n generalizing t with
  | zero => exact h
  | succ n ih => exact ih h.next

/-- The moments from one on do what a loop does, and the outcome of the loop determines where they
lead. -/
def Follows {α : Type} (e : Engine) (t : Moment) (x : LoopM α) (k : Except Signal α → Control) :
    Prop :=
  ∀ r m', x t.machine = some (r, m') → Leads e t ⟨k r, m'⟩

/-- Where the outcome of an operation leads. -/
def sequel {α : Type} (ok : α → Control) (error : Signal → Control) : Except Signal α → Control
  | .ok a => ok a
  | .error s => error s

section Follows

variable {α β : Type} {e : Engine} {c : Control} {m : Machine}

/-- A single operation. -/
theorem follows_once {x : MachineM α} {k : Except Signal α → Control}
    (h : next e ⟨c, m⟩ = after x m (fun a => k (.ok a)) fun s => k (.error s)) :
    Follows e ⟨c, m⟩ (once x) k := by
  intro r m' hr
  have hr : once x m = some (r, m') := hr
  refine .step ?_
  rw [h]
  unfold after
  unfold once at hr
  cases hx : x m with
  | ok a m₁ =>
    rw [hx] at hr
    cases hr
    rfl
  | error s m₁ =>
    rw [hx] at hr
    cases hr
    rfl

theorem follows_pure {a : α} {k : Except Signal α → Control} (h : k (.ok a) = c) :
    Follows e ⟨c, m⟩ (pure a) k := by
  intro r m' hr
  cases hr
  rw [h]
  exact .refl e _

theorem follows_throw {s : Signal} {k : Except Signal α → Control} (h : k (.error s) = c) :
    Follows e ⟨c, m⟩ (throw s : LoopM α) k := by
  intro r m' hr
  cases hr
  rw [h]
  exact .refl e _

/-- An operation that only looks at the machine takes no time. -/
theorem Follows.head {x : LoopM α} {k : Except Signal α → Control} (c' : Control)
    (hnext : next e ⟨c, m⟩ = ⟨c', m⟩) (h : Follows e ⟨c', m⟩ x k) : Follows e ⟨c, m⟩ x k := by
  intro r m' hr
  refine .head ?_
  rw [hnext]
  exact h r m' hr

/-- One loop after another: the moments of the second follow those of the first. -/
theorem Follows.bind {x : LoopM α} {f : α → LoopM β} {k : Except Signal α → Control}
    {k' : Except Signal β → Control} (hx : Follows e ⟨c, m⟩ x k)
    (hf : ∀ a m₁, x m = some (.ok a, m₁) → Follows e ⟨k (.ok a), m₁⟩ (f a) k')
    (herror : ∀ s, k (.error s) = k' (.error s)) : Follows e ⟨c, m⟩ (x >>= f) k' := by
  intro r m' hr
  have hr : (x >>= f) m = some (r, m') := hr
  rw [Loop.bind_apply] at hr
  cases hxm : x m with
  | none => simp [hxm] at hr
  | some outcome =>
    obtain ⟨a | s, m₁⟩ := outcome
    · rw [hxm] at hr
      cases hr
      rw [← herror]
      exact hx _ _ hxm
    · rw [hxm] at hr
      exact (hx _ _ hxm).trans (hf _ m₁ hxm r m' hr)

/-- A loop that fails, and what is made of its failure. -/
theorem Follows.recover {x : LoopM α} {f : Signal → LoopM α} {k k' : Except Signal α → Control}
    (hx : Follows e ⟨c, m⟩ x k)
    (hf : ∀ s m₁, x m = some (.error s, m₁) → Follows e ⟨k (.error s), m₁⟩ (f s) k')
    (hok : ∀ a, k (.ok a) = k' (.ok a)) : Follows e ⟨c, m⟩ (tryCatch x f) k' := by
  intro r m' hr
  have hr : tryCatch x f m = some (r, m') := hr
  rw [Loop.tryCatch_apply] at hr
  cases hxm : x m with
  | none => simp [hxm] at hr
  | some outcome =>
    obtain ⟨s | a, m₁⟩ := outcome
    · rw [hxm] at hr
      exact (hx _ _ hxm).trans (hf _ m₁ hxm r m' hr)
    · rw [hxm] at hr
      cases hr
      rw [← hok]
      exact hx _ _ hxm

theorem Follows.congr {x y : LoopM α} {k : Except Signal α → Control} (hxy : x m = y m)
    (h : Follows e ⟨c, m⟩ y k) : Follows e ⟨c, m⟩ x k := by
  intro r m' hr
  exact h r m' (hxy.symm.trans hr)

end Follows

/-! ## Cycles -/

theorem once_bind {α β : Type} (x : MachineM α) (f : α → MachineM β) :
    once (x >>= f) = once x >>= fun a => once (f a) := by
  funext m
  rw [Loop.bind_apply]
  simp only [once, Effect.bind_apply]
  cases x m with
  | ok a m₁ => rfl
  | error s m₁ => rfl

theorem once_tryCatch {α : Type} (x : MachineM α) (f : Signal → MachineM α) :
    once (tryCatch x f) = tryCatch (once x) fun s => once (f s) := by
  funext m
  rw [Loop.tryCatch_apply]
  simp only [once]
  cases hx : x m with
  | ok a m₁ => rw [Effect.tryCatch_of_ok hx]
  | error s m₁ => rw [Effect.tryCatch_of_error hx]

section Cycles

variable (e : Engine) (c : Caller) (m : Machine)

/-- Where a pass leads. -/
def passed (c : Caller) : Except Signal Bool → Control :=
  sequel (fun settled => if settled then .cycled (.ok ()) c else .pass c) (.report · c)

/-- The moments of a step: events, dispatch and statement. -/
theorem follows_step (hmode : m.session.mode = .executing) :
    Follows e ⟨.pass c, m⟩ (once (step e)) (sequel (fun _ => .switch true c) (.failed c)) := by
  have hstep : step e = e.poll >>= fun _ => onSession Session.dispatchEvent >>= fun _ =>
      statementPart e := rfl
  have hpoll : next e ⟨.pass c, m⟩ = after e.poll m (fun _ => .dispatch c) (.failed c) := by
    simp only [next, hmode]
  rw [hstep, once_bind]
  refine (follows_once (k := sequel (fun _ => .dispatch c) (.failed c)) hpoll).bind ?_ fun _ => rfl
  intro _ m₁ _
  rw [once_bind]
  refine (follows_once (k := sequel (fun _ => .statement c) (.failed c)) rfl).bind ?_ fun _ => rfl
  intro _ m₂ _
  exact follows_once rfl

/-- Those of a pass of execution, in which an error may be trapped. -/
theorem follows_executePass (hmode : m.session.mode = .executing) :
    Follows e ⟨.pass c, m⟩ (once (executePass e)) (sequel (fun _ => .switch true c) (.report · c)) := by
  rw [executePass, once_tryCatch]
  refine (follows_step e c m hmode).recover ?_ fun _ => rfl
  intro s m₁ _
  cases s with
  | error err => exact follows_once rfl
  | interrupt stop => exact follows_once rfl
  | exit => exact follows_throw rfl
  | reset => exact follows_throw rfl
  | fault message => exact follows_throw rfl

/-- Those of a pass in any mode. -/
theorem follows_pass : Follows e ⟨.pass c, m⟩ (once (pass e)) (passed c) := by
  cases hmode : m.session.mode with
  | executing =>
    have hpass : once (pass e) m = once (executePass e >>= fun _ => switchMode true) m := by
      simp [once, Machine.pass, hmode]
    refine Follows.congr hpass ?_
    rw [once_bind]
    refine (follows_executePass e c m hmode).bind ?_ fun _ => rfl
    intro _ m₁ _
    exact follows_once rfl
  | autoNumbering =>
    have hpass : once (pass e) m = once (autoPass >>= fun _ => switchMode false) m := by
      simp [once, Machine.pass, hmode]
    have hauto : next e ⟨.pass c, m⟩ = after autoPass m (fun _ => .switch false c) (.report · c) := by
      simp only [next, hmode]
    refine Follows.congr hpass ?_
    rw [once_bind]
    refine (follows_once (k := sequel (fun _ => .switch false c) (.report · c)) hauto).bind ?_
      fun _ => rfl
    intro _ m₁ _
    exact follows_once rfl
  | direct =>
    have hpass : once (pass e) m =
        once (directPass >>= fun taken => if taken then switchMode false else pure false) m := by
      simp [once, Machine.pass, hmode]
    have hdirect : next e ⟨.pass c, m⟩ = after directPass m
        (fun taken => if taken then .switch false c else .pass c) (.report · c) := by
      simp only [next, hmode]
    refine Follows.congr hpass ?_
    rw [once_bind]
    refine (follows_once (k := sequel (fun taken => if taken then .switch false c else .pass c)
      (.report · c)) hdirect).bind ?_ fun _ => rfl
    intro taken m₁ _
    cases taken with
    | true => exact follows_once rfl
    | false => exact follows_pure rfl

/-- Those of all the passes of a cycle. -/
theorem follows_settle (fuel : Nat) :
    Follows e ⟨.pass c, m⟩ (settle e fuel) (sequel (fun _ => .cycled (.ok ()) c) (.report · c)) := by
  induction fuel generalizing m with
  | zero =>
    intro r m' hr
    cases hr
  | succ fuel ih =>
    refine (follows_pass e c m).bind ?_ fun _ => rfl
    intro settled m₁ _
    cases settled with
    | true => exact follows_pure rfl
    | false => exact ih m₁

/-- The passes of a cycle, and the report of what ended it. -/
theorem follows_cycle (fuel : Nat) :
    Follows e ⟨.pass c, m⟩ (cycle e fuel) fun outcome => .cycled outcome c := by
  refine (follows_settle e c m fuel).recover ?_ fun _ => rfl
  intro s m₁ _
  exact follows_once rfl

/-- After a cycle it is the caller's turn. -/
theorem follows_cycle_resumed (fuel : Nat) :
    Follows e ⟨.pass c, m⟩ (cycle e fuel) (.resumed c) := by
  intro outcome m' hcycle
  exact (follows_cycle e c m fuel outcome m' hcycle).trans (.step rfl)

end Cycles

/-! ## Whole runs -/

section Runs

variable (e : Engine) (m : Machine) (bound : Nat)

/-- Those of cycle after cycle. -/
theorem follows_cycles (fuel : Nat) : Follows e ⟨.idle, m⟩ (cycles e bound fuel) .shutdown := by
  induction fuel generalizing m with
  | zero =>
    intro r m' hr
    cases hr
  | succ fuel ih =>
    by_cases hidle : m.isIdle = true
    · have hdone : cycles e bound (fuel + 1) m = (pure () : LoopM Unit) m := by
        simp [cycles, hidle]
      refine Follows.congr hdone (Follows.head (.shutdown (.ok ())) ?_ (follows_pure rfl))
      simp only [next, hidle, if_true]
    · have hmore : cycles e bound (fuel + 1) m =
          (cycle e bound >>= fun _ => cycles e bound fuel) m := by
        simp [cycles, hidle]
      refine Follows.congr hmore (Follows.head (.pass .mainLoop) ?_ ?_)
      · simp only [next, hidle]
        rfl
      · refine (follows_cycle_resumed e .mainLoop m bound).bind ?_ fun _ => rfl
        intro _ m₁ _
        exact ih m₁

/-- Where a launch leads. -/
def launched : Except Signal Unit → Control :=
  sequel (fun _ => .returned (.ok ())) .leave

/-- The outcome of a session, for the outcome of its cycles. -/
def conclude : Except Signal Unit → LoopM Unit
  | .ok () => pure ()
  | .error .exit => pure ()
  | .error s => throw s

/-- The main loop: cycles, then the shutdown. -/
theorem mainLoop_apply :
    mainLoop e bound m =
      match cycles e bound bound m with
      | none => none
      | some (outcome, m₁) => (once (shutdownPart outcome) >>= fun _ => conclude outcome) m₁ := by
  simp only [mainLoop, Loop.bind_apply, Loop.tryCatch_apply]
  cases cycles e bound bound m with
  | none => rfl
  | some result =>
    obtain ⟨outcome, m₁⟩ := result
    cases outcome with
    | ok => rfl
    | error s =>
      cases s with
      | exit =>
        cases hwait : m₁.config.wait with
        | true => simp [shutdownPart, shutdown, modifyConsole, once, conclude, hwait]
        | false => simp [shutdownPart, shutdown, once, conclude, hwait]
      | error err => rfl
      | interrupt stop => rfl
      | reset => rfl
      | fault message => rfl

/-- The moments of the main loop. -/
theorem follows_mainLoop : Follows e ⟨.idle, m⟩ (mainLoop e bound) launched := by
  intro r m' hr
  have hr : mainLoop e bound m = some (r, m') := hr
  rw [mainLoop_apply] at hr
  cases hcycles : cycles e bound bound m with
  | none => simp [hcycles] at hr
  | some result =>
    obtain ⟨outcome, m₁⟩ := result
    rw [hcycles] at hr
    refine (follows_cycles e m bound bound outcome m₁ hcycles).trans ?_
    have hshutdown : Follows e ⟨.shutdown outcome, m₁⟩
        (once (shutdownPart outcome) >>= fun _ => conclude outcome) launched := by
      refine (follows_once (k := sequel (fun _ => .ended outcome) .leave) rfl).bind ?_ fun _ => rfl
      intro _ m₂ _
      cases outcome with
      | ok => exact follows_pure rfl
      | error s =>
        cases s with
        | exit => exact follows_pure rfl
        | error err => exact follows_throw rfl
        | interrupt stop => exact follows_throw rfl
        | reset => exact follows_throw rfl
        | fault message => exact follows_throw rfl
    exact hshutdown r m' hr

/-! The start of a session, from each of its stages on. -/

/-- Starts the program if that is configured, and goes on. -/
def beginStage (config : Config) : LoopM Unit := do
  if config.run then once startProgram
  mainLoop e bound

/-- Enters the configured line, executes it if it is a command, and goes on. -/
def commandStage (config : Config) : LoopM Unit := do
  if let some command := config.exec then
    let stored ← try pure (some (← once (storeLine command)))
      catch
        | .error err => once do
          handleError err
          return none
        | s => throw s
    if let some stored := stored then
      once (modifySession fun s => { s with prompt := !stored })
      if (← get).session.mode = .executing then cycle e bound
  beginStage e bound config

/-- Shows the greeting if that is configured, and goes on. -/
def greetStage (config : Config) : LoopM Unit := do
  if config.greeting && !config.run && config.exec.isNone then once (writeLine greeting)
  commandStage e bound config

theorem start_apply :
    start e bound m = (do
      if let some name := m.config.program then once (loadProgram name)
      greetStage e bound m.config : LoopM Unit) m := rfl

theorem follows_begin (config : Config) :
    Follows e ⟨.begin config, m⟩ (beginStage e bound config) launched := by
  cases hrun : config.run with
  | true =>
    have hbegin : beginStage e bound config = once startProgram >>= fun _ => mainLoop e bound := by
      simp [beginStage, hrun]
    have hnext : next e ⟨.begin config, m⟩ = after startProgram m (fun _ => .idle) .leave := by
      simp [next, hrun]
    rw [hbegin]
    refine (follows_once (k := sequel (fun _ => .idle) .leave) hnext).bind ?_ fun _ => rfl
    intro _ m₁ _
    exact follows_mainLoop e m₁ bound
  | false =>
    have hbegin : beginStage e bound config = mainLoop e bound := by
      simp [beginStage, hrun]
    rw [hbegin]
    refine Follows.head .idle ?_ (follows_mainLoop e m bound)
    simp [next, hrun, after]

/-- Where the configured line leads. -/
def entered (config : Config) : Option Bool → Control
  | some stored => .commanded stored config
  | none => .begin config

theorem follows_enter {config : Config} {command : String} (hexec : config.exec = some command) :
    Follows e ⟨.command config, m⟩ (tryCatch (do return some (← once (storeLine command))) fun
      | .error err => once do
        handleError err
        return none
      | s => throw s : LoopM (Option Bool)) (sequel (entered config) .leave) := by
  let refused : Signal → Control
    | .error err => .refuse err config
    | s => .leave s
  have hnext : next e ⟨.command config, m⟩ =
      after (storeLine command) m (fun stored => .commanded stored config) refused := by
    simp only [next, hexec]
    rfl
  refine Follows.recover (k := sequel (entered config) refused) ?_ ?_ fun _ => rfl
  · refine (follows_once (k := sequel (fun stored => .commanded stored config) refused) hnext).bind ?_
      fun _ => rfl
    intro stored m₁ _
    exact follows_pure rfl
  · intro s m₁ _
    cases s with
    | error err =>
      show Follows e ⟨.refuse err config, m₁⟩ (once (handleError err >>= fun _ => pure none)) _
      rw [once_bind]
      refine (follows_once (k := sequel (fun _ => .begin config) .leave) rfl).bind ?_ fun _ => rfl
      intro _ m₂ _
      exact follows_pure rfl
    | interrupt stop => exact follows_throw rfl
    | exit => exact follows_throw rfl
    | reset => exact follows_throw rfl
    | fault message => exact follows_throw rfl

theorem follows_command (config : Config) :
    Follows e ⟨.command config, m⟩ (commandStage e bound config) launched := by
  cases hexec : config.exec with
  | none =>
    have hcommand : commandStage e bound config = beginStage e bound config := by
      simp [commandStage, hexec]
    rw [hcommand]
    refine Follows.head (.begin config) ?_ (follows_begin e m bound config)
    simp only [next, hexec]
  | some command =>
    simp only [commandStage, hexec]
    refine (follows_enter e m hexec).bind ?_ fun _ => rfl
    intro stored m₁ _
    cases stored with
    | none => exact follows_begin e m₁ bound config
    | some stored =>
      refine (follows_once (k := sequel (fun _ => if m₁.session.mode = .executing then
        .pass (.start config) else .begin config) .leave) rfl).bind ?_ fun _ => rfl
      rintro _ m₂ ⟨⟩
      by_cases hmode : m₁.session.mode = .executing
      · simp only [sequel, hmode, if_true]
        refine Follows.congr (y := cycle e bound >>= fun _ => beginStage e bound config) ?_ ?_
        · simp
        · refine (follows_cycle_resumed e (.start config) _ bound).bind ?_ fun _ => rfl
          intro _ m₃ _
          exact follows_begin e m₃ bound config
      · simp only [sequel, hmode, if_false]
        refine Follows.congr (y := beginStage e bound config) ?_ (follows_begin e _ bound config)
        simp [hmode]

theorem follows_greet (config : Config) :
    Follows e ⟨.greet config, m⟩ (greetStage e bound config) launched := by
  by_cases hgreet : (config.greeting && !config.run && config.exec.isNone) = true
  · have hstage : greetStage e bound config =
        once (writeLine greeting) >>= fun _ => commandStage e bound config := by
      simp only [greetStage, hgreet, if_true]
    have hnext : next e ⟨.greet config, m⟩ =
        after (writeLine greeting) m (fun _ => .command config) .leave := by
      simp only [next, hgreet, if_true]
    rw [hstage]
    refine (follows_once (k := sequel (fun _ => .command config) .leave) hnext).bind ?_ fun _ => rfl
    intro _ m₁ _
    exact follows_command e m₁ bound config
  · have hstage : greetStage e bound config = commandStage e bound config := by
      simp only [greetStage, hgreet]
      rfl
    rw [hstage]
    refine Follows.head (.command config) ?_ (follows_command e m bound config)
    simp only [next, hgreet]
    rfl

/-- The moments of a start, from the program on. -/
theorem follows_start : Follows e ⟨.load, m⟩ (start e bound) launched := by
  refine Follows.congr (start_apply e m bound) ?_
  cases hprogram : m.config.program with
  | none =>
    refine Follows.head (.greet m.config) ?_ (follows_greet e m bound m.config)
    simp only [next, hprogram]
    rfl
  | some name =>
    have hnext : next e ⟨.load, m⟩ = after (loadProgram name) m (fun _ => .greet m.config) .leave := by
      simp only [next, hprogram]
      rfl
    refine (follows_once (k := sequel (fun _ => .greet m.config) .leave) hnext).bind ?_ fun _ => rfl
    intro _ m₁ _
    exact follows_greet e m₁ bound m.config

/-- The moments of a launch, with a saved session or without. -/
theorem follows_launch : Follows e ⟨.launch, m⟩ (launch e bound) launched := by
  refine (follows_once (k := sequel (fun taken => if taken then .idle else .load) .leave) rfl).bind ?_
    fun _ => rfl
  intro taken m₁ _
  cases taken with
  | true => exact follows_mainLoop e m₁ bound
  | false => exact follows_start e m₁ bound

/-- The moments of a whole run, launch after launch. -/
theorem follows_launches (fuel : Nat) :
    Follows e ⟨.launch, m⟩ (launches e bound fuel) .returned := by
  induction fuel generalizing m with
  | zero =>
    intro r m' hr
    cases hr
  | succ fuel ih =>
    let again : Bool → Control := fun again => if again then .launch else .returned (.ok ())
    refine Follows.bind (k := sequel again fun s => .returned (.error s)) ?_ ?_ fun _ => rfl
    · refine Follows.recover (k := sequel again .leave) ?_ ?_ fun _ => rfl
      · refine (follows_launch e m bound).bind ?_ fun _ => rfl
        intro _ m₁ _
        exact follows_pure rfl
      · intro s m₁ _
        cases s with
        | reset =>
          show Follows e ⟨.reset, m₁⟩ (once (Machine.reset >>= fun _ => pure true)) _
          rw [once_bind]
          refine (follows_once (k := sequel (fun _ => .launch) fun s => .returned (.error s)) rfl).bind ?_
            fun _ => rfl
          intro _ m₂ _
          exact follows_pure rfl
        | error err => exact follows_throw rfl
        | interrupt stop => exact follows_throw rfl
        | exit => exact follows_throw rfl
        | fault message => exact follows_throw rfl
    · intro relaunch m₁ _
      cases relaunch with
      | true => exact ih m₁
      | false => exact follows_pure rfl

end Runs

/-- What a call does. -/
def Call.loop (e : Engine) (bound : Nat) : Call → LoopM Unit
  | .run => Machine.run e bound
  | .cycle => Machine.cycle e bound
  | .enter text => once do
    let _ ← storeLine text

/-- Whatever a call comes to, its owner finds the machine in one of the moments. -/
theorem Reached.returned {e : Engine} {m m₁ m' : Machine} {last outcome : Except Signal Unit}
    (h : Reached e m ⟨.returned last, m₁⟩) (call : Call) {console : Console} {disk : Disk}
    {feed : EventFeed} {clock : Int64} {bound : Nat}
    (hcall : call.loop e bound { m₁ with console, disk, feed, clock } = some (outcome, m')) :
    Reached e m ⟨.returned outcome, m'⟩ := by
  refine (h.called call console disk feed clock).leads ?_
  cases call with
  | run => exact follows_launches e _ bound bound outcome m' hcall
  | cycle => exact follows_cycle_resumed e .owner _ bound outcome m' hcall
  | enter text =>
    have henter : Follows e ⟨.enter text, { m₁ with console, disk, feed, clock }⟩
        (Call.loop e bound (.enter text)) .returned := by
      show Follows e _ (once (storeLine text >>= fun _ => pure ())) _
      rw [once_bind]
      refine (follows_once (k := sequel (fun _ => .returned (.ok ())) fun s => .returned (.error s))
        rfl).bind ?_ fun _ => rfl
      intro stored m₂ _
      exact follows_pure rfl
    exact henter outcome m' hcall

/-- A new machine may be run. -/
theorem reached_moment (e : Engine) (m : Machine) (n : Nat) : Reached e m (m.moment e n) :=
  (Reached.new.called .run m.console m.disk m.feed m.clock).leads ⟨n, rfl⟩

end Moment

namespace Machine

/-- A run that comes to an end does so in one of its moments. -/
theorem exists_moment_of_run {e : Engine} {bound : Nat} {m m' : Machine} {outcome : Except Signal Unit}
    (h : run e bound m = some (outcome, m')) : ∃ n, m.moment e n = ⟨.returned outcome, m'⟩ :=
  Moment.follows_launches e m bound bound outcome m' h

end Machine

end LineBasic

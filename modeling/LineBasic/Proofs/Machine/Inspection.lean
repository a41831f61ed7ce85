import LineBasic.Proofs.Machine.Shutdown

/-!
# Stopped programs

A program that is stopped by a break can be inspected: the operator prints what it knows, and `CONT`
goes on.  Lines that print go through the same loop as the program itself, so much could change on the
way.

* `Work`: what a stopped program goes on with.
* `Moment.Inspects`, `Inspection`: what may happen between a break and `CONT`.
* `Inspecting`: how the work stands at every moment in between, and `Inspecting.next`, one step.
* `cont_resumes`: the program goes on as it was.  Only a handler that ran is lost, as soon as a line
  comes to its end.
-/

namespace LineBasic

open Effect

/-- What a stopped program goes on with. -/
structure Work where
  program : Program
  inProgram : Bool
  stop : Option Nat
  vars : Variables
  gosub : BoundedStack GosubFrame
  files : FileTable
  trap : ErrorTrap

namespace Session

/-- What the session would go on with. -/
def work (s : Session) : Work where
  program := s.program
  inProgram := s.inProgram
  stop := s.stop
  vars := s.vars
  gosub := s.gosub
  files := s.files
  trap := s.trap

/-- The work of a program that was stopped where it was, while the direct line runs. -/
def stopped (s : Session) (trap : ErrorTrap) : Work :=
  { s.work with inProgram := false, stop := some s.program.pos, trap }

/-- Moving on the direct line leaves the work alone. -/
theorem work_moveTo {s : Session} (h : s.inProgram = false) (pos : Nat) : (s.moveTo pos).work = s.work := by
  unfold moveTo
  rw [if_neg (by simp [h])]
  rfl

theorem work_setPointer (s : Session) (pos : Nat) :
    (s.setPointer true (some pos)).work =
      { s.work with
        inProgram := true
        program := { s.program with pos := min pos s.program.image.length } } := rfl

/-- A break stops the work where the program stands. -/
theorem work_broken {s : Session} (h : s.inProgram = true) :
    s.broken.work = { s.stopped s.trap with inProgram := true } := by
  unfold broken
  rw [if_pos h, ← h]
  rfl

end Session

namespace Machine

/-! ## Entering commands -/

/-- An operation that leaves the work alone and does not begin execution. -/
def Idles {α : Type} (x : MachineM α) : Prop :=
  Always (fun m m' => m'.session.work = m.session.work ∧
    (m.session.mode ≠ .executing → m'.session.mode ≠ .executing)) x

/-- An operation that does not begin execution. -/
def Waits {α : Type} (x : MachineM α) : Prop :=
  Always (fun m m' => m.session.mode ≠ .executing → m'.session.mode ≠ .executing) x

/-- If execution begins, the operation succeeds and has left the work alone. -/
structure Enters {α : Type} (x : MachineM α) : Prop where
  ok {m m' : Machine} {a : α} : m.session.mode ≠ .executing → x m = .ok a m' →
    m'.session.mode = .executing → m'.session.work = m.session.work
  error {m m' : Machine} {s : Signal} : m.session.mode ≠ .executing → x m = .error s m' →
    m'.session.mode ≠ .executing

section Rules

variable {α β : Type} {x : MachineM α} {f : α → MachineM β}

theorem Idles.pure (a : α) : Idles (pure a : MachineM α) :=
  fun _ => ⟨rfl, id⟩

theorem Idles.throw (s : Signal) : Idles (throw s : MachineM α) :=
  fun _ => ⟨rfl, id⟩

theorem Idles.bind (hx : Idles x) (hf : ∀ a, Idles (f a)) : Idles (x >>= f) :=
  Always.bind hx hf (fun _ _ => id) fun _ _ _ h h' => ⟨h'.1.trans h.1, h'.2 ∘ h.2⟩

theorem Idles.recover {f : Signal → MachineM α} (hx : Idles x) (hf : ∀ s, Idles (f s)) :
    Idles (tryCatch x f) :=
  Always.recover hx hf (fun _ _ => id) fun _ _ _ h h' => ⟨h'.1.trans h.1, h'.2 ∘ h.2⟩

theorem Idles.ite {c : Prop} [Decidable c] {y : MachineM α} (hx : Idles x) (hy : Idles y) :
    Idles (if c then x else y) :=
  Always.ite hx hy

/-- A change that keeps the work and starts no execution. -/
theorem idles_modifySession {f : Session → Session}
    (h : ∀ s : Session, (f s).work = s.work ∧ (s.mode ≠ .executing → (f s).mode ≠ .executing)) :
    Idles (modifySession f) :=
  fun m => h m.session

/-- Output keeps the work. -/
theorem Shows.idles (h : Shows x) : Idles x := by
  intro m
  obtain ⟨console, ⟨a, hok⟩ | herror⟩ := h m
  · rw [hok]
    exact ⟨rfl, id⟩
  · rw [herror]
    exact ⟨rfl, id⟩

theorem Idles.waits (h : Idles x) : Waits x :=
  Always.mono h fun _ _ => And.right

theorem Waits.bind (hx : Waits x) (hf : ∀ a, Waits (f a)) : Waits (x >>= f) :=
  Always.bind hx hf (fun _ _ => id) fun _ _ _ h h' => h' ∘ h

theorem waits_modifySession {f : Session → Session}
    (h : ∀ s : Session, s.mode ≠ .executing → (f s).mode ≠ .executing) : Waits (modifySession f) :=
  fun m => h m.session

/-- What never starts execution starts none with other work. -/
theorem Waits.enters (h : Waits x) : Enters x where
  ok := by
    intro m m' a hm hok hmode
    have hwaits := h m hm
    rw [hok] at hwaits
    exact absurd hmode hwaits
  error := by
    intro m m' s hm herror
    have hwaits := h m hm
    rw [herror] at hwaits
    exact hwaits

theorem Enters.ite {c : Prop} [Decidable c] {y : MachineM α} (hx : Enters x) (hy : Enters y) :
    Enters (if c then x else y) := by
  split
  · exact hx
  · exact hy

/-- What keeps the work may come before what starts execution. -/
theorem Idles.bind_enters (hx : Idles x) (hf : ∀ a, Enters (f a)) : Enters (x >>= f) where
  ok := by
    intro m m' b hm hok hmode
    rw [bind_apply] at hok
    have hidles := hx m
    cases hxm : x m with
    | ok a m₁ =>
      rw [hxm] at hok hidles
      exact ((hf a).ok (hidles.2 hm) hok hmode).trans hidles.1
    | error s m₁ =>
      rw [hxm] at hok
      cases hok
  error := by
    intro m m' s hm herror
    rw [bind_apply] at herror
    have hidles := hx m
    cases hxm : x m with
    | ok a m₁ =>
      rw [hxm] at herror hidles
      exact (hf a).error (hidles.2 hm) herror
    | error s₁ m₁ =>
      rw [hxm] at herror hidles
      cases herror
      exact hidles.2 hm

/-- What is noted after a line has been entered. -/
theorem Enters.bind_modifySession {g : α → Session → Session} {b : β} (hx : Enters x)
    (hg : ∀ a s, (g a s).work = s.work ∧ (g a s).mode = s.mode) :
    Enters (x >>= fun a => modifySession (g a) >>= fun _ => pure b) where
  ok := by
    intro m m' b' hm hok hmode
    rw [bind_apply] at hok
    cases hxm : x m with
    | ok a m₁ =>
      rw [hxm] at hok
      cases hok
      exact (hg a m₁.session).1.trans (hx.ok hm hxm ((hg a m₁.session).2.symm.trans hmode))
    | error s m₁ =>
      rw [hxm] at hok
      cases hok
  error := by
    intro m m' s hm herror
    rw [bind_apply] at herror
    cases hxm : x m with
    | ok a m₁ =>
      rw [hxm] at herror
      cases herror
    | error s₁ m₁ =>
      rw [hxm] at herror
      cases herror
      exact hx.error hm hxm

/-- A failure that is dealt with starts no execution. -/
theorem Enters.recover {f : Signal → MachineM α} (hx : Enters x) (hf : ∀ s, Waits (f s)) :
    Enters (tryCatch x f) where
  ok := by
    intro m m' a hm hok hmode
    cases hxm : x m with
    | ok b m₁ =>
      rw [tryCatch_of_ok hxm] at hok
      cases hok
      exact hx.ok hm hxm hmode
    | error s m₁ =>
      rw [tryCatch_of_error hxm] at hok
      have hwaits := hf s m₁ (hx.error hm hxm)
      rw [hok] at hwaits
      exact absurd hmode hwaits
  error := by
    intro m m' s hm herror
    cases hxm : x m with
    | ok b m₁ =>
      rw [tryCatch_of_ok hxm] at herror
      cases herror
    | error s₁ m₁ =>
      rw [tryCatch_of_error hxm] at herror
      exact (hf s₁).enters.error (hx.error hm hxm) herror

end Rules

theorem idles_readLine (offered : String) (cursor : Nat) : Idles (readLine offered cursor) := by
  intro m
  simp only [readLine, bind_apply, modifySession_apply, get_apply, set_apply]
  cases (m.console.readLine offered cursor).1 with
  | ok text => exact ⟨rfl, id⟩
  | error s => exact ⟨rfl, id⟩

theorem idles_takeLine (text : String) : Idles (takeLine text) :=
  (idles_modifySession (by intro s; exact ⟨rfl, id⟩)).bind fun _ => .pure _

theorem waits_checkDirect : Waits checkDirect := by
  intro m
  unfold checkDirect
  cases Program.checkNumbered m.session.direct with
  | ok a direct => exact id
  | error e direct => exact id

/-- An edit of the program starts no execution. -/
theorem waits_editProgram (deleteMissing : Bool) : Waits (editProgram deleteMissing) := by
  refine waits_checkDirect.bind fun checked => ?_
  refine Waits.bind (fun m => id) fun m => ?_
  refine Waits.bind ?_ fun program => ?_
  · generalize (if (!checked.1) = true then _ else _ : Except BasicError Program) = r
    cases r with
    | ok program => exact (Idles.pure _).waits
    | error e => exact (Idles.throw _).waits
  · exact (waits_modifySession (by intro s; exact id)).bind fun _ => (Idles.pure _).waits

/-- A line without a number begins execution. -/
theorem enters_executing : Enters (modifySession fun s => { s with mode := .executing }) where
  ok := by
    rintro m m' a - ⟨⟩ -
    rfl
  error := by
    rintro m m' s - ⟨⟩

/-- A line at the direct prompt starts execution only as a command, and that keeps the work. -/
theorem enters_storeLine (text : String) : Enters (storeLine text) := by
  unfold storeLine
  refine .ite (Idles.pure true).waits.enters ((idles_takeLine text).bind_enters fun isNumbered => .ite ?_ ?_)
  · refine ((waits_editProgram true).bind fun _ => ?_).enters
    exact Waits.bind (fun m => id) fun m => (Idles.pure _).waits
  · constructor
    · rintro m m' a - ⟨⟩ -
      rfl
    · rintro m m' s - ⟨⟩

theorem waits_offerNext (number : UInt16) : Waits (offerNext number) := by
  refine waits_modifySession fun s hs => ?_
  dsimp only
  split
  · intro h
    cases h
  · exact hs

theorem enters_autoStep : Enters autoStep := by
  refine Idles.bind_enters (fun m => ⟨rfl, id⟩) fun m => ?_
  refine (idles_readLine _ _).bind_enters fun line => ?_
  refine (idles_takeLine _).bind_enters fun isNumbered => .ite ?_ (.ite enters_executing ?_)
  · exact ((waits_editProgram false).bind waits_offerNext).enters
  · exact (Idles.pure ()).waits.enters

/-- So does a line at the prompt that offers numbers. -/
theorem enters_autoPass : Enters autoPass := by
  refine enters_autoStep.recover fun s => ?_
  cases s with
  | interrupt stop =>
    refine (shows_modifyConsole _).idles.waits.bind fun _ => ?_
    exact waits_modifySession fun s _ h => by cases h
  | error e => exact (Idles.throw _).waits
  | exit => exact (Idles.throw _).waits
  | reset => exact (Idles.throw _).waits
  | fault message => exact (Idles.throw _).waits

theorem idles_showPrompt : Idles showPrompt := by
  refine Idles.bind (fun m => ⟨rfl, id⟩) fun m => ?_
  refine (idles_modifySession (by intro s; exact ⟨rfl, id⟩)).bind fun _ => ?_
  cases m.session.editPrompt.bind fun edit => m.session.program.editText? edit.line edit.position with
  | some offered => exact .pure offered
  | none =>
    refine .ite ?_ (.pure _)
    exact shows_startLine.idles.bind fun _ => (shows_writeLine _).idles.bind fun _ => .pure _

/-- A pass at the direct prompt starts execution only with the work it found. -/
theorem enters_directPass : Enters directPass := by
  refine idles_showPrompt.bind_enters fun prompt => ?_
  refine Idles.bind_enters ?_ fun line => ?_
  · refine ((idles_readLine _ _).bind fun _ => .pure _).recover fun s => ?_
    cases s with
    | interrupt stop =>
      refine (shows_modifyConsole _).idles.bind fun _ => ?_
      exact (idles_modifySession (by intro s; exact ⟨rfl, id⟩)).bind fun _ => .pure _
    | error e => exact .throw _
    | exit => exact .throw _
    | reset => exact .throw _
    | fault message => exact .throw _
  · cases line with
    | none => exact (Idles.pure _).waits.enters
    | some line => exact (enters_storeLine line).bind_modifySession (by intro stored s; exact ⟨rfl, rfl⟩)

/-- A line without a number, given by the owner. -/
theorem storeLine_unnumbered {text : String} (h : (Crunch.line text).head? ≠ some Token.endLine)
    (m : Machine) :
    ∃ stored m', storeLine text m = .ok stored m' ∧ m'.session.work = m.session.work := by
  simp only [storeLine, takeLine, Effect.ite_apply, bind_apply, modifySession_apply]
  split
  · exact ⟨_, _, rfl, rfl⟩
  · simp only [pure_apply, decide_eq_true_eq]
    rw [if_neg h]
    exact ⟨_, _, rfl, rfl⟩

theorem exists_of_not_fails {α : Type} {x : MachineM α} {m : Machine} (h : fails x m = false) :
    ∃ a m', x m = .ok a m' := by
  unfold fails at h
  cases hx : x m with
  | ok a m' => exact ⟨a, m', rfl⟩
  | error s m' =>
    rw [hx] at h
    cases h

/-! ## Statements -/

/-- The code has come to its end. -/
def atEnd (m : Machine) : Bool :=
  match Parse.boundary m.session.stream.rest with
  | .ok .ended _ => true
  | _ => false

/-- At the end of the code nothing comes. -/
theorem boundary_of_atEnd {m : Machine} (h : m.atEnd = true) :
    ∃ rest, Parse.boundary m.session.stream.rest = .ok .ended rest := by
  unfold atEnd at h
  split at h
  · exact ⟨_, by assumption⟩
  · cases h

/-- Where a statement comes the code does not end. -/
theorem Upcoming.atEnd {m : Machine} {st : Statement} (h : m.Upcoming st) : m.atEnd = false := by
  obtain ⟨before, after, b, hb, hmore, -⟩ := h
  unfold Machine.atEnd
  rw [hb]
  cases b with
  | ended => exact absurd rfl hmore
  | line number => rfl
  | inLine => rfl

/-- The statement that comes next, if there is one and it can be read. -/
def upcoming? (m : Machine) : Option Statement :=
  match Parse.boundary m.session.stream.rest with
  | .error .. => none
  | .ok .ended _ => none
  | .ok _ before =>
    match Parse.statement m.session.scope before with
    | .error .. => none
    | .ok st _ => some st

/-- The statement that comes can be computed. -/
theorem upcoming_iff {m : Machine} {st : Statement} : m.Upcoming st ↔ m.upcoming? = some st := by
  obtain ⟨b, before, hb, -⟩ := Parse.boundary_ok m.session.stream.rest
  have hreads : m.Upcoming st ↔ b ≠ .ended ∧ ∃ after, Parse.statement m.session.scope before = .ok st after := by
    constructor
    · rintro ⟨before', after, b', hb', hmore, hst⟩
      rw [hb] at hb'
      cases hb'
      exact ⟨hmore, after, hst⟩
    · rintro ⟨hmore, after, hst⟩
      exact ⟨before, after, b, hb, hmore, hst⟩
  rw [hreads]
  unfold upcoming?
  rw [hb]
  cases b with
  | ended => simp
  | line number | inLine => cases hst : Parse.statement m.session.scope before <;> simp [hst]

/-- Whether a statement comes next that shows something on the console. -/
def prints (m : Machine) : Bool :=
  m.upcoming?.any (· matches .print none _)

/-- Whether the statement that comes shows something on the console. -/
theorem prints_iff {m : Machine} : m.prints = true ↔ ∃ text, m.Upcoming (.print none text) := by
  unfold prints
  rw [Option.any_eq_true]
  constructor
  · rintro ⟨st, hst, hprint⟩
    split at hprint
    · exact ⟨_, upcoming_iff.2 hst⟩
    · cases hprint
  · rintro ⟨text, hprint⟩
    exact ⟨_, upcoming_iff.1 hprint, rfl⟩

theorem work_reading {m : Machine} (h : m.session.inProgram = false) (pos : Nat) (console : Console) :
    (m.reading pos console).session.work = m.session.work :=
  Session.work_moveTo (s := { m.session with statement := m.session.stream.pos }) h pos

/-- On a console that works, the statement that comes next is executed. -/
theorem statement_of_upcoming {m : Machine} (hm : m.console.Works) {st : Statement} (h : m.Upcoming st) :
    ∃ pos console, console.Works ∧ statement m = st.execute (m.reading pos console) := by
  obtain ⟨before, after, b, hb, hmore, hst⟩ := h
  have hsuffix : before <:+ m.session.stream.rest := by
    obtain ⟨b', before', hb', hsuffix⟩ := Parse.boundary_ok m.session.stream.rest
    rw [hb] at hb'
    cases hb'
    exact hsuffix
  have hread : ∀ console, ∃ pos, readAndExecute (m.reading
      (m.session.stream.pos + (m.session.stream.rest.length - before.length)) console) =
        st.execute (m.reading pos console) := by
    intro console
    have happly := readAndExecute_apply m _ console before (rest_of_suffix console hsuffix)
    rw [hst] at happly
    exact ⟨_, happly⟩
  have hstatement := statement_of_boundary hb
  cases b with
  | ended => exact absurd rfl hmore
  | inLine =>
    obtain ⟨pos, hpos⟩ := hread m.console
    exact ⟨pos, m.console, hm, hstatement.trans hpos⟩
  | line number =>
    let m₁ := m.reading (m.session.stream.pos + (m.session.stream.rest.length - before.length)) m.console
    by_cases htron : m₁.session.tron = true
    · obtain ⟨⟨⟩, console, hconsole, hshown⟩ := says_write s!"[{number}]" m₁ hm
      obtain ⟨pos, hpos⟩ := hread console
      refine ⟨pos, console, hconsole, hstatement.trans ((congrFun (if_pos htron) m₁).trans ?_)⟩
      rw [bind_apply, hshown]
      exact hpos
    · obtain ⟨pos, hpos⟩ := hread m.console
      exact ⟨pos, m.console, hm, hstatement.trans ((congrFun (if_neg htron) m₁).trans hpos)⟩

/-- A direct line that comes to its end while a handler runs. -/
def missingResume : BasicError :=
  BasicError.located (.of .noResume) .direct

/-- At the end of the direct line execution ends, or fails if an error handler runs. -/
theorem statement_atEnd {m : Machine} (hend : m.atEnd = true) (hdirect : m.session.inProgram = false) :
    ∃ pos, statement m = if m.session.trap.isHandling then
        .error (.error missingResume) (m.reading pos m.console)
      else .ok false (m.reading pos m.console) := by
  obtain ⟨rest, hb⟩ := boundary_of_atEnd hend
  let pos := m.session.stream.pos + (m.session.stream.rest.length - rest.length)
  let m₁ := m.reading pos m.console
  have htrap : m₁.session.trap = m.session.trap := Session.moveTo_trap _ _
  have hplace : ¬ m₁.session.inProgram = true := by
    rw [show m₁.session.inProgram = m.session.inProgram from Session.moveTo_inProgram _ _, hdirect]
    decide
  have hstatement : statement m = endOfCode m₁ := statement_of_boundary hb
  refine ⟨pos, hstatement.trans ?_⟩
  simp only [endOfCode, bind_apply, get_apply, Effect.ite_apply]
  rw [htrap, if_neg hplace]
  split <;> rfl

end Machine

/-! ## Inspections -/

/-- The trap of errors once a direct line has come to its end: a handler that ran is abandoned. -/
def ErrorTrap.afterLine (trap : ErrorTrap) (ended : Bool) : ErrorTrap :=
  if ended && trap.isHandling then
    { trap with active := none, err := ErrorCode.noResume.number, location := some .direct }
  else trap

namespace ErrorTrap

theorem handler_afterLine (trap : ErrorTrap) (ended : Bool) : (trap.afterLine ended).handler = trap.handler := by
  unfold afterLine
  split <;> rfl

/-- The end of a line changes the state of `ON ERROR` only if a handler was running. -/
theorem afterLine_eq_iff (trap : ErrorTrap) (ended : Bool) :
    trap.afterLine ended = trap ↔ trap.active = none ∨ ended = false := by
  unfold afterLine isHandling
  cases ended with
  | false => simp
  | true =>
    cases hactive : trap.active with
    | none => simp
    | some context =>
      simp only [Option.isSome_some, Bool.and_self, if_true]
      refine iff_of_false (fun h => ?_) (by simp)
      have hnone := congrArg ErrorTrap.active h
      rw [hactive] at hnone
      cases hnone

/-- No handler runs any more once a line has come to its end. -/
theorem isHandling_afterLine_true (trap : ErrorTrap) : (trap.afterLine true).isHandling = false := by
  unfold afterLine
  cases h : trap.isHandling with
  | true => rfl
  | false => exact h

theorem afterLine_of_handling {trap : ErrorTrap} (h : trap.isHandling = true) :
    trap.afterLine true =
      { trap with active := none, err := ErrorCode.noResume.number, location := some .direct } := by
  unfold afterLine
  rw [h]
  rfl

theorem afterLine_of_not_handling {trap : ErrorTrap} (h : trap.isHandling = false) (ended : Bool) :
    trap.afterLine ended = trap := by
  unfold afterLine
  rw [h, Bool.and_false]
  rfl

end ErrorTrap

/-- Neither an error nor a signal is on its way to the operator. -/
def Control.Calm : Control → Prop
  | trap .. => False
  | report .. => False
  | _ => True

theorem Control.calm_resumed (caller : Caller) (outcome : Except Signal Unit) :
    (resumed caller outcome).Calm := by
  cases caller with
  | owner => trivial
  | start config =>
    cases outcome with
    | ok => trivial
    | error signal => cases signal <;> trivial
  | mainLoop => cases outcome <;> trivial

namespace Moment

open Machine

/-- A direct line comes to its end. -/
def lineEnds : Moment → Bool
  | ⟨.statement _, m⟩ => m.atEnd
  | _ => false

/-- What may happen while a stopped program is inspected.  The operator enters commands, which do
nothing but print; no event interrupts them, and the program is not started again. -/
def Inspects (e : Engine) (u : Moment) : Prop :=
  match u.control with
  | .pass _ =>
    if u.machine.session.mode = .executing then fails e.poll u.machine = false
    else (u.next e).machine.session.mode = .executing
  | .dispatch _ | .switch .. | .trap .. | .report .. | .cycled .. | .idle => True
  | .statement _ => u.machine.atEnd = true ∨ u.machine.prints = true
  | .begin config => config.run = false
  | .enter text => (Crunch.line text).head? ≠ some Token.endLine
  | _ => False

instance (e : Engine) : (u : Moment) → Decidable (u.Inspects e)
  | ⟨.pass caller, m⟩ => inferInstanceAs (Decidable (if m.session.mode = .executing then
      fails e.poll m = false else (next e ⟨.pass caller, m⟩).machine.session.mode = .executing))
  | ⟨.statement _, m⟩ => inferInstanceAs (Decidable (m.atEnd = true ∨ m.prints = true))
  | ⟨.begin config, _⟩ => inferInstanceAs (Decidable (config.run = false))
  | ⟨.enter text, _⟩ => inferInstanceAs (Decidable ((Crunch.line text).head? ≠ some Token.endLine))
  | ⟨.dispatch _, _⟩ | ⟨.switch .., _⟩ | ⟨.trap .., _⟩ | ⟨.report .., _⟩ | ⟨.cycled .., _⟩ | ⟨.idle, _⟩ =>
    .isTrue trivial
  | ⟨.launch, _⟩ | ⟨.load, _⟩ | ⟨.greet _, _⟩ | ⟨.command _, _⟩ | ⟨.refuse .., _⟩ | ⟨.commanded .., _⟩
  | ⟨.interrupt .., _⟩ | ⟨.shutdown _, _⟩ | ⟨.reset, _⟩ | ⟨.returned _, _⟩ => .isFalse id

/-- The moments between a break and `CONT`, and whether a direct line has come to its end by then.
Between calls of the owner the world may change, as long as the console works. -/
inductive Inspection (e : Engine) (t : Moment) : Bool → Moment → Prop where
  | broken : Inspection e t false (t.next e)
  | next {ended : Bool} {u : Moment} (h : Inspection e t ended u) (hu : u.Inspects e) :
      Inspection e t (ended || u.lineEnds) (u.next e)
  | called {ended : Bool} {outcome : Except Signal Unit} {m : Machine}
      (h : Inspection e t ended ⟨.returned outcome, m⟩) (call : Call) {console : Console}
      (hconsole : console.Works) (disk : Disk) (feed : EventFeed) (clock : Int64) :
      Inspection e t ended ⟨call.control, { m with console, disk, feed, clock }⟩

/-- How the work of a stopped program stands while it is inspected. -/
inductive Inspecting (s : Session) : Bool → Moment → Prop where
  /-- The break has just been reported. -/
  | broken {caller : Caller} {m : Machine} (hmode : m.session.mode ≠ .executing)
      (h : m.session.work = { s.stopped s.trap with inProgram := true }) :
      Inspecting s false ⟨.switch true caller, m⟩
  | resting {ended : Bool} {control : Control} {m : Machine} (hcalm : control.Calm)
      (h : m.session.work = s.stopped (s.trap.afterLine ended)) : Inspecting s ended ⟨control, m⟩
  /-- A line has come to its end while a handler runs. -/
  | failing {caller : Caller} {m : Machine} (hhandling : s.trap.isHandling = true)
      (h : m.session.work = s.stopped s.trap) : Inspecting s true ⟨.trap missingResume caller, m⟩
  | reporting {caller : Caller} {m : Machine} (hhandling : s.trap.isHandling = true)
      (h : m.session.work = s.stopped
        { s.trap with err := ErrorCode.noResume.number, location := some .direct }) :
      Inspecting s true ⟨.report (.error missingResume) caller, m⟩

section Steps

variable {source : EventSource} {s : Session} {ended : Bool} {caller : Caller} {m : Machine}

/-- A calm moment with the work of the stopped program. -/
theorem Inspecting.of_calm {u : Moment} (hcalm : u.control.Calm)
    (h : u.machine.session.work = s.stopped (s.trap.afterLine ended)) : Inspecting s ended u :=
  .resting hcalm h

theorem inProgram_of_stopped {trap : ErrorTrap} (h : m.session.work = s.stopped trap) :
    m.session.inProgram = false :=
  congrArg Work.inProgram h

theorem after_of_error {α : Type} {x : MachineM α} {m' : Machine} {signal : Signal} {ok : α → Control}
    {error : Signal → Control} (h : x m = .error signal m') : after x m ok error = ⟨error signal, m'⟩ := by
  unfold after
  rw [h]

/-- If an operation has started execution, it succeeded and kept the work. -/
theorem after_of_enters {α : Type} {x : MachineM α} (hx : Enters x) {ok : α → Control}
    {error : Signal → Control} (hm : m.session.mode ≠ .executing)
    (h : (after x m ok error).machine.session.mode = .executing) :
    (∃ a, (after x m ok error).control = ok a) ∧
      (after x m ok error).machine.session.work = m.session.work := by
  unfold after at h ⊢
  cases hxm : x m with
  | ok a m' =>
    rw [hxm] at h
    exact ⟨⟨a, rfl⟩, hx.ok hm hxm h⟩
  | error signal m' =>
    rw [hxm] at h
    exact absurd h (hx.error hm hxm)

/-- Events are looked for, or a command is entered. -/
theorem inspecting_pass (h : m.session.work = s.stopped (s.trap.afterLine ended))
    (hinspects : Inspects source.engine ⟨.pass caller, m⟩) :
    Inspecting s ended (next source.engine ⟨.pass caller, m⟩) := by
  simp only [Inspects] at hinspects
  cases hmode : m.session.mode with
  | executing =>
    rw [if_pos hmode] at hinspects
    have hnext : next source.engine ⟨.pass caller, m⟩ =
        after source.poll m (fun _ => .dispatch caller) (.failed caller) := by
      simp only [next, hmode]
      rfl
    obtain ⟨events, -, hsession, -⟩ := source.spares m
    obtain ⟨⟨⟩, m', hpoll⟩ := exists_of_not_fails (x := source.poll) hinspects
    rw [hpoll] at hsession
    rw [hnext, after_of_ok hpoll]
    refine .resting trivial ?_
    rw [show m'.session = _ from hsession]
    exact h
  | autoNumbering =>
    have hidle : m.session.mode ≠ .executing := by simp [hmode]
    have hnext : next source.engine ⟨.pass caller, m⟩ =
        after autoPass m (fun _ => .switch false caller) (.report · caller) := by
      simp only [next, hmode]
    rw [if_neg hidle, hnext] at hinspects
    obtain ⟨⟨a, hcontrol⟩, hwork⟩ := after_of_enters enters_autoPass hidle hinspects
    rw [hnext]
    refine .of_calm ?_ (hwork.trans h)
    rw [hcontrol]
    trivial
  | direct =>
    have hidle : m.session.mode ≠ .executing := by simp [hmode]
    have hnext : next source.engine ⟨.pass caller, m⟩ =
        after directPass m (fun taken => if taken then .switch false caller else .pass caller)
          (.report · caller) := by
      simp only [next, hmode]
    rw [if_neg hidle, hnext] at hinspects
    obtain ⟨⟨taken, hcontrol⟩, hwork⟩ := after_of_enters enters_directPass hidle hinspects
    rw [hnext]
    refine .of_calm ?_ (hwork.trans h)
    rw [hcontrol]
    cases taken <;> trivial

/-- No event is dispatched while the direct line runs. -/
theorem inspecting_dispatch (h : m.session.work = s.stopped (s.trap.afterLine ended)) :
    Inspecting s ended (next source.engine ⟨.dispatch caller, m⟩) := by
  have hdirect := inProgram_of_stopped h
  have hdispatch : onSession Session.dispatchEvent m = .ok () m := by
    simp [onSession, Session.dispatchEvent, hdirect]
  have hnext : next source.engine ⟨.dispatch caller, m⟩ = ⟨.statement caller, m⟩ := after_of_ok hdispatch
  rw [hnext]
  exact .resting trivial h

/-- A statement, and the end of execution if there is nothing after it. -/
theorem statementPart_eq (source : EventSource) : statementPart source.engine = (statement >>= fun goesOn =>
    if !goesOn then modifySession Session.endExecution else pure ()) := rfl

/-- A statement has been executed. -/
theorem next_statement_of_true {m' : Machine} (h : statement m = .ok true m') :
    next source.engine ⟨.statement caller, m⟩ = ⟨.switch true caller, m'⟩ := by
  have hpart : statementPart source.engine m = .ok () m' := by
    rw [statementPart_eq, bind_apply, h]
    rfl
  exact after_of_ok hpart

/-- Nothing more is to be executed. -/
theorem next_statement_of_false {m' : Machine} (h : statement m = .ok false m') :
    next source.engine ⟨.statement caller, m⟩ =
      ⟨.switch true caller, { m' with session := m'.session.endExecution }⟩ := by
  have hpart : statementPart source.engine m =
      .ok () { m' with session := m'.session.endExecution } := by
    rw [statementPart_eq, bind_apply, h]
    rfl
  exact after_of_ok hpart

theorem next_statement_of_error {m' : Machine} {e : BasicError} (h : statement m = .error (.error e) m') :
    next source.engine ⟨.statement caller, m⟩ = ⟨.trap e caller, m'⟩ := by
  have hpart : statementPart source.engine m = .error (.error e) m' := by
    rw [statementPart_eq, bind_apply, h]
  exact after_of_error hpart

/-- `PRINT` on a working console keeps the work. -/
theorem inspecting_print {text : String} (h : m.session.work = s.stopped (s.trap.afterLine ended))
    (hworks : m.console.Works) (hprint : m.Upcoming (.print none text)) :
    Inspecting s ended (next source.engine ⟨.statement caller, m⟩) := by
  obtain ⟨pos, console, hconsole, hstatement⟩ := statement_of_upcoming hworks hprint
  obtain ⟨⟨⟩, console', -, hshown⟩ := says_write text (m.reading pos console) hconsole
  have hprinted : statement m = .ok true { m.reading pos console with console := console' } := by
    rw [hstatement]
    simp [Statement.execute, Statement.printTo, hshown]
  rw [next_statement_of_true hprinted]
  exact .resting trivial ((work_reading (inProgram_of_stopped h) pos console).trans h)

/-- At the end of a direct line execution is left, unless a handler runs. -/
theorem inspecting_lineEnd (h : m.session.work = s.stopped (s.trap.afterLine ended))
    (hend : m.atEnd = true) : Inspecting s true (next source.engine ⟨.statement caller, m⟩) := by
  have hdirect := inProgram_of_stopped h
  have htrap : m.session.trap = s.trap.afterLine ended := congrArg Work.trap h
  obtain ⟨pos, hstatement⟩ := statement_atEnd hend hdirect
  have hwork := (work_reading hdirect pos m.console).trans h
  by_cases hhandling : m.session.trap.isHandling = true
  · rw [if_pos hhandling] at hstatement
    rw [next_statement_of_error hstatement]
    -- a handler that still runs has not been abandoned before
    have hfirst : ended = false := by
      cases ended with
      | false => rfl
      | true =>
        rw [htrap, ErrorTrap.isHandling_afterLine_true] at hhandling
        cases hhandling
    subst hfirst
    rw [htrap] at hhandling
    exact .failing hhandling hwork
  · rw [if_neg hhandling] at hstatement
    rw [next_statement_of_false hstatement]
    have hsame : s.trap.afterLine true = s.trap.afterLine ended := by
      cases ended with
      | true => rfl
      | false =>
        rw [htrap] at hhandling
        exact ErrorTrap.afterLine_of_not_handling (Bool.not_eq_true _ ▸ hhandling) true
    refine .resting trivial ?_
    rw [hsame]
    exact hwork

/-- When execution has begun or ended, the direct line comes next. -/
theorem work_switchMode (wasExecuting : Bool) (m : Machine) :
    ∃ settled m', switchMode wasExecuting m = .ok settled m' ∧
      m'.session.work = if decide (m.session.mode = .executing) ≠ wasExecuting then
        { m.session.work with inProgram := false } else m.session.work := by
  simp only [switchMode, bind_apply, get_apply, Effect.ite_apply]
  by_cases hswitch : decide (m.session.mode = .executing) ≠ wasExecuting
  · rw [if_pos hswitch, if_pos hswitch]
    exact ⟨_, _, rfl, rfl⟩
  · rw [if_neg hswitch, if_neg hswitch]
    exact ⟨_, m, rfl, rfl⟩

/-- The switch between modes keeps the work. -/
theorem inspecting_switch {wasExecuting : Bool}
    (h : Inspecting s ended ⟨.switch wasExecuting caller, m⟩) :
    Inspecting s ended (next source.engine ⟨.switch wasExecuting caller, m⟩) := by
  obtain ⟨settled, m', hswitch, hwork⟩ := work_switchMode wasExecuting m
  have hnext : next source.engine ⟨.switch wasExecuting caller, m⟩ =
      ⟨if settled then .cycled (.ok ()) caller else .pass caller, m'⟩ := after_of_ok hswitch
  have hcalm : (if settled then Control.cycled (.ok ()) caller else .pass caller).Calm := by
    cases settled <;> trivial
  rw [hnext]
  refine .resting hcalm (hwork.trans ?_)
  cases h with
  | broken hmode h =>
    have hleft : decide (m.session.mode = .executing) ≠ true := by simpa using hmode
    rw [if_pos hleft, h]
    rfl
  | resting hcalm h =>
    rw [h]
    split <;> rfl

/-- The handler is not called again while it runs. -/
theorem inspecting_trap (hhandling : s.trap.isHandling = true) (h : m.session.work = s.stopped s.trap) :
    Inspecting s true (next source.engine ⟨.trap missingResume caller, m⟩) := by
  have htrap : m.session.trap = s.trap := congrArg Work.trap h
  obtain ⟨context, hactive⟩ : ∃ context, m.session.trap.active = some context := by
    rw [htrap]
    exact Option.isSome_iff_exists.1 hhandling
  have hfail : onSession (Session.trapError missingResume) m =
      .error (.error missingResume) { m with session := m.session.noted missingResume } := by
    unfold onSession
    rw [trapError_of_active hactive]
    rfl
  have hnext : next source.engine ⟨.trap missingResume caller, m⟩ =
      ⟨.report (.error missingResume) caller, { m with session := m.session.noted missingResume }⟩ :=
    after_of_error hfail
  rw [hnext]
  refine .reporting hhandling ?_
  show { m.session.work with trap := { m.session.trap with
    err := ErrorCode.noResume.number, location := some .direct } } = _
  rw [h, htrap]
  rfl

/-- The error is reported, and the handler is abandoned. -/
theorem inspecting_report (hworks : m.console.Works) (hhandling : s.trap.isHandling = true)
    (h : m.session.work = s.stopped
      { s.trap with err := ErrorCode.noResume.number, location := some .direct }) :
    Inspecting s true (next source.engine ⟨.report (.error missingResume) caller, m⟩) := by
  have htrap : m.session.trap =
      { s.trap with err := ErrorCode.noResume.number, location := some .direct } := congrArg Work.trap h
  obtain ⟨⟨⟩, console, -, hshown⟩ := says_writeMessage missingResume.text
    (missingResume.line.or (m.session.lineOf? missingResume.location)) m hworks
  obtain ⟨m', hreport, hwork⟩ : ∃ m', report (.error missingResume) m = .ok () m' ∧
      m'.session.work = { m.session.work with trap := { m.session.trap with active := none } } := by
    simp only [report, handleError, bind_apply, get_apply, hshown, modifySession_apply]
    exact ⟨_, rfl, rfl⟩
  have hnext : next source.engine ⟨.report (.error missingResume) caller, m⟩ =
      ⟨.cycled (.ok ()) caller, m'⟩ := after_of_ok hreport
  rw [hnext]
  refine .resting trivial (hwork.trans ?_)
  rw [h, htrap, ErrorTrap.afterLine_of_handling hhandling]
  rfl

/-- One step of an inspection. -/
theorem Inspecting.next {u : Moment} (h : Inspecting s ended u) (hworks : u.machine.console.Works)
    (hinspects : u.Inspects source.engine) :
    Inspecting s (ended || u.lineEnds) (u.next source.engine) := by
  cases h with
  | broken hmode h => exact inspecting_switch (.broken hmode h)
  | failing hhandling h => exact inspecting_trap hhandling h
  | reporting hhandling h => exact inspecting_report hworks hhandling h
  | @resting _ control m hcalm h =>
    have hnone : ∀ {u : Moment}, Inspecting s ended u → Inspecting s (ended || false) u := by
      intro u hu
      rw [Bool.or_false]
      exact hu
    cases control with
    | pass caller => exact hnone (inspecting_pass h hinspects)
    | dispatch caller => exact hnone (inspecting_dispatch h)
    | statement caller =>
      show Inspecting s (ended || m.atEnd) _
      obtain hend | hprints : m.atEnd = true ∨ m.prints = true := hinspects
      · rw [hend, Bool.or_true]
        exact inspecting_lineEnd h hend
      · obtain ⟨text, hprint⟩ := prints_iff.1 hprints
        rw [hprint.atEnd, Bool.or_false]
        exact inspecting_print h hworks hprint
    | switch wasExecuting caller => exact hnone (inspecting_switch (.resting trivial h))
    | cycled outcome caller => exact hnone (.resting (Control.calm_resumed caller outcome) h)
    | begin config =>
      have hoff : config.run = false := hinspects
      have hrun : ¬ config.run = true := by simp [hoff]
      have hnext : Moment.next source.engine ⟨.begin config, m⟩ = ⟨.idle, m⟩ := by
        simp only [Moment.next, if_neg hrun]
        rfl
      rw [hnext]
      exact hnone (.resting trivial h)
    | idle =>
      refine hnone (.resting ?_ h)
      split <;> trivial
    | enter text =>
      obtain ⟨stored, m', hstore, hwork⟩ := storeLine_unnumbered hinspects m
      have hnext : Moment.next source.engine ⟨.enter text, m⟩ = ⟨.returned (.ok ()), m'⟩ :=
        after_of_ok hstore
      rw [hnext]
      exact hnone (.resting trivial (hwork.trans h))
    | trap e caller => exact hcalm.elim
    | report signal caller => exact hcalm.elim
    | launch | load | greet | command | refuse | commanded | interrupt | shutdown | reset | returned =>
      exact hinspects.elim

end Steps

section Runs

variable {source : EventSource} {t u : Moment} {ended stop : Bool} {caller : Caller}

/-- A break in the program begins an inspection. -/
theorem inspecting_broken (hbreak : t.control = .interrupt stop caller)
    (hrunning : t.machine.session.inProgram = true) (hworks : t.machine.console.Works) :
    Inspecting t.machine.session false (t.next source.engine) := by
  obtain ⟨control, m⟩ := t
  cases hbreak
  let m₁ : Machine := { m with console := m.console.note .stopSound }
  obtain ⟨console, -, hok⟩ := handleBreak_apply (m := m₁) hworks stop
  have hpart : breakPart stop m = .ok () { m₁ with console, session := m.session.broken } := hok
  have hnext : next source.engine ⟨.interrupt stop caller, m⟩ =
      ⟨.switch true caller, { m₁ with console, session := m.session.broken }⟩ := after_of_ok hpart
  rw [hnext]
  exact .broken (endExecution_mode m.session) (Session.work_broken hrunning)

/-- All moments of an inspection. -/
theorem Inspection.inspecting (hsilent : source.Silent) (hbreak : t.control = .interrupt stop caller)
    (hrunning : t.machine.session.inProgram = true) (hworks : t.machine.console.Works)
    (h : Inspection source.engine t ended u) :
    Inspecting t.machine.session ended u ∧ u.machine.console.Works := by
  induction h with
  | broken =>
    exact ⟨inspecting_broken hbreak hrunning hworks, (upholds_next hsilent.upholding t).console hworks⟩
  | @next ended u h hu ih =>
    exact ⟨ih.1.next ih.2 hu, (upholds_next hsilent.upholding u).console ih.2⟩
  | called h call hconsole disk feed clock ih =>
    refine ⟨?_, hconsole⟩
    cases ih.1 with
    | resting hcalm h => cases call <;> exact .resting trivial h

/-- The program is in range at every moment that is reached. -/
theorem Reached.inRange {poll : MachineM Unit} (hpoll : Upholding poll) {m : Machine}
    (hm : m.session.program.InRange) (h : Reached (.polling poll) m t) :
    t.machine.session.program.InRange := by
  induction h with
  | new => exact hm
  | called h call console disk feed clock ih => exact ih
  | @next t h ih => exact (upholds_next hpoll t).session ih

/-- `CONT` takes the program up where it was stopped. -/
theorem next_cont {s : Session} {m : Machine} {trap : ErrorTrap} (h : m.session.work = s.stopped trap)
    (hrange : s.program.InRange) (hworks : m.console.Works) (hcont : m.Upcoming .cont) :
    (next source.engine ⟨.statement caller, m⟩).control = .switch true caller ∧
      (next source.engine ⟨.statement caller, m⟩).machine.session.work =
        { s.stopped trap with inProgram := true } := by
  obtain ⟨pos, console, -, hstatement⟩ := statement_of_upcoming hworks hcont
  have hwork := (work_reading (inProgram_of_stopped h) pos console).trans h
  have hstop : (m.reading pos console).session.stop = some s.program.pos := congrArg Work.stop hwork
  have hprogram : (m.reading pos console).session.program = s.program := congrArg Work.program hwork
  let session := (m.reading pos console).session.setPointer true (some s.program.pos)
  have hresumed : statement m = .ok true { m.reading pos console with session } := by
    rw [hstatement]
    simp [Statement.execute, onSession, Session.cont_apply, hstop, session]
  rw [next_statement_of_true hresumed]
  refine ⟨rfl, (Session.work_setPointer _ _).trans ?_⟩
  rw [hwork, hprogram, Nat.min_eq_left hrange]
  rfl

variable {config : Config} {console : Console} {disk : Disk} {feed : EventFeed} {clock : Int64}

/-- A program is stopped by a break, and then inspected.  `CONT` succeeds and the program goes on in the
place where it was, with its variables, subroutines, open files and error handler.  If the handler ran,
it goes on as well, with `ERR` and `ERL`, exactly if no direct line has come to its end. -/
theorem cont_resumes (hsilent : source.Silent)
    (hreached : Reached source.engine (.new config console disk feed clock) t)
    (hworks : t.machine.console.Works) (hbreak : t.control = .interrupt stop caller)
    (hrunning : t.machine.session.inProgram = true) (hinspection : Inspection source.engine t ended u)
    {caller' : Caller} (hstatement : u.control = .statement caller') (hcont : u.machine.Upcoming .cont) :
    let s := t.machine.session
    let s' := (u.next source.engine).machine.session
    (u.next source.engine).control = .switch true caller' ∧ s'.program = s.program ∧
      s'.inProgram = true ∧ s'.vars = s.vars ∧ s'.gosub = s.gosub ∧ s'.files = s.files ∧
      s'.trap.handler = s.trap.handler ∧
      (s'.trap = s.trap ↔ s.trap.active = none ∨ ended = false) := by
  intro s s'
  have hrange : s.program.InRange := hreached.inRange hsilent.upholding (Nat.zero_le _)
  obtain ⟨hinspecting, hconsole⟩ := hinspection.inspecting hsilent hbreak hrunning hworks
  cases hinspecting with
  | broken | failing | reporting => cases hstatement
  | resting hcalm h =>
    cases hstatement
    obtain ⟨hcontrol, hwork⟩ := @next_cont source caller' s _ _ h hrange hconsole hcont
    have htrap : s'.trap = s.trap.afterLine ended := congrArg Work.trap hwork
    refine ⟨hcontrol, congrArg Work.program hwork, congrArg Work.inProgram hwork,
      congrArg Work.vars hwork, congrArg Work.gosub hwork, congrArg Work.files hwork, ?_, ?_⟩
    · rw [htrap, ErrorTrap.handler_afterLine]
    · rw [htrap]
      exact s.trap.afterLine_eq_iff ended

/-- The moments that follow. -/
def since (e : Engine) (t : Moment) (n : Nat) : Moment :=
  (next e)^[n] (t.next e)

theorem since_succ (e : Engine) (t : Moment) (n : Nat) : t.since e (n + 1) = (t.since e n).next e :=
  Function.iterate_succ_apply' (next e) n (t.next e)

/-- The moments that follow a break, as long as they inspect. -/
theorem inspection_since {e : Engine} {n : Nat} (h : ∀ j < n, (t.since e j).Inspects e) :
    Inspection e t ((List.range n).any fun j => (t.since e j).lineEnds) (t.since e n) := by
  induction n with
  | zero => exact .broken
  | succ n ih =>
    have hbefore := ih fun j hj => h j (Nat.lt_succ_of_lt hj)
    rw [List.range_succ, List.any_append, since_succ, List.any_cons, List.any_nil, Bool.or_false]
    exact hbefore.next (h n (Nat.lt_succ_self n))

end Runs

/-- Whether a statement comes next, and it is `CONT`. -/
def continues (u : Moment) : Bool :=
  (u.control matches .statement _) && u.machine.upcoming?.any (· matches .cont)

/-- Where `CONT` comes a statement is about to run. -/
theorem exists_of_continues {u : Moment} (h : u.continues = true) :
    (∃ caller, u.control = .statement caller) ∧ u.machine.Upcoming .cont := by
  obtain ⟨hcontrol, hcont⟩ := Bool.and_eq_true_iff.1 h
  constructor
  · split at hcontrol
    · exact ⟨_, by assumption⟩
    · cases hcontrol
  · obtain ⟨st, hst, hmatch⟩ := (Option.any_eq_true _ _).1 hcont
    split at hmatch
    · exact upcoming_iff.2 hst
    · cases hmatch

/-- Whether a statement has stopped the program. -/
def stops (t : Moment) : Bool :=
  t.control matches .interrupt true _

theorem exists_of_stops {t : Moment} (h : t.stops = true) : ∃ caller, t.control = .interrupt true caller := by
  unfold stops at h
  split at h
  · exact ⟨_, by assumption⟩
  · cases h

/-- A program is stopped in a subroutine, its variable is printed, and then it goes on. -/
def stopping : Machine :=
  .new { greeting := false }
    { input := [.typed "10 A$=\"X\":GOSUB 20", .typed "20 STOP", .typed "RUN", .typed "PRINT A$",
        .typed "CONT"] } {} {} 0

/-- The moment when `STOP` has been executed. -/
def stopped : Moment :=
  stopping.moment EventSource.feed.engine 27

/-- A line is printed and comes to its end; then the program goes on in the subroutine, with its
variable. -/
theorem stopping_resumes :
    ∃ t u, Reached EventSource.feed.engine stopping t ∧ Inspection EventSource.feed.engine t true u ∧
      t.machine.session.gosub.items.length = 1 ∧ t.machine.session.vars.size = 1 ∧
      let s := t.machine.session
      let s' := (u.next EventSource.feed.engine).machine.session
      s'.program = s.program ∧ s'.inProgram = true ∧ s'.vars = s.vars ∧ s'.gosub = s.gosub ∧
        s'.files = s.files ∧ s'.trap = s.trap := by
  have hreached : Reached EventSource.feed.engine stopping stopped := reached_moment _ _ 27
  have hworks : stopped.machine.console.Works :=
    (upholds_moment EventSource.silent_feed.upholding stopping 27).console
      (Console.works_of_nil rfl rfl)
  have hstops : stopped.stops = true ∧ stopped.machine.session.inProgram = true ∧
      stopped.machine.session.gosub.items.length = 1 ∧ stopped.machine.session.vars.size = 1 ∧
      stopped.machine.session.trap.active = none := by decide +kernel
  have hinspects : ∀ j < 19, (stopped.since EventSource.feed.engine j).Inspects EventSource.feed.engine := by
    decide +kernel
  have hends : ((List.range 19).any fun j => (stopped.since EventSource.feed.engine j).lineEnds) = true := by
    decide +kernel
  have hcontinues : (stopped.since EventSource.feed.engine 19).continues = true := by decide +kernel
  -- from here on it does not matter how this moment came about
  generalize stopped = t at *
  obtain ⟨hbreak, hrunning, hframes, hsize, hactive⟩ := hstops
  obtain ⟨caller, hbreak⟩ := exists_of_stops hbreak
  obtain ⟨⟨caller', hstatement⟩, hcont⟩ := exists_of_continues hcontinues
  have hinspection := inspection_since hinspects
  rw [hends] at hinspection
  obtain ⟨-, hprogram, hresumed, hvars, hgosub, hfiles, -, htrap⟩ := cont_resumes EventSource.silent_feed
    hreached hworks hbreak hrunning hinspection hstatement hcont
  exact ⟨t, _, hreached, hinspection, hframes, hsize, hprogram, hresumed, hvars, hgosub, hfiles,
    htrap.2 (.inl hactive)⟩

/-- A program is stopped while its error handler runs. -/
def stoppingHandler : Machine :=
  .new { greeting := false }
    { input := [.typed "10 ON ERROR GOTO 40", .typed "20 ERROR 5", .typed "40 STOP", .typed "RUN",
        .typed "PRINT ERR", .typed "CONT"] } {} {} 0

/-- `ERR` is printed, and when that line has come to its end the handler is no longer there. -/
theorem stoppingHandler_abandoned :
    let t := stoppingHandler.moment EventSource.feed.engine 30
    let u := t.since EventSource.feed.engine 20
    t.stops = true ∧ t.machine.session.inProgram = true ∧
      (∀ j < 20, (t.since EventSource.feed.engine j).Inspects EventSource.feed.engine) ∧
      u.continues = true ∧ t.machine.session.trap.active = some ⟨14, true⟩ ∧
      t.machine.session.trap.err = 5 ∧
      (u.next EventSource.feed.engine).machine.session.trap.active = none ∧
      (u.next EventSource.feed.engine).machine.session.trap.err = 19 := by
  decide +kernel

end Moment

end LineBasic

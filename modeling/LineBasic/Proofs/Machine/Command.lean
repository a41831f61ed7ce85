import LineBasic.Proofs.Machine.Bearing

/-!
# Where a command starts

A line without a number is a command: it becomes the direct line, and the next cycle is to execute it.
Where a pass has ended execution the machine is on the direct line by then.  An error that no handler
takes leaves it in the program, and a command does not bring it back.

* `Moment.Operated`: the moments of a machine that is cycled and given lines.
* `Moment.Lingers`: an error has ended execution in the program, and nothing has been executed since.
* `Moment.Operated.inProgram_iff`: outside of execution a machine is in its program for no other reason.
* `Moment.command_starts_iff`: where the first statement after a command is read.
-/

namespace LineBasic

open Effect

namespace Control

/-- The machine is about to execute something. -/
def executes : Control → Bool
  | dispatch _ => true
  | statement _ => true
  | trap _ _ => true
  | interrupt _ _ => true
  | _ => false

/-- The machine waits for a call. -/
def isReturned : Control → Bool
  | returned _ => true
  | _ => false

/-- A cycle of the owner is about to run a statement. -/
def isStatement : Control → Bool
  | statement .owner => true
  | _ => false

theorem isStatement_iff {c : Control} : c.isStatement = true ↔ c = statement .owner := by
  constructor
  · intro h
    unfold isStatement at h
    split at h
    · rfl
    · cases h
  · rintro rfl
    rfl

end Control

namespace Moment

open Machine

/-! ## Machines that are cycled and given lines -/

/-- The moments of a machine that is cycled and given lines in any order.  Between calls the world may
change. -/
inductive Operated (e : Engine) (m : Machine) : Moment → Prop where
  | new : Operated e m ⟨.returned (.ok ()), m⟩
  | called {outcome : Except Signal Unit} {m' : Machine} (h : Operated e m ⟨.returned outcome, m'⟩)
      {call : Call} (hcall : call ≠ .run) (console : Console) (disk : Disk) (feed : EventFeed)
      (clock : Int64) : Operated e m ⟨call.control, { m' with console, disk, feed, clock }⟩
  | next {t : Moment} (h : Operated e m t) : Operated e m (t.next e)

section Operated

variable {source : EventSource} {m : Machine} {t : Moment}

theorem serves_call {call : Call} (hcall : call ≠ .run) : call.control.Serves := by
  cases call with
  | run => exact absurd rfl hcall
  | cycle => exact .pass
  | enter text => exact .enter text

theorem executes_call (call : Call) : call.control.executes = false := by
  cases call <;> rfl

/-- While a machine is operated its owner is served. -/
theorem Operated.serves (h : Operated source.engine m t) : t.control.Serves := by
  induction h with
  | new => exact .returned _
  | called _ hcall => exact serves_call hcall
  | next _ ih => exact (proceeds_next source ih).serves

theorem not_renews_of_serves (h : t.control.Serves) : ¬ t.Renews := by
  rintro (hlaunch | hload | hreset)
  · rw [hlaunch] at h
    cases h
  · rw [hload] at h
    cases h
  · rw [hreset] at h
    cases h

/-- The mode stays sound while a machine is operated. -/
theorem Operated.modeSound (h : Operated source.engine m t) (hm : m.session.ModeSound) :
    t.machine.session.ModeSound := by
  induction h with
  | new => exact hm
  | called _ _ _ _ _ _ ih => exact ih
  | next ht ih =>
    obtain ⟨kind, command, -, hturns⟩ | ⟨-, hturns⟩ := turns_next source (not_renews_of_serves ht.serves)
    · exact hturns.session.sound ih
    · exact hturns.session.sound ih

/-- What executes is in that mode. -/
theorem Proceeds.executing {t u : Moment} (h : Proceeds t u)
    (ht : t.control.executes = true → t.machine.session.mode = .executing)
    (hu : u.control.executes = true) : u.machine.session.mode = .executing := by
  cases h with
  | polled hmode hbearing => exact (Session.mode_of_bearing hbearing).trans hmode
  | pollFailed s hmode hbearing => exact (Session.mode_of_bearing hbearing).trans hmode
  | asked hmode hin hc => obtain rfl | rfl | ⟨s, rfl, -⟩ := hc <;> cases hu
  | dispatched hbearing => exact (Session.mode_of_bearing hbearing).trans (ht rfl)
  | dispatchFailed e hbearing => exact (Session.mode_of_bearing hbearing).trans (ht rfl)
  | failed s hmode => exact hmode.trans (ht rfl)
  | switched hswitch hmode hin => split at hu <;> cases hu
  | _ => cases hu

/-- Where a statement may run the mode is that of execution. -/
theorem Operated.executing (h : Operated source.engine m t) (ht : t.control.executes = true) :
    t.machine.session.mode = .executing := by
  induction h with
  | new => cases ht
  | @called _ _ _ call =>
    rw [executes_call] at ht
    cases ht
  | next h ih => exact (proceeds_next source h.serves).executing ih ht

end Operated

/-! ## Execution that was left in the program -/

/-- An error in the program that no handler has taken is about to be reported. -/
structure Fails (t : Moment) : Prop where
  control : ∃ e, t.control = .report (.error e) .owner
  mode : t.machine.session.mode = .executing
  inProgram : t.machine.session.inProgram = true

/-- The next operation runs a statement, marks the beginning or the end of execution, or reports a
fault. -/
def Departs (t : Moment) : Prop :=
  t.control = .statement .owner ∨
    (∃ wasExecuting, t.control = .switch wasExecuting .owner ∧
      decide (t.machine.session.mode = .executing) ≠ wasExecuting) ∨
    ∃ message, t.control = .report (.fault message) .owner

/-- An error has ended execution in the program, and no operation since has taken the machine from
there. -/
inductive Lingers (e : Engine) (m : Machine) : Moment → Prop where
  | left {t : Moment} (h : Operated e m t) (hfails : t.Fails)
      (hleft : (t.next e).machine.session.mode ≠ .executing) : Lingers e m (t.next e)
  | called {outcome : Except Signal Unit} {m' : Machine} (h : Lingers e m ⟨.returned outcome, m'⟩)
      {call : Call} (hcall : call ≠ .run) (console : Console) (disk : Disk) (feed : EventFeed)
      (clock : Int64) : Lingers e m ⟨call.control, { m' with console, disk, feed, clock }⟩
  | next {t : Moment} (h : Lingers e m t) (hstays : ¬ t.Departs) : Lingers e m (t.next e)

/-- Execution in the program goes on there, unless it departs. -/
theorem Proceeds.stays {t u : Moment} (h : Proceeds t u) (hstays : ¬ t.Departs)
    (hin : t.machine.session.inProgram = true) : u.machine.session.inProgram = true := by
  cases h with
  | polled _ hbearing => exact (Session.inProgram_of_bearing hbearing).trans hin
  | pollFailed _ _ hbearing => exact (Session.inProgram_of_bearing hbearing).trans hin
  | asked _ hkept _ => exact hkept.trans hin
  | dispatched hbearing => exact (Session.inProgram_of_bearing hbearing).trans hin
  | dispatchFailed _ hbearing => exact (Session.inProgram_of_bearing hbearing).trans hin
  | ran => exact absurd (.inl rfl) hstays
  | failed => exact absurd (.inl rfl) hstays
  | trapped _ _ _ htrapped => exact htrapped
  | untrapped _ _ hbearing => exact (Session.inProgram_of_bearing hbearing).trans hin
  | broke _ hbearing => exact (Session.inProgram_of_bearing hbearing).trans hin
  | breakFailed _ _ hbearing => exact (Session.inProgram_of_bearing hbearing).trans hin
  | switched hswitch => exact absurd (.inr (.inl ⟨_, rfl, hswitch⟩)) hstays
  | wentOn => exact hin
  | reported _ _ hkept => exact hkept.trans hin
  | reportFailed _ _ hbearing => exact (Session.inProgram_of_bearing hbearing).trans hin
  | abandoned => exact absurd (.inr (.inr ⟨_, rfl⟩)) hstays
  | passedOn => exact hin
  | cycled => exact hin
  | entered _ _ _ hkept => exact hkept.trans hin
  | returned => exact hin

/-- A machine that executes goes on with it, or has just ended it, or an error leaves it in its program. -/
theorem Proceeds.inProgram_of_executing {t u : Moment} (h : Proceeds t u)
    (hmode : t.machine.session.mode = .executing) (hin : u.machine.session.inProgram = true) :
    u.machine.session.mode = .executing ∨ u.control = .switch true .owner ∨
      t.Fails ∧ u.machine.session.mode ≠ .executing := by
  cases h with
  | polled _ hbearing => exact .inl ((Session.mode_of_bearing hbearing).trans hmode)
  | pollFailed _ _ hbearing => exact .inl ((Session.mode_of_bearing hbearing).trans hmode)
  | asked hwaits => exact absurd hmode hwaits
  | dispatched hbearing => exact .inl ((Session.mode_of_bearing hbearing).trans hmode)
  | dispatchFailed _ hbearing => exact .inl ((Session.mode_of_bearing hbearing).trans hmode)
  | ran => exact .inr (.inl rfl)
  | failed _ hkept => exact .inl (hkept.trans hmode)
  | trapped => exact .inr (.inl rfl)
  | untrapped _ _ hbearing => exact .inl ((Session.mode_of_bearing hbearing).trans hmode)
  | broke => exact .inr (.inl rfl)
  | breakFailed _ _ hbearing => exact .inl ((Session.mode_of_bearing hbearing).trans hmode)
  | switched _ hkept => exact .inl (hkept.trans hmode)
  | wentOn => exact .inl hmode
  | reported e hleft hkept => exact .inr (.inr ⟨⟨⟨e, rfl⟩, hmode, hkept.symm.trans hin⟩, hleft⟩)
  | reportFailed _ _ hbearing => exact .inl ((Session.mode_of_bearing hbearing).trans hmode)
  | abandoned _ _ hout => exact absurd (hout.symm.trans hin) Bool.false_ne_true
  | passedOn => exact .inl hmode
  | cycled => exact .inl hmode
  | entered _ _ hexecutes => exact .inl (hexecutes hmode)
  | returned => exact .inl hmode

/-- A machine that does not execute is in its program only if it was there already. -/
theorem Proceeds.inProgram_of_waiting {t u : Moment} (h : Proceeds t u)
    (ht : t.control.executes = true → t.machine.session.mode = .executing)
    (hmode : t.machine.session.mode ≠ .executing) (hin : u.machine.session.inProgram = true) :
    ¬ t.Departs ∧ t.machine.session.inProgram = true ∧ t.control ≠ .switch true .owner := by
  cases h with
  | asked _ hkept => exact ⟨by simp [Departs], hkept.symm.trans hin, Control.noConfusion⟩
  | switched _ _ hout => exact absurd (hout.symm.trans hin) Bool.false_ne_true
  | wentOn hsame =>
    subst hsame
    exact ⟨by simp [Departs], hin, by simp [hmode]⟩
  | reported _ _ hkept => exact ⟨by simp [Departs], hkept.symm.trans hin, Control.noConfusion⟩
  | reportFailed _ _ hbearing =>
    have hkept := Session.inProgram_of_bearing hbearing
    exact ⟨by simp [Departs], hkept.symm.trans hin, Control.noConfusion⟩
  | abandoned _ _ hout => exact absurd (hout.symm.trans hin) Bool.false_ne_true
  | passedOn hs =>
    refine ⟨?_, hin, Control.noConfusion⟩
    obtain rfl | rfl := hs <;> simp [Departs]
  | cycled => exact ⟨by simp [Departs], hin, Control.noConfusion⟩
  | entered _ _ _ hkept => exact ⟨by simp [Departs], hkept.symm.trans hin, Control.noConfusion⟩
  | returned => exact ⟨by simp [Departs], hin, Control.noConfusion⟩
  | polled hexecuting => exact absurd hexecuting hmode
  | pollFailed _ hexecuting => exact absurd hexecuting hmode
  -- what is left is execution
  | _ => exact absurd (ht rfl) hmode

section Lingers

variable {source : EventSource} {m : Machine} {t : Moment}

theorem Lingers.operated {e : Engine} (h : Lingers e m t) : Operated e m t := by
  induction h with
  | left h => exact h.next
  | called _ hcall console disk feed clock ih => exact ih.called hcall console disk feed clock
  | next _ _ ih => exact ih.next

/-- As long as an error lingers the pointer is in the program. -/
theorem Lingers.inProgram (h : Lingers source.engine m t) : t.machine.session.inProgram = true := by
  induction h with
  | @left t h hfails =>
    refine (proceeds_next source h.serves).stays ?_ hfails.inProgram
    obtain ⟨e, he⟩ := hfails.control
    simp [Departs, he]
  | called _ _ _ _ _ _ ih => exact ih
  | next h hstays ih => exact (proceeds_next source h.operated.serves).stays hstays ih

/-- A machine in its program executes, or has just ended, or an error has left it there. -/
theorem Operated.inProgram_cases (h : Operated source.engine m t) (hm : m.session.inProgram = false)
    (hin : t.machine.session.inProgram = true) :
    t.machine.session.mode = .executing ∨ t.control = .switch true .owner ∨
      Lingers source.engine m t := by
  induction h with
  | new => exact absurd (hm.symm.trans hin) Bool.false_ne_true
  | called _ hcall console disk feed clock ih =>
    obtain hmode | hswitch | hlingers := ih hin
    · exact .inl hmode
    · cases hswitch
    · exact .inr (.inr (hlingers.called hcall console disk feed clock))
  | @next t h ih =>
    have hstep := proceeds_next source h.serves
    by_cases hmode : t.machine.session.mode = .executing
    · obtain hkept | hswitch | ⟨hfails, hleft⟩ := hstep.inProgram_of_executing hmode hin
      · exact .inl hkept
      · exact .inr (.inl hswitch)
      · exact .inr (.inr (.left h hfails hleft))
    · obtain ⟨hstays, hwas, hswitch⟩ := hstep.inProgram_of_waiting h.executing hmode hin
      exact .inr (.inr ((((ih hwas).resolve_left hmode).resolve_left hswitch).next hstays))

/-- Outside of execution a machine is in its program only if an error has left it there. -/
theorem Operated.inProgram_iff (h : Operated source.engine m t) (hm : m.session.inProgram = false)
    (hmode : t.machine.session.mode ≠ .executing) (hcontrol : t.control ≠ .switch true .owner) :
    t.machine.session.inProgram = true ↔ Lingers source.engine m t := by
  constructor
  · intro hin
    exact ((h.inProgram_cases hm hin).resolve_left hmode).resolve_left hcontrol
  · exact Lingers.inProgram

end Lingers

/-! ## From a command to its first statement -/

/-- The first statement from a moment on is about to be run. -/
def Begins (e : Engine) (t : Moment) (n : Nat) : Prop :=
  ((next e)^[n] t).control = .statement .owner ∧
    ∀ k < n, ((next e)^[k] t).control ≠ .statement .owner

theorem begins_iff {e : Engine} {t : Moment} {n : Nat} :
    Begins e t n ↔ ((next e)^[n] t).control.isStatement = true ∧
      ∀ k < n, ((next e)^[k] t).control.isStatement ≠ true := by
  simp only [Begins, ne_eq, Control.isStatement_iff]

instance (e : Engine) (t : Moment) (n : Nat) : Decidable (Begins e t n) :=
  decidable_of_iff _ begins_iff.symm

/-- A cycle in which no statement will be run any more. -/
inductive Over : Moment → Prop where
  | interrupted {m : Machine} (stop : Bool) (hauto : m.session.autoActive = false) :
      Over ⟨.interrupt stop .owner, m⟩
  | left {m : Machine} (hmode : m.session.mode = .direct) : Over ⟨.switch true .owner, m⟩
  | reported (s : Signal) (m : Machine) : Over ⟨.report s .owner, m⟩
  | cycled (outcome : Except Signal Unit) (m : Machine) : Over ⟨.cycled outcome .owner, m⟩
  | returned (outcome : Except Signal Unit) (m : Machine) : Over ⟨.returned outcome, m⟩

theorem Over.control_ne {t : Moment} (h : Over t) : t.control ≠ .statement .owner := by
  cases h <;> exact Control.noConfusion

/-- What is over stays so. -/
theorem Proceeds.over {t u : Moment} (h : Proceeds t u) (ht : Over t) : Over u := by
  cases ht with
  | interrupted stop hauto =>
    cases h with
    | broke _ hbearing =>
      refine .left ?_
      rw [Session.mode_of_bearing hbearing]
      simp [Session.endExecution, hauto]
    | breakFailed => exact .reported _ _
  | left hmode =>
    cases h with
    | switched =>
      simp only [hmode, decide_true, Bool.and_self, if_true]
      exact .cycled _ _
    | wentOn hsame => simp [hmode] at hsame
  | reported s m =>
    cases h with
    | reported => exact .cycled _ _
    | reportFailed => exact .cycled _ _
    | abandoned => exact .cycled _ _
    | passedOn => exact .cycled _ _
  | cycled outcome m =>
    cases h with
    | cycled => exact .returned _ _
  | returned outcome m =>
    cases h with
    | returned => exact .returned _ _

/-- A cycle on its way to the first statement of a session.  It is where it was or, once an error has
been trapped, in the program. -/
structure Underway (s : Session) (trapped : Prop) (t : Moment) : Prop where
  mode : t.machine.session.mode = .executing
  autoActive : t.machine.session.autoActive = false
  control : t.control = .pass .owner ∨ t.control = .dispatch .owner ∨ t.control = .statement .owner ∨
    (∃ e, t.control = .trap e .owner) ∨ t.control = .switch true .owner
  kept : ¬ trapped → t.machine.session.bearing = s.bearing
  inProgram : trapped → t.machine.session.inProgram = true

theorem Underway.of_bearing {s : Session} {p q : Prop} {t u : Moment} (ht : Underway s p t)
    (hbearing : u.machine.session.bearing = t.machine.session.bearing)
    (hcontrol : u.control = .pass .owner ∨ u.control = .dispatch .owner ∨
      u.control = .statement .owner ∨ (∃ e, u.control = .trap e .owner) ∨
      u.control = .switch true .owner) (hq : q ↔ p) : Underway s q u where
  mode := (Session.mode_of_bearing hbearing).trans ht.mode
  autoActive := (Session.autoActive_of_bearing hbearing).trans ht.autoActive
  control := hcontrol
  kept hkept := hbearing.trans (ht.kept (hq.not.1 hkept))
  inProgram hin := (Session.inProgram_of_bearing hbearing).trans (ht.inProgram (hq.1 hin))

/-- Until a statement is run a cycle stays on its way, unless it comes to an end. -/
theorem Proceeds.underway {s : Session} {trapped : Prop} {t u : Moment} (h : Proceeds t u)
    (ht : Underway s trapped t) (hwaits : t.control ≠ .statement .owner) :
    Over u ∨ Underway s (trapped ∨ ∃ e, t.control = .trap e .owner) u := by
  obtain ⟨control, m⟩ := t
  obtain rfl | rfl | rfl | ⟨e, rfl⟩ | rfl := ht.control
  · cases h with
    | polled _ hbearing => exact .inr (ht.of_bearing hbearing (.inr (.inl rfl)) (by simp))
    | pollFailed signal _ hbearing =>
      cases signal with
      | error e =>
        exact .inr (ht.of_bearing hbearing (.inr (.inr (.inr (.inl ⟨e, rfl⟩)))) (by simp))
      | interrupt stop =>
        exact .inl (.interrupted stop ((Session.autoActive_of_bearing hbearing).trans ht.autoActive))
      | exit => exact .inl (.reported _ _)
      | reset => exact .inl (.reported _ _)
      | fault message => exact .inl (.reported _ _)
    | asked hidle => exact absurd ht.mode hidle
  · cases h with
    | dispatched hbearing => exact .inr (ht.of_bearing hbearing (.inr (.inr (.inl rfl))) (by simp))
    | dispatchFailed e hbearing =>
      exact .inr (ht.of_bearing hbearing (.inr (.inr (.inr (.inl ⟨e, rfl⟩)))) (by simp))
  · exact absurd rfl hwaits
  · cases h with
    | trapped _ hmode hauto hin =>
      exact .inr ⟨hmode.trans ht.mode, hauto.trans ht.autoActive, .inr (.inr (.inr (.inr rfl))),
        fun hnot => absurd (.inr ⟨e, rfl⟩) hnot, fun _ => hin⟩
    | untrapped => exact .inl (.reported _ _)
  · cases h with
    | switched hswitch =>
      have hmode : m.session.mode = .executing := ht.mode
      simp [hmode] at hswitch
    | wentOn => exact .inr (ht.of_bearing rfl (.inl rfl) (by simp))

section Begins

variable {source : EventSource} {m : Machine} {n : Nat}

/-- Until the first statement of a cycle. -/
theorem underway_iterate (hmode : m.session.mode = .executing) (hauto : m.session.autoActive = false)
    (hwaits : ∀ k < n, ((next source.engine)^[k] ⟨.pass .owner, m⟩).control ≠ .statement .owner) :
    ((next source.engine)^[n] ⟨.pass .owner, m⟩).control.Serves ∧
      (Over ((next source.engine)^[n] ⟨.pass .owner, m⟩) ∨
        Underway m.session
          (∃ k < n, ∃ e, ((next source.engine)^[k] ⟨.pass .owner, m⟩).control = .trap e .owner)
          ((next source.engine)^[n] ⟨.pass .owner, m⟩)) := by
  induction n with
  | zero => exact ⟨.pass, .inr ⟨hmode, hauto, .inl rfl, fun _ => rfl, by simp⟩⟩
  | succ n ih =>
    obtain ⟨hserves, hover | hunderway⟩ := ih fun k hk => hwaits k (Nat.lt_succ_of_lt hk)
    · have hstep := proceeds_next source hserves
      rw [← Function.iterate_succ_apply' (next source.engine)] at hstep
      exact ⟨hstep.serves, .inl (hstep.over hover)⟩
    · have hstep := proceeds_next source hserves
      rw [← Function.iterate_succ_apply' (next source.engine)] at hstep
      refine ⟨hstep.serves, (hstep.underway hunderway (hwaits n (Nat.lt_succ_self n))).imp_right ?_⟩
      intro hnext
      refine hnext.of_bearing rfl hnext.control ?_
      simp only [Nat.lt_succ_iff_lt_or_eq, or_and_right, exists_or, exists_eq_left]

/-- The first statement of a cycle is read where the machine was or, if an error has been trapped
before it, in the program. -/
theorem Begins.underway (hmode : m.session.mode = .executing) (hauto : m.session.autoActive = false)
    (h : Begins source.engine ⟨.pass .owner, m⟩ n) :
    Underway m.session
      (∃ k < n, ∃ e, ((next source.engine)^[k] ⟨.pass .owner, m⟩).control = .trap e .owner)
      ((next source.engine)^[n] ⟨.pass .owner, m⟩) := by
  obtain ⟨-, hover | hunderway⟩ := underway_iterate hmode hauto h.2
  · exact absurd h.1 hover.control_ne
  · exact hunderway

/-- Without an error in the look for events, a cycle on the direct line begins a statement at once. -/
theorem begins_of_poll {m₁ : Machine} (hmode : m.session.mode = .executing)
    (hin : m.session.inProgram = false) (hpoll : source.poll m = .ok () m₁) :
    Begins source.engine ⟨.pass .owner, m⟩ 2 := by
  have hpass : next source.engine ⟨.pass .owner, m⟩ = ⟨.dispatch .owner, m₁⟩ := by
    simp only [next, hmode]
    show after source.poll m _ _ = _
    simp only [after, hpoll]
  have hin₁ : m₁.session.inProgram = false := by
    have hbearing := source.bearing_poll m
    rw [hpoll] at hbearing
    exact (Session.inProgram_of_bearing hbearing).trans hin
  have hdispatch : next source.engine ⟨.dispatch .owner, m₁⟩ = ⟨.statement .owner, m₁⟩ := by
    have hquiet : onSession Session.dispatchEvent m₁ = .ok () m₁ := by
      simp only [onSession, Session.dispatchEvent_apply, hin₁, or_true, if_true]
    simp only [next, after, hquiet]
  constructor
  · rw [Function.iterate_succ_apply, hpass, Function.iterate_one, hdispatch]
  · intro k hk
    obtain rfl | rfl : k = 0 ∨ k = 1 := by omega
    · exact Control.noConfusion
    · rw [Function.iterate_one, hpass]
      exact Control.noConfusion

end Begins

/-- At the direct prompt only a command is not stored. -/
theorem bearing_of_command {m m' : Machine} {text : String} (hmode : m.session.mode = .direct)
    (h : storeLine text m = .ok false m') :
    m'.session.bearing =
      (.executing, m.session.autoActive, m.session.inProgram, { bytes := Crunch.line text }) := by
  obtain ⟨stored, m₁, hok, -, hstored⟩ | ⟨s, m₁, herror, -⟩ | ⟨m₁, hok, hbearing⟩ :=
    storeLine_cases text m
  · rw [h, hstored hmode] at hok
    cases hok
  · rw [h] at herror
    cases herror
  · rw [h] at hok
    cases hok
    exact hbearing

/-- A machine is cycled and given lines in any order, and at the direct prompt it takes a command.
However the world may have changed since, in the cycle that comes next the first statement is read from
the start of that command if two things hold, and not otherwise: no error has left the machine in its
program, and before the statement no error was sent to the handler of the program.  In such a cycle the
command is begun, unless the look for events fails. -/
theorem command_starts_iff {source : EventSource} {config : Config} {console : Console} {disk : Disk}
    {feed : EventFeed} {clock : Int64} {m m' : Machine} {text : String}
    (h : Operated source.engine (.new config console disk feed clock) ⟨.enter text, m⟩)
    (hmode : m.session.mode = .direct) (hstore : storeLine text m = .ok false m')
    (console' : Console) (disk' : Disk) (feed' : EventFeed) (clock' : Int64) :
    let lingers := Lingers source.engine (.new config console disk feed clock) ⟨.enter text, m⟩
    let m₁ := { m' with console := console', disk := disk', feed := feed', clock := clock' }
    (∀ n, Begins source.engine ⟨.pass .owner, m₁⟩ n →
      let s := ((next source.engine)^[n] ⟨.pass .owner, m₁⟩).machine.session
      (s.inProgram = false ∧ s.direct = { bytes := Crunch.line text } ↔
        ¬ lingers ∧
          ∀ k < n, ∀ e, ((next source.engine)^[k] ⟨.pass .owner, m₁⟩).control ≠ .trap e .owner)) ∧
      (¬ lingers → (∃ m₂, source.poll m₁ = .ok () m₂) →
        Begins source.engine ⟨.pass .owner, m₁⟩ 2) := by
  intro lingers m₁
  have hstored := bearing_of_command hmode hstore
  have hbearing : m₁.session.bearing =
      (.executing, m.session.autoActive, m.session.inProgram, { bytes := Crunch.line text }) := hstored
  have hexecuting : m₁.session.mode = .executing := congrArg (fun b => b.1) hbearing
  have hauto : m₁.session.autoActive = false :=
    (congrArg (fun b => b.2.1) hbearing).trans
      ((h.modeSound ⟨fun _ => rfl, nofun, rfl⟩).direct hmode)
  have hin : m₁.session.inProgram = m.session.inProgram := congrArg (fun b => b.2.2.1) hbearing
  have hdirect : m₁.session.direct = { bytes := Crunch.line text } :=
    congrArg (fun b => b.2.2.2) hbearing
  have hlingers : m.session.inProgram = true ↔ lingers :=
    h.inProgram_iff rfl (by simp [hmode]) Control.noConfusion
  refine ⟨?_, ?_⟩
  · intro n hbegins s
    have hunderway := hbegins.underway hexecuting hauto
    constructor
    · rintro ⟨hout, -⟩
      have huntrapped := mt hunderway.inProgram (by simp [s, hout])
      refine ⟨fun hleft => ?_, fun k hk e he => huntrapped ⟨k, hk, e, he⟩⟩
      have hkept := Session.inProgram_of_bearing (hunderway.kept huntrapped)
      rw [hin, hlingers.2 hleft] at hkept
      exact Bool.false_ne_true (hout.symm.trans hkept)
    · rintro ⟨hfree, huntrapped⟩
      have hkept := hunderway.kept fun ⟨k, hk, e, he⟩ => huntrapped k hk e he
      refine ⟨?_, (Session.direct_of_bearing hkept).trans hdirect⟩
      rw [show s.inProgram = m₁.session.inProgram from Session.inProgram_of_bearing hkept, hin]
      exact Bool.eq_false_iff.2 fun hprogram => hfree (hlingers.1 hprogram)
  · rintro hfree ⟨m₂, hpoll⟩
    refine begins_of_poll hexecuting ?_ hpoll
    rw [hin]
    exact Bool.eq_false_iff.2 fun hprogram => hfree (hlingers.1 hprogram)

/-- A machine that has returned may be called again. -/
theorem Operated.call {e : Engine} {m : Machine} {t : Moment} (h : Operated e m t) {call : Call}
    (hcall : call ≠ .run) (hreturned : t.control.isReturned = true) :
    Operated e m ⟨call.control, t.machine⟩ := by
  obtain ⟨control, m'⟩ := t
  cases control with
  | returned outcome => exact h.called hcall m'.console m'.disk m'.feed m'.clock
  | _ => cases hreturned

theorem Operated.leads {e : Engine} {m : Machine} {t u : Moment} (h : Operated e m t)
    (hleads : Leads e t u) : Operated e m u := by
  obtain ⟨n, rfl⟩ := hleads
  induction n generalizing t with
  | zero => exact h
  | succ n ih => exact ih h.next

/-- A machine without a program. -/
def blank : Machine :=
  .new {} {} {} {} 0

/-- A program that fails has been entered. -/
def failingEntered : Moment :=
  next EventSource.feed.engine ⟨.enter "10 ERROR 5", blank⟩

/-- It is to be run. -/
def runEntered : Moment :=
  next EventSource.feed.engine ⟨.enter "RUN", failingEntered.machine⟩

/-- It was run, and the error has been reported. -/
def runFailed : Moment :=
  (next EventSource.feed.engine)^[10] ⟨.pass .owner, runEntered.machine⟩

theorem operated_runFailed : Operated EventSource.feed.engine blank runFailed := by
  have hprogram : Operated EventSource.feed.engine blank failingEntered :=
    (@Operated.call _ _ _ .new (.enter "10 ERROR 5") Call.noConfusion rfl).next
  have hrun : Operated EventSource.feed.engine blank runEntered :=
    (@Operated.call _ _ _ hprogram (.enter "RUN") Call.noConfusion (by decide +kernel)).next
  exact (@Operated.call _ _ _ hrun .cycle Call.noConfusion (by decide +kernel)).leads ⟨10, rfl⟩

/-- A command was given after that.  It was not executed: execution has gone on in the program, and has
come to its end. -/
def commandLost : Moment :=
  (next EventSource.feed.engine)^[5]
    ⟨.pass .owner, (next EventSource.feed.engine ⟨.enter "PRINT 1", runFailed.machine⟩).machine⟩

theorem operated_commandLost : Operated EventSource.feed.engine blank commandLost := by
  have hcommand : Operated EventSource.feed.engine blank
      (next EventSource.feed.engine ⟨.enter "PRINT 1", runFailed.machine⟩) :=
    (@Operated.call _ _ _ operated_runFailed (.enter "PRINT 1") Call.noConfusion
      (by decide +kernel)).next
  exact (@Operated.call _ _ _ hcommand .cycle Call.noConfusion (by decide +kernel)).leads ⟨5, rfl⟩

/-- The next command is executed, from its start. -/
theorem command_starts_again :
    ∃ m', storeLine "PRINT 1" commandLost.machine = .ok false m' ∧
      let m₁ := { m' with console := {}, disk := {}, feed := {}, clock := 0 }
      Begins EventSource.feed.engine ⟨.pass .owner, m₁⟩ 2 ∧
      let s := ((next EventSource.feed.engine)^[2] ⟨.pass .owner, m₁⟩).machine.session
      s.inProgram = false ∧ s.direct = { bytes := Crunch.line "PRINT 1" } := by
  have hstore := @storeLine_of_command commandLost.machine "PRINT 1" (by decide +kernel)
    (by decide +kernel)
  have hentered : Operated EventSource.feed.engine blank ⟨.enter "PRINT 1", commandLost.machine⟩ :=
    @Operated.call _ _ _ operated_commandLost (.enter "PRINT 1") Call.noConfusion (by decide +kernel)
  have hout : commandLost.machine.session.inProgram = false := by decide +kernel
  have hfree : ¬ Lingers EventSource.feed.engine blank ⟨.enter "PRINT 1", commandLost.machine⟩ :=
    fun hlingers => Bool.false_ne_true (hout.symm.trans hlingers.inProgram)
  obtain ⟨hstarts, hbegins⟩ := command_starts_iff hentered (by decide +kernel) hstore {} {} {} 0
  have hbegins := hbegins hfree ⟨_, rfl⟩
  refine ⟨_, hstore, hbegins, (hstarts 2 hbegins).2 ⟨hfree, ?_⟩⟩
  intro k hk e
  obtain rfl | rfl : k = 0 ∨ k = 1 := by omega
  · exact Control.noConfusion
  · exact Control.noConfusion

/-- After a program has failed, a command is not executed: the first statement is read in the program. -/
theorem command_starts_in_program :
    ∃ m m', Operated EventSource.feed.engine blank ⟨.enter "PRINT 1", m⟩ ∧ m.session.mode = .direct ∧
      storeLine "PRINT 1" m = .ok false m' ∧ Begins EventSource.feed.engine ⟨.pass .owner, m'⟩ 2 ∧
      ((next EventSource.feed.engine)^[2] ⟨.pass .owner, m'⟩).machine.session.inProgram = true := by
  have hentered : Operated EventSource.feed.engine blank ⟨.enter "PRINT 1", runFailed.machine⟩ :=
    @Operated.call _ _ _ operated_runFailed (.enter "PRINT 1") Call.noConfusion (by decide +kernel)
  have hstore := @storeLine_of_command runFailed.machine "PRINT 1" (by decide +kernel)
    (by decide +kernel)
  refine ⟨runFailed.machine, _, hentered, by decide +kernel, hstore, ?_, ?_⟩
  · decide +kernel
  · decide +kernel

end Moment

end LineBasic

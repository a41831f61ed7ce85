import LineBasic.Proofs.Machine.Change

/-!
# Modes

The mode of a session says what the next pass of the loop does; whether line numbers are offered
again once a command has run is noted apart from it.  Many operations write the one or the other.

* `mode_of_cycle`: a cycle that succeeds has left execution.
* `mode_agrees`: however a machine is used, its mode and the offering of line numbers agree.
-/

namespace LineBasic

open Effect

namespace Machine

/-! ## The end of a cycle -/

/-- An operation that, if it succeeds, ends outside of execution. -/
def Halts {α : Type} (x : MachineM α) : Prop :=
  ∀ m a m', x m = .ok a m' → m'.session.mode ≠ .executing

section Rules

variable {α β : Type}

theorem Halts.bind {x : MachineM α} {f : α → MachineM β} (hf : ∀ a, Halts (f a)) : Halts (x >>= f) := by
  intro m b m' h
  rw [bind_apply] at h
  cases hx : x m with
  | ok a m₁ =>
    rw [hx] at h
    exact hf a m₁ b m' h
  | error s m₁ =>
    rw [hx] at h
    cases h

/-- What comes after the end of execution leaves the mode alone. -/
theorem Halts.bind_keeps {x : MachineM α} {f : α → MachineM β} (hx : Halts x)
    (hf : ∀ a m, (left (f a m)).session.mode = m.session.mode) : Halts (x >>= f) := by
  intro m b m' h
  rw [bind_apply] at h
  cases hxm : x m with
  | ok a m₁ =>
    rw [hxm] at h
    have hmode := hf a m₁
    rw [show f a m₁ = .ok b m' from h] at hmode
    rw [show m'.session.mode = m₁.session.mode from hmode]
    exact hx m a m₁ hxm
  | error s m₁ =>
    rw [hxm] at h
    cases h

theorem Halts.ite {c : Prop} [Decidable c] {x y : MachineM α} (hx : Halts x) (hy : Halts y) :
    Halts (if c then x else y) := by
  split
  · exact hx
  · exact hy

theorem Halts.throw (s : Signal) : Halts (throw s : MachineM α) := by
  intro m a m' h
  cases h

theorem halts_modifySession {f : Session → Session} (h : ∀ s, (f s).mode ≠ .executing) :
    Halts (modifySession f) := by
  intro m a m' hm
  cases hm
  exact h m.session

end Rules

/-- A break that is reported ends execution. -/
theorem halts_handleBreak (stop : Bool) : Halts (handleBreak stop) := by
  have hend : ∀ line, Halts (do
      writeMessage "Break" line
      modifySession fun s => { s.endExecution with awaitingInput := false }) := by
    intro line
    exact .bind fun _ => halts_modifySession fun s => endExecution_mode s
  refine .bind fun m => ?_
  refine .ite (.bind fun _ => ?_) ?_
  all_goals
    exact .bind fun m => .ite (.bind fun _ => hend _) (hend _)

/-- So does whatever is reported. -/
theorem halts_report (s : Signal) : Halts (report s) := by
  cases s with
  | error e =>
    intro m a m' h
    obtain ⟨console, ⟨session, hok, -, hmode, -⟩ | herror⟩ := reports_report m e
    · simp only [once, h, Option.some.injEq, Prod.mk.injEq] at hok
      rw [hok.2]
      exact hmode
    · simp [once, h] at herror
  | interrupt stop => exact .bind fun _ => (halts_handleBreak stop).bind_keeps fun _ _ => rfl
  | fault message =>
    have habandoned : ∀ s : Session, (Session.setPointer
        { s with autoActive := false, mode := .direct, awaitingInput := false } false none).mode ≠
          .executing := by
      intro s h
      cases h
    refine Halts.bind_keeps (halts_modifySession habandoned) fun _ m => ?_
    have hshows : Shows (do
        startLine
        writeLine ("Internal error; " ++ message)) :=
      shows_startLine.bind fun _ => shows_writeLine _
    obtain ⟨console, ⟨a, hok⟩ | herror⟩ := hshows m
    · rw [hok]
      rfl
    · rw [herror]
      rfl
  | exit => exact .throw _
  | reset => exact .throw _

/-- The end of a pass says whether execution has come back to direct mode. -/
theorem switchMode_apply (wasExecuting : Bool) (m : Machine) :
    ∃ m', switchMode wasExecuting m = .ok (decide (m.session.mode = .direct) && wasExecuting) m' ∧
      m'.session.mode = m.session.mode := by
  simp only [switchMode, bind_apply, get_apply, Effect.ite_apply]
  by_cases hswitch : decide (m.session.mode = .executing) ≠ wasExecuting
  · rw [if_pos hswitch]
    exact ⟨_, rfl, rfl⟩
  · rw [if_neg hswitch]
    exact ⟨m, rfl, rfl⟩

theorem mode_of_switchMode {wasExecuting : Bool} {m m' : Machine}
    (h : switchMode wasExecuting m = .ok true m') : m'.session.mode = .direct := by
  obtain ⟨m₁, hswitch, hmode⟩ := switchMode_apply wasExecuting m
  rw [h] at hswitch
  simp only [EStateM.Result.ok.injEq] at hswitch
  obtain ⟨hsettled, rfl⟩ := hswitch
  have hdirect := hsettled.symm
  simp only [Bool.and_eq_true, decide_eq_true_eq] at hdirect
  rw [hmode]
  exact hdirect.1

/-- A pass that ends the cycle leaves the machine at the direct prompt. -/
theorem mode_of_pass {e : Engine} {m m' : Machine} (h : pass e m = .ok true m') :
    m'.session.mode = .direct := by
  simp only [pass, bind_apply, get_apply] at h
  cases hmode : m.session.mode with
  | executing =>
    simp only [hmode, bind_apply] at h
    cases hpass : executePass e m with
    | ok a m₁ =>
      rw [hpass] at h
      exact mode_of_switchMode h
    | error s m₁ =>
      rw [hpass] at h
      cases h
  | autoNumbering =>
    simp only [hmode, bind_apply] at h
    cases hpass : autoPass m with
    | ok a m₁ =>
      rw [hpass] at h
      exact mode_of_switchMode h
    | error s m₁ =>
      rw [hpass] at h
      cases h
  | direct =>
    simp only [hmode, bind_apply] at h
    cases hpass : directPass m with
    | ok taken m₁ =>
      rw [hpass] at h
      cases taken with
      | true => exact mode_of_switchMode h
      | false => cases h
    | error s m₁ =>
      rw [hpass] at h
      cases h

/-- So do the passes of a cycle together. -/
theorem mode_of_settle {e : Engine} {fuel : Nat} {m m' : Machine}
    (h : settle e fuel m = some (.ok (), m')) : m'.session.mode = .direct := by
  induction fuel generalizing m with
  | zero => cases h
  | succ fuel ih =>
    simp only [settle, Loop.bind_apply, once] at h
    cases hpass : pass e m with
    | error s m₁ => simp [hpass] at h
    | ok settled m₁ =>
      rw [hpass] at h
      cases settled with
      | true =>
        cases h
        exact mode_of_pass hpass
      | false => exact ih h

/-- A cycle that succeeds has left execution. -/
theorem mode_of_cycle {e : Engine} {fuel : Nat} {m m' : Machine}
    (h : cycle e fuel m = some (.ok (), m')) : m'.session.mode ≠ .executing := by
  simp only [cycle, Loop.tryCatch_apply] at h
  cases hsettle : settle e fuel m with
  | none => simp [hsettle] at h
  | some result =>
    rw [hsettle] at h
    obtain ⟨s | a, m₁⟩ := result
    · simp only [once] at h
      cases hreport : report s m₁ with
      | ok a m₂ =>
        rw [hreport] at h
        cases h
        exact halts_report s m₁ a m' hreport
      | error s' m₂ => simp [hreport] at h
    · cases h
      rw [mode_of_settle hsettle]
      simp

/-! ## Modes at all times -/

/-- No saved session will be taken up, and the mode is sound. -/
structure Sound (m : Machine) : Prop where
  resume : m.config.resume = false
  mode : m.session.ModeSound

theorem sound_new {config : Config} (hresume : config.resume = false) (console : Console) (disk : Disk)
    (feed : EventFeed) (clock : Int64) : (new config console disk feed clock).Sound :=
  ⟨hresume, fun _ => rfl, nofun, rfl⟩

theorem resumeSaved_of_resume {m : Machine} (hresume : m.config.resume = false) :
    resumeSaved m = .ok false m := by
  simp [resumeSaved, hresume]

end Machine

namespace Moment

open Machine

/-- One moment keeps the mode sound. -/
theorem Passage.sound {t : Moment} {m' : Machine} (h : t.Passage m') (ht : t.machine.Sound) :
    m'.Sound := by
  cases h with
  | taken hcontrol hsaved =>
    rw [resumeSaved_of_resume ht.resume] at hsaved
    cases hsaved
  | launched hcontrol disk => exact ⟨ht.resume, ht.mode⟩
  | loaded hcontrol program console => exact ⟨ht.resume, ht.mode.of_eq rfl⟩
  | renewed hcontrol disk => exact ⟨rfl, fun _ => rfl, nofun, rfl⟩
  | turned hlabel hturns => exact ⟨hturns.config.symm ▸ ht.resume, hturns.session.sound ht.mode⟩

theorem Leads.sound {source : EventSource} {t u : Moment} (h : Leads source.engine t u)
    (ht : t.machine.Sound) : u.machine.Sound := by
  obtain ⟨n, rfl⟩ := h
  induction n generalizing t with
  | zero => exact ht
  | succ n ih => exact ih ((passage_next source t).sound ht)

/-- The mode is sound at every moment that is reached. -/
theorem Reached.sound {source : EventSource} {m : Machine} {t : Moment} (h : Reached source.engine m t)
    (hm : m.Sound) : t.machine.Sound := by
  induction h with
  | new => exact hm
  | called _ call console disk feed clock ih => exact ⟨ih.resume, ih.mode⟩
  | @next t _ ih => exact (passage_next source t).sound ih

end Moment

namespace Machine

open Moment

/-- Whether a loop comes to its end without a signal. -/
def succeeds (x : LoopM Unit) (m : Machine) : Bool :=
  match x m with
  | some (.ok (), _) => true
  | _ => false

theorem exists_of_succeeds {x : LoopM Unit} {m : Machine} (h : succeeds x m = true) :
    ∃ m', x m = some (.ok (), m') := by
  unfold succeeds at h
  split at h
  · exact ⟨_, by assumption⟩
  · cases h

/-- However a machine is run, cycled and given lines: at the direct prompt no line numbers are
offered, where they are taken they are, and a cycle that succeeds has left execution and waits for
nothing. -/
theorem mode_agrees {source : EventSource} {config : Config} {console : Console} {disk : Disk}
    {feed : EventFeed} {clock : Int64} (hresume : config.resume = false) {t : Moment}
    (h : Reached source.engine (.new config console disk feed clock) t) :
    (t.machine.session.mode = .direct → t.machine.session.autoActive = false) ∧
      (t.machine.session.mode = .autoNumbering → t.machine.session.autoActive = true) ∧
      ∀ fuel m', cycle source.engine fuel t.machine = some (.ok (), m') →
        m'.session.mode ≠ .executing ∧ m'.session.awaitingInput = false := by
  have hsound : t.machine.Sound := h.sound (sound_new hresume console disk feed clock)
  refine ⟨hsound.mode.direct, hsound.mode.autoNumbering, ?_⟩
  intro fuel m' hcycle
  have hleads := follows_cycle source.engine .owner t.machine fuel _ m' hcycle
  exact ⟨mode_of_cycle hcycle, (hleads.sound hsound).mode.awaitingInput⟩

/-- The operator asks for line numbers, breaks them off, and then has something printed. -/
def numbering : Machine :=
  .new { greeting := false } { input := [.typed "AUTO 100", .breakKey, .typed "PRINT 1"] } {} {} 0

/-- While the machine takes numbered lines they are offered, and the cycle comes to its end. -/
theorem numbering_mode_agrees :
    ∃ t m', Reached EventSource.feed.engine numbering t ∧ t.machine.session.mode = .autoNumbering ∧
      t.machine.session.autoActive = true ∧
      cycle EventSource.feed.engine 5 t.machine = some (.ok (), m') ∧
      m'.session.mode ≠ .executing ∧ m'.session.awaitingInput = false := by
  let t := numbering.moment EventSource.feed.engine 12
  have hreached : Reached EventSource.feed.engine numbering t := reached_moment _ numbering 12
  have hmode : t.machine.session.mode = .autoNumbering := by decide +kernel
  obtain ⟨m', hcycle⟩ := exists_of_succeeds (x := cycle EventSource.feed.engine 5) (m := t.machine)
    (by decide +kernel)
  obtain ⟨-, hnumbers, hend⟩ := mode_agrees rfl hreached
  exact ⟨t, m', hreached, hmode, hnumbers hmode, hcycle, hend 5 m' hcycle⟩

end Machine

end LineBasic

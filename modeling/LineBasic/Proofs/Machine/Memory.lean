import LineBasic.Proofs.Machine.Entry
import LineBasic.Proofs.Machine.Mode

/-!
# What a machine remembers in the course of a run

A session remembers places in its program: where to go on, to return and to resume, and the lines of
its handlers.  Each of them makes sense for one program only.

* `Memory.TrapSound`: events are suspended while an error handler runs, the handler is at a line
  that exists, and the subroutines are within their limit.
* `Memory.Cleared`: nothing is remembered but the program.
* `trap_sound`: the traps are sound in every moment of a run, so that an error which is not trapped
  stays the error it is.
* `edit_forgets`: whatever changes the program clears the rest, and a line that is refused changes
  nothing.
-/

namespace LineBasic

open Effect

namespace Memory

/-- What holds of the traps and the subroutines at all times. -/
structure TrapSound (a : Memory) : Prop where
  suspended : a.events.suspended = a.active.isSome
  handler : ∀ line, a.handler = some line → ∃ l ∈ a.lines, l.number = line
  limit : a.gosub.limit = 256
  frames : a.gosub.items.length ≤ 256

/-- Nothing is remembered that would outlive a change of the program. -/
structure Cleared (a : Memory) : Prop where
  stop : a.stop = none
  gosub : a.gosub.items = []
  handler : a.handler = none
  active : a.active = none
  events : ∀ d ∈ a.events.descriptors, d = { kind := d.kind }
  vars : a.vars = .empty
  files : a.files = {}

theorem cleared_clear (a : Memory) : a.clear.Cleared where
  stop := rfl
  gosub := rfl
  handler := rfl
  active := rfl
  events := by
    intro d hd
    obtain ⟨d', -, rfl⟩ := List.mem_map.1 hd
    rfl
  vars := rfl
  files := rfl

theorem trapSound_clear {a : Memory} (hlimit : a.gosub.limit = 256) : a.clear.TrapSound where
  suspended := rfl
  handler := nofun
  limit := hlimit
  frames := Nat.zero_le _

/-- What a stack holds after a push. -/
theorem push_eq_ok {s s' : BoundedStack GosubFrame} {frame : GosubFrame} (h : s.push frame = .ok s') :
    s.items.length + 1 ≤ s.limit ∧ s' = { s with items := frame :: s.items } := by
  unfold BoundedStack.push at h
  split at h
  · cases h
  · rename_i hroom
    cases h
    exact ⟨Nat.le_of_not_lt hroom, rfl⟩

/-- The limit of the stack is kept by a push. -/
theorem TrapSound.push {a : Memory} {frame : GosubFrame} {gosub : BoundedStack GosubFrame}
    (h : a.TrapSound) (hpush : a.gosub.push frame = .ok gosub) : { a with gosub }.TrapSound := by
  obtain ⟨hroom, rfl⟩ := push_eq_ok hpush
  refine ⟨h.suspended, h.handler, h.limit, ?_⟩
  rw [h.limit] at hroom
  exact hroom

/-- Whether events are suspended is part of how the traps stand. -/
theorem TrapSound.signalled {a : Memory} {events : EventTable} (h : a.TrapSound)
    (hsuspended : events.suspended = a.events.suspended) : { a with events }.TrapSound :=
  ⟨hsuspended.trans h.suspended, h.handler, h.limit, h.frames⟩

theorem Change.trapSound {a b : Memory} {label : Option (EventKind × EventCommand)}
    (h : a.Change label b) (ha : a.TrapSound) : b.TrapSound := by
  cases h with
  | kept => exact ha
  | assigned vars => exact ⟨ha.suspended, ha.handler, ha.limit, ha.frames⟩
  | filed files stop => exact ⟨ha.suspended, ha.handler, ha.limit, ha.frames⟩
  | signalled events hevents => exact ha.signalled (congrArg Prod.snd hevents)
  | commanded kind command => exact ha.signalled rfl
  | called hhandler hpush => exact ha.push hpush
  | dispatched hd hidle hhandler hpush => exact (ha.push hpush).signalled rfl
  | @returned frame rest hitems =>
    have hframes : rest.length + 1 ≤ 256 := by
      simpa [hitems] using ha.frames
    have hsuspended : (a.popped frame rest).events.suspended = a.events.suspended := by
      unfold popped
      cases frame.handler with
      | none => rfl
      | some kind => rfl
    exact ⟨hsuspended.trans ha.suspended, ha.handler, ha.limit, Nat.le_of_succ_le hframes⟩
  | cleared => exact trapSound_clear ha.limit
  | edited lines => exact trapSound_clear ha.limit
  | installed hhandler => exact ⟨ha.suspended, hhandler, ha.limit, ha.frames⟩
  | trapped context => exact ⟨rfl, ha.handler, ha.limit, ha.frames⟩
  | resumed => exact ⟨rfl, ha.handler, ha.limit, ha.frames⟩

/-- Only an edit changes the program. -/
theorem Change.cleared_of_lines_ne {a b : Memory} {label : Option (EventKind × EventCommand)}
    (h : a.Change label b) (hne : b.lines ≠ a.lines) : b.Cleared := by
  cases h with
  | edited lines => exact cleared_clear _
  | kept => exact absurd rfl hne
  | assigned vars => exact absurd rfl hne
  | filed files stop => exact absurd rfl hne
  | signalled events hevents => exact absurd rfl hne
  | commanded kind command => exact absurd rfl hne
  | called hhandler hpush => exact absurd rfl hne
  | dispatched hd hidle hhandler hpush => exact absurd rfl hne
  | returned hitems => exact absurd rfl hne
  | cleared => exact absurd rfl hne
  | installed hhandler => exact absurd rfl hne
  | trapped context => exact absurd rfl hne
  | resumed => exact absurd rfl hne

end Memory

namespace Machine

theorem cleared_fresh (config : Config) : (freshSession config).memory.Cleared where
  stop := rfl
  gosub := rfl
  handler := rfl
  active := rfl
  events := by
    intro d hd
    obtain ⟨kind, -, rfl⟩ := List.mem_map.1 hd
    rfl
  vars := rfl
  files := rfl

theorem trapSound_fresh (config : Config) : (freshSession config).memory.TrapSound :=
  ⟨rfl, nofun, rfl, Nat.zero_le _⟩

theorem contains_of_mem {p : Program} {number : UInt16} (h : ∃ l ∈ p.lines, l.number = number) :
    p.contains number = true := by
  rw [Program.contains, Program.find?, List.find?_isSome]
  simpa using h

/-- A line that is refused leaves no trace but the line itself. -/
theorem storeLine_error {text : String} {m m' : Machine} {s : Signal}
    (h : storeLine text m = .error s m') :
    ∃ direct, m' = { m with session := { m.session with direct } } := by
  simp only [storeLine, Effect.ite_apply] at h
  by_cases hblank : Text.isBlank text = true
  · rw [if_pos hblank] at h
    cases h
  · simp only [if_neg hblank, takeLine, bind_apply, modifySession_apply, pure_apply,
      Effect.ite_apply] at h
    by_cases hnumbered : decide ((Crunch.line text).head? = some Token.endLine) = true
    · rw [if_pos hnumbered] at h
      let taken : Machine :=
        { m with session := { m.session with direct := { bytes := Crunch.line text } } }
      cases hedit : editProgram true taken with
      | ok number m₁ =>
        rw [hedit] at h
        cases h
      | error s' m₁ =>
        rw [hedit] at h
        cases h
        obtain ⟨direct, rfl⟩ := editProgram_error hedit
        exact ⟨direct, rfl⟩
    · rw [if_neg hnumbered] at h
      cases h

end Machine

namespace Moment

open Machine

/-- Before a session of a new machine has begun, it knows nothing. -/
theorem session_eq_fresh {e : Engine} {config : Config} {console : Console} {disk : Disk}
    {feed : EventFeed} {clock : Int64} {n : Nat}
    (h : ((Machine.new config console disk feed clock).moment e n).control.begun = false) :
    ((Machine.new config console disk feed clock).moment e n).machine.session =
      freshSession ((Machine.new config console disk feed clock).moment e n).machine.config := by
  induction n with
  | zero => rfl
  | succ n ih =>
    rw [moment_succ] at h ⊢
    generalize (Machine.new config console disk feed clock).moment e n = t at h ih ⊢
    obtain ⟨control, m⟩ := t
    by_cases hlaunch : control = .launch
    · subst hlaunch
      obtain ⟨disk, hfresh⟩ | ⟨m', hsaved⟩ := resumeSaved_cases m
      · rw [next_launch_of_fresh e hfresh]
        exact ih rfl
      · rw [next_launch_of_taken e hsaved] at h
        cases h
    · by_cases hreset : control = .reset
      · subst hreset
        rfl
      · rw [begun_next e hlaunch hreset] at h
        cases h

/-- Before a session begins nothing is remembered; then one operation keeps the traps sound. -/
theorem Passage.trapSound {t : Moment} {m' : Machine} (h : t.Passage m')
    (hresume : t.machine.config.resume = false)
    (hfresh : t.control.begun = false → t.machine.session = freshSession t.machine.config)
    (ht : t.machine.session.memory.TrapSound) : m'.session.memory.TrapSound := by
  cases h with
  | taken hcontrol hsaved =>
    rw [resumeSaved_of_resume hresume] at hsaved
    cases hsaved
  | launched hcontrol disk => exact ht
  | loaded hcontrol program console =>
    have hsession := hfresh (by rw [hcontrol]; rfl)
    simp only [hsession]
    exact ⟨rfl, nofun, rfl, Nat.zero_le _⟩
  | renewed hcontrol disk => exact trapSound_fresh t.machine.config
  | turned hlabel hturns => exact hturns.session.memory.trapSound ht

/-- One operation that changes the program clears the rest, unless it takes up a saved session. -/
theorem Passage.cleared {t : Moment} {m' : Machine} (h : t.Passage m') (htaken : ¬ t.TakesUp)
    (hfresh : t.control.begun = false → t.machine.session = freshSession t.machine.config)
    (hlines : m'.session.program.lines ≠ t.machine.session.program.lines) :
    m'.session.memory.Cleared := by
  cases h with
  | taken hcontrol hsaved => exact absurd ⟨hcontrol, m', hsaved⟩ htaken
  | launched hcontrol disk => exact absurd rfl hlines
  | loaded hcontrol program console =>
    have hsession := hfresh (by rw [hcontrol]; rfl)
    simp only [hsession]
    exact ⟨rfl, rfl, rfl, rfl, (cleared_fresh t.machine.config).events, rfl, rfl⟩
  | renewed hcontrol disk => exact cleared_fresh t.machine.config
  | turned hlabel hturns => exact hturns.session.memory.cleared_of_lines_ne hlines

end Moment

namespace Machine

open Moment

section Runs

variable {source : EventSource} {config : Config} {console : Console} {disk : Disk} {feed : EventFeed}
  {clock : Int64}

theorem trapSound_moment (hresume : config.resume = false) (n : Nat) :
    ((new config console disk feed clock).moment source.engine n).machine.session.memory.TrapSound := by
  induction n with
  | zero => exact trapSound_fresh config
  | succ n ih =>
    have hsound := (reached_moment source.engine (new config console disk feed clock) n).sound
      (sound_new hresume console disk feed clock)
    rw [moment_succ]
    exact (passage_next source _).trapSound hsound.resume session_eq_fresh ih

/-- With a handler at a line that exists, or without one, an error is trapped or stays the error it
is. -/
theorem trapError_cases {s : Session} (h : s.memory.TrapSound) (e : BasicError) :
    (∃ s', Session.trapError e s = .ok () s') ∨
      ∃ e' s', Session.trapError e s = .error e' s' ∧ e'.code = e.code := by
  cases hhandler : s.trap.handler with
  | none => exact .inr ⟨_, _, trapError_of_unhandled hhandler, Session.code_locate s e⟩
  | some line =>
    cases hactive : s.trap.active with
    | some context => exact .inr ⟨_, _, trapError_of_active hactive, Session.code_locate s e⟩
    | none =>
      have hoffset : (s.program.offsetOf? line).isSome = true := by
        rw [Program.isSome_offsetOf?]
        exact contains_of_mem (h.handler line hhandler)
      obtain ⟨offset, hoffset⟩ := Option.isSome_iff_exists.1 hoffset
      exact .inl ⟨_, Session.trapError_eq_ok_iff.2 ⟨line, offset, hhandler, hactive, hoffset, rfl⟩⟩

/-- In every moment of a run: events are suspended exactly while an error handler runs, an error
handler is at a line of the program, and at most 256 subroutines have been called.  So an error is
trapped, or it is handed back with its own code. -/
theorem trap_sound (hresume : config.resume = false) (n : Nat) :
    let s := ((new config console disk feed clock).moment source.engine n).machine.session
    (s.events.suspended = true ↔ s.trap.isHandling = true) ∧
      (∀ line, s.trap.handler = some line → s.program.contains line = true) ∧
      s.gosub.items.length ≤ 256 ∧
      ∀ e, (∃ s', Session.trapError e s = .ok () s') ∨
        ∃ e' s', Session.trapError e s = .error e' s' ∧ e'.code = e.code := by
  intro s
  have hsound : s.memory.TrapSound := trapSound_moment hresume n
  refine ⟨?_, ?_, hsound.frames, trapError_cases hsound⟩
  · rw [show s.events.suspended = s.trap.isHandling from hsound.suspended]
  · intro line hline
    exact contains_of_mem (hsound.handler line hline)

end Runs

/-- A handler is installed, and an error raised. -/
def handlingError : Machine :=
  .new { greeting := false }
    { input := [.typed "100 RESUME", .typed "ON ERROR GOTO 100:ERROR 5"] } {} {} 0

/-- While its handler runs events are suspended, and another error would be handed back. -/
theorem handlingError_trap_sound :
    let s := (handlingError.moment EventSource.feed.engine 18).machine.session
    s.trap.isHandling = true ∧ s.trap.handler = some 100 ∧ s.events.suspended = true ∧
      s.program.contains 100 = true ∧
      ((∃ s', Session.trapError (.of ⟨6⟩) s = .ok () s') ∨
        ∃ e' s', Session.trapError (.of ⟨6⟩) s = .error e' s' ∧ e'.code = ⟨6⟩) := by
  intro s
  have hhandling : s.trap.isHandling = true := by decide +kernel
  have hhandler : s.trap.handler = some 100 := by decide +kernel
  obtain ⟨hsuspended, hline, -, htrap⟩ := @trap_sound EventSource.feed { greeting := false }
    { input := [.typed "100 RESUME", .typed "ON ERROR GOTO 100:ERROR 5"] } {} {} 0 rfl 18
  exact ⟨hhandling, hhandler, hsuspended.2 hhandling, hline 100 hhandler, htrap (.of ⟨6⟩)⟩

/-! ## Changes of the program -/

section Runs

variable {source : EventSource} {config : Config} {console : Console} {disk : Disk} {feed : EventFeed}
  {clock : Int64}

theorem lines_ne_of_image_ne {p q : Program} (h : p.image ≠ q.image) : p.lines ≠ q.lines := by
  intro hlines
  rw [p.linked, q.linked, hlines] at h
  exact h rfl

/-- In a run of a new machine every operation that changes the image of the program, but for the
taking up of a saved session, makes the session forget what it knew of the old one.  A line that is
refused changes nothing but the direct line. -/
theorem edit_forgets :
    (∀ n, ¬ ((new config console disk feed clock).moment source.engine n).TakesUp →
      ((new config console disk feed clock).moment source.engine (n + 1)).machine.session.program.image ≠
        ((new config console disk feed clock).moment source.engine n).machine.session.program.image →
      ((new config console disk feed clock).moment source.engine (n + 1)).machine.session.memory.Cleared) ∧
    ∀ text m s m', storeLine text m = .error s m' →
      ∃ direct, m' = { m with session := { m.session with direct } } := by
  refine ⟨?_, ?_⟩
  · intro n htaken hedit
    have hlines := lines_ne_of_image_ne hedit
    rw [moment_succ] at hlines ⊢
    exact (passage_next source _).cleared htaken session_eq_fresh hlines
  · intro text m s m' herror
    exact storeLine_error herror

end Runs

/-- Whether an operation fails. -/
def fails {α : Type} (x : MachineM α) (m : Machine) : Bool :=
  match x m with
  | .ok _ _ => false
  | .error _ _ => true

theorem exists_of_fails {α : Type} {x : MachineM α} {m : Machine} (h : fails x m = true) :
    ∃ s m', x m = .error s m' := by
  unfold fails at h
  cases hx : x m with
  | ok a m' =>
    rw [hx] at h
    cases h
  | error s m' => exact ⟨s, m', rfl⟩

/-- A program is stopped and then changed. -/
def editingStopped : Machine :=
  .new { greeting := false } { input := [.typed "10 STOP", .typed "RUN", .typed "20 END"] } {} {} 0

/-- The machine could go on where it was stopped.  The number of a line that does not exist is
refused and changes nothing; a new line makes it forget that place. -/
theorem editingStopped_forgets :
    let t := editingStopped.moment EventSource.feed.engine 21
    let t' := editingStopped.moment EventSource.feed.engine 22
    t.machine.session.stop = some 6 ∧
      t'.machine.session.program.image ≠ t.machine.session.program.image ∧
      t'.machine.session.memory.Cleared ∧
      ∃ s m' direct, storeLine "5" t.machine = .error s m' ∧
        m' = { t.machine with session := { t.machine.session with direct } } := by
  intro t t'
  have hstop : t.machine.session.stop = some 6 := by decide +kernel
  have hedit : t'.machine.session.program.image ≠ t.machine.session.program.image := by decide +kernel
  have hbegun : t.control.begun = true := by decide +kernel
  have htaken : ¬ t.TakesUp := by
    rintro ⟨hlaunch, -⟩
    rw [hlaunch] at hbegun
    cases hbegun
  obtain ⟨s, m', hrefused⟩ := exists_of_fails (x := storeLine "5") (m := t.machine) (by decide +kernel)
  obtain ⟨hforgets, hrefuses⟩ := @edit_forgets EventSource.feed { greeting := false }
    { input := [.typed "10 STOP", .typed "RUN", .typed "20 END"] } {} {} 0
  obtain ⟨direct, hdirect⟩ := hrefuses "5" t.machine s m' hrefused
  exact ⟨hstop, hedit, hforgets 21 htaken hedit, s, m', direct, hrefused, hdirect⟩

end Machine

end LineBasic

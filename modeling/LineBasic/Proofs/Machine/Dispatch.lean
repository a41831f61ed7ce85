import LineBasic.Proofs.Machine.Memory
import LineBasic.Proofs.Session.Subroutine

/-!
# Every dispatch comes to its end

A look for events calls the handler of the first event that is due, or nothing happens.  If the call
fails, the event is forgotten and its trap stands as before.  In no moment of a run has an event been
dispatched whose handler is not yet called.

* `Session.dispatchEvent_of_first`, `Session.dispatchEvent_of_failure?`: what becomes of an event that
  is due.
* `EventTable.Tended`: a trap for each kind of event, and each is settled.
* `Memory.Change.sequel`, `Moment.Reached.tended`: the traps in the course of a run.
* `Machine.dispatch_steps`: what a dispatch does to any session, and what a run shows of it.
-/

namespace LineBasic

open Effect

namespace Session

section Due

variable {s : Session} {before after : List EventDescriptor} {d : EventDescriptor} {line : UInt16}
  (hon : s.events.suspended = false) (hin : s.inProgram = true)
  (hevents : s.events.descriptors = before ++ d :: after)
  (hbefore : ∀ c ∈ before, ∀ l, ¬ c.Due l) (hdue : d.Due line)

include hon hin hevents hbefore hdue

/-- A dispatch is a call of the first handler that is due. -/
theorem dispatchEvent_of_due :
    dispatchEvent s = concluded d.kind (call line (some d.kind) s) := by
  have hoff : ¬ (s.events.suspended = true ∨ s.inProgram = false) := by simp [hon, hin]
  rw [dispatchEvent_apply, if_neg hoff, EventTable.nextReady?_of_first hevents hbefore hdue]

theorem dispatchEvent_of_first {pos : Nat} (hpos : s.program.offsetOf? line = some pos)
    (hroom : s.gosub.items.length < s.gosub.limit) :
    dispatchEvent s = .ok () { s with
      program := { s.program with pos }
      gosub := { s.gosub with items := ⟨s.program.pos, true, some d.kind⟩ :: s.gosub.items }
      events := s.events.enter d.kind } := by
  have hstream : s.stream.pos = s.program.pos := by
    simp [stream, hin, Program.stream]
  rw [dispatchEvent_of_due hon hin hevents hbefore hdue, call_of_room (some d.kind) hpos hroom]
  simp only [concluded, called, hstream, hin]

theorem dispatchEvent_of_failure? {code : ErrorCode}
    (hcode : (FlowOperation.call line (some d.kind)).failure? s = some code) :
    dispatchEvent s = .error (.of code) { s with events := s.events.forget d.kind } := by
  rw [dispatchEvent_of_due hon hin hevents hbefore hdue, call_of_failure? hcode]
  rfl

end Due

end Session

/-! ## Traps in the course of a run -/

namespace Memory

theorem Change.sequel {a b : Memory} {label : Option (EventKind × EventCommand)}
    (h : a.Change label b) : a.events.Sequel b.events := by
  cases h with
  | kept => exact .refl _
  | assigned vars => exact .refl _
  | filed files stop => exact .refl _
  | signalled events hevents => exact .of_standing hevents
  | commanded kind command => exact .command _ kind command
  | called hhandler hpush => exact .refl _
  | @dispatched d frame gosub hd hidle hhandler hpush => exact .enter _ d.kind
  | @returned frame rest hitems =>
    unfold popped
    cases frame.handler with
    | none => exact .refl _
    | some kind => exact .release _ kind
  | cleared => exact .reset _
  | edited lines => exact .reset _
  | installed hhandler => exact .refl _
  | trapped context => exact .of_descriptors rfl
  | resumed => exact .of_descriptors rfl

end Memory

namespace EventTable

/-- There is one trap for each kind of event, in the order of dispatch, and each is settled. -/
structure Tended (t : EventTable) : Prop where
  kinds : t.descriptors.map EventDescriptor.kind = kinds
  settled : t.Settled

theorem tended_initial : initial.Tended := by
  constructor
  · simp [initial, Function.comp_def]
  · intro d hd
    obtain ⟨kind, -, rfl⟩ := List.mem_map.1 hd
    nofun

theorem Tended.sequel {t t' : EventTable} (h : t.Tended) (hsequel : t.Sequel t') : t'.Tended :=
  ⟨hsequel.kinds.trans h.kinds, hsequel.settled h.settled⟩

end EventTable

theorem Session.tended_after {s : Session} (h : s.events.Tended) (ops : List Operation) :
    (s.after ops).events.Tended := by
  induction ops generalizing s with
  | nil => exact h
  | cons op rest ih => exact ih (h.sequel (op.steps s).events)

namespace Moment

open Machine

theorem Passage.tended {t : Moment} {m' : Machine} (h : t.Passage m')
    (hresume : t.machine.config.resume = false) (ht : t.machine.session.events.Tended) :
    m'.session.events.Tended := by
  cases h with
  | taken hcontrol hsaved =>
    rw [resumeSaved_of_resume hresume] at hsaved
    cases hsaved
  | launched hcontrol disk => exact ht
  | loaded hcontrol program console => exact ht
  | renewed hcontrol disk => exact EventTable.tended_initial
  | turned hlabel hturns => exact ht.sequel hturns.session.memory.sequel

theorem Reached.tended {source : EventSource} {m : Machine} {t : Moment}
    (h : Reached source.engine m t) (hm : m.Sound) (hevents : m.session.events.Tended) :
    t.machine.session.events.Tended := by
  induction h with
  | new => exact hevents
  | called _ call console disk feed clock ih => exact ih
  | @next t ht ih => exact (passage_next source t).tended (ht.sound hm).resume ih

end Moment

/-! ## Dispatches -/

namespace Machine

open Moment

/-- A look for events leaves a session alone if no event may be dispatched now or none is due.  If
one is, let it be the first in the order of the table.  Where its line exists and there is room for
another subroutine, the handler is called: the place in the program is saved together with the kind of
the event, the program goes on at the line, and the trap is busy.  Otherwise the error says what is
missing, and all that has changed is that the event is forgotten.  Kinds never repeat in the table of
a session that has begun anew, and none of its traps is ever seen half way to its handler. -/
theorem dispatch_steps :
    (∀ s : Session, s.events.suspended = true ∨ s.inProgram = false ∨
        (∀ d ∈ s.events.descriptors, ∀ line, ¬ d.Due line) →
      Session.dispatchEvent s = .ok () s) ∧
    (∀ (s : Session) before d after line, s.events.suspended = false → s.inProgram = true →
        s.events.descriptors = before ++ d :: after → (∀ c ∈ before, ∀ l, ¬ c.Due l) → d.Due line →
      let forgotten :=
        { s with events := s.events.modify d.kind fun d => { d with triggered := false } }
      (∀ pos, s.program.offsetOf? line = some pos → s.gosub.items.length < s.gosub.limit →
        Session.dispatchEvent s = .ok ()
          { s with
            program := { s.program with pos }
            gosub := { s.gosub with items := ⟨s.program.pos, true, some d.kind⟩ :: s.gosub.items }
            events := s.events.modify d.kind fun d =>
              { d with triggered := false, state := .handlerActive } }) ∧
      (s.program.offsetOf? line = none →
        Session.dispatchEvent s = .error (.of .undefinedLineNumber) forgotten) ∧
      (s.program.offsetOf? line ≠ none → s.gosub.limit ≤ s.gosub.items.length →
        Session.dispatchEvent s = .error (.of .outOfMemory) forgotten) ∧
      ((s.events.descriptors.map EventDescriptor.kind).Nodup → ∀ f,
        s.events.modify d.kind f = { s.events with descriptors := before ++ f d :: after })) ∧
    (∀ config ops, ∀ d ∈ ((freshSession config).after ops).events.descriptors,
      d.state ≠ .dispatching) ∧
    ∀ (source : EventSource) config console disk feed clock t, config.resume = false →
      Reached source.engine (.new config console disk feed clock) t →
      (t.machine.session.events.descriptors.map EventDescriptor.kind).Nodup ∧
        ∀ d ∈ t.machine.session.events.descriptors, d.state ≠ .dispatching := by
  refine ⟨?_, ?_, ?_, ?_⟩
  · intro s hquiet
    rw [Session.dispatchEvent_apply]
    split
    · rfl
    · rename_i hon
      have hnone : ∀ d ∈ s.events.descriptors, ∀ line, ¬ d.Due line :=
        (or_assoc.2 hquiet).resolve_left hon
      rw [EventTable.nextReady?_of_none hnone]
  · intro s before d after line hon hin hevents hbefore hdue forgotten
    refine ⟨?_, ?_, ?_, ?_⟩
    · intro pos hpos hroom
      exact Session.dispatchEvent_of_first hon hin hevents hbefore hdue hpos hroom
    · intro hmissing
      refine Session.dispatchEvent_of_failure? hon hin hevents hbefore hdue ?_
      simp [FlowOperation.failure?, FlowOperation.missing?, Session.target?, hmissing]
    · intro hline hfull
      obtain ⟨pos, hpos⟩ := Option.ne_none_iff_exists'.1 hline
      refine Session.dispatchEvent_of_failure? hon hin hevents hbefore hdue ?_
      simp [FlowOperation.failure?, FlowOperation.missing?, Session.target?, hpos,
        Nat.lt_succ_of_le hfull]
    · exact fun hkinds f => EventTable.modify_of_first hevents hkinds f
  · intro config ops
    have hfresh : (freshSession config).events.Tended := EventTable.tended_initial
    exact (Session.tended_after hfresh ops).settled
  · intro source config console disk feed clock t hresume hreached
    have htended := hreached.tended (sound_new hresume console disk feed clock)
      EventTable.tended_initial
    refine ⟨?_, htended.settled⟩
    rw [htended.kinds]
    decide

/-- The key that was pressed calls its handler.  Without room for a subroutine, or for a line that
does not exist, the key is forgotten.  While events are suspended nothing happens. -/
theorem interrupted_dispatch_steps :
    let s := Session.interrupted
    let full := { s with gosub := { s.gosub with limit := 1 } }
    let lost := { s with program := .empty }
    let suspended := { s with events := { s.events with suspended := true } }
    (∃ t, Session.dispatchEvent s = .ok () t ∧ t.program.pos = 6 ∧
        t.gosub.items = ⟨5, true, some (.key 1)⟩ :: s.gosub.items ∧
        (t.events.get? (.key 1)).map (fun d => (d.triggered, d.state)) = some (false, .handlerActive)) ∧
      Session.dispatchEvent full = .error (.of .outOfMemory)
        { full with events := s.events.modify (.key 1) fun d => { d with triggered := false } } ∧
      Session.dispatchEvent lost = .error (.of .undefinedLineNumber)
        { lost with events := s.events.modify (.key 1) fun d => { d with triggered := false } } ∧
      Session.dispatchEvent suspended = .ok () suspended := by
  intro s full lost suspended
  obtain ⟨hquiet, hfirst, -, -⟩ := dispatch_steps
  let key : EventDescriptor :=
    { kind := .key 1, enabled := true, triggered := true, handler := some 100 }
  have hevents : s.events.descriptors = [{ kind := .timer }] ++ key :: s.events.descriptors.drop 2 :=
    by decide
  have htimer : ∀ c ∈ [({ kind := .timer } : EventDescriptor)], ∀ l, ¬ c.Due l := by
    intro c hc l hdue
    rw [List.mem_singleton.1 hc] at hdue
    cases hdue.enabled
  have hkey : key.Due 100 := ⟨rfl, rfl, rfl, rfl⟩
  obtain ⟨hcalled, -, -, -⟩ := hfirst s _ key _ 100 rfl rfl hevents htimer hkey
  obtain ⟨-, -, hfull, -⟩ := hfirst full _ key _ 100 rfl rfl hevents htimer hkey
  obtain ⟨-, hlost, -, -⟩ := hfirst lost _ key _ 100 rfl rfl hevents htimer hkey
  refine ⟨⟨_, hcalled 6 (by decide) (by decide), rfl, rfl, by decide⟩, ?_, hlost rfl, ?_⟩
  · exact hfull (by decide) (by decide)
  · exact hquiet suspended (.inl rfl)

end Machine

end LineBasic

import LineBasic.Proofs.Session.Failure
import LineBasic.Proofs.Session.Memory

/-!
# The dispatch of an event

What one look for events does to a session, in closed form.

* `EventDescriptor.Due`: the events that may be dispatched.
* `EventTable.nextReady?_of_none`, `EventTable.nextReady?_of_first`: which of them is.
* `EventTable.modify_of_first`: where kinds do not repeat, a change is that of one descriptor.
* `Session.dispatchEvent_apply`: an event is dispatched like a call, and the trap says how that went.
-/

namespace LineBasic

/-! ## Events that are due -/

namespace EventDescriptor

/-- The event is waited for and has happened, and its handler is at a line and does not run. -/
structure Due (d : EventDescriptor) (line : UInt16) : Prop where
  enabled : d.enabled = true
  triggered : d.triggered = true
  idle : d.state = .idle
  handler : d.handler = some line

variable {d : EventDescriptor}

theorem isReady_iff : d.isReady = true ↔ ∃ line, d.Due line := by
  constructor
  · intro hready
    simp only [isReady, isStopped, Bool.and_eq_true, Bool.not_eq_true', decide_eq_false_iff_not,
      Option.isSome_iff_exists] at hready
    obtain ⟨⟨⟨henabled, htriggered⟩, hidle⟩, line, hline⟩ := hready
    exact ⟨line, henabled, htriggered, Classical.not_not.1 hidle, hline⟩
  · rintro ⟨line, hdue⟩
    simp [isReady, isStopped, hdue.enabled, hdue.triggered, hdue.idle, hdue.handler]

theorem isReady_eq_false_iff : d.isReady = false ↔ ∀ line, ¬ d.Due line := by
  rw [← not_exists, ← isReady_iff, Bool.not_eq_true]

end EventDescriptor

namespace EventTable

variable {t : EventTable}

theorem nextReady?_of_none (h : ∀ d ∈ t.descriptors, ∀ line, ¬ d.Due line) : t.nextReady? = none := by
  have hfind : t.descriptors.find? EventDescriptor.isReady = none := by
    rw [List.find?_eq_none]
    intro d hd
    rw [EventDescriptor.isReady_eq_false_iff.2 (h d hd)]
    exact Bool.false_ne_true
  simp [nextReady?, hfind]

/-- The first event that is due is the one to be dispatched. -/
theorem nextReady?_of_first {before after : List EventDescriptor} {d : EventDescriptor} {line : UInt16}
    (ht : t.descriptors = before ++ d :: after) (hbefore : ∀ c ∈ before, ∀ l, ¬ c.Due l)
    (hdue : d.Due line) : t.nextReady? = some (d.kind, line) := by
  have hfind : t.descriptors.find? EventDescriptor.isReady = some d := by
    rw [ht, List.find?_eq_some_iff_append]
    refine ⟨EventDescriptor.isReady_iff.2 ⟨line, hdue⟩, before, after, rfl, fun c hc => ?_⟩
    rw [EventDescriptor.isReady_eq_false_iff.2 (hbefore c hc)]
    rfl
  simp [nextReady?, hfind, hdue.handler]

/-- Where kinds do not repeat, to change the trap for a kind is to change its one descriptor. -/
theorem modify_of_first {before after : List EventDescriptor} {d : EventDescriptor}
    (ht : t.descriptors = before ++ d :: after)
    (hkinds : (t.descriptors.map EventDescriptor.kind).Nodup) (f : EventDescriptor → EventDescriptor) :
    t.modify d.kind f = { t with descriptors := before ++ f d :: after } := by
  have hbefore : ∀ c ∈ before, c.kind ≠ d.kind := by
    rw [ht, List.map_append, List.map_cons, List.nodup_append] at hkinds
    intro c hc
    exact hkinds.2.2 _ (List.mem_map_of_mem hc) _ List.mem_cons_self
  have hmodify : modifyKind d.kind f (before ++ d :: after) = before ++ f d :: after := by
    clear ht hkinds
    induction before with
    | nil => simp [modifyKind]
    | cons c before ih =>
      have hc := hbefore c List.mem_cons_self
      simp [modifyKind, hc, ih fun c' hc' => hbefore c' (List.mem_cons_of_mem _ hc')]
  rw [modify, ht, hmodify]

/-- A change that does nothing to the first descriptor of a kind but what another one does. -/
theorem modify_congr {kind : EventKind} {f g : EventDescriptor → EventDescriptor}
    (h : ∀ d, t.get? kind = some d → f d = g d) : t.modify kind f = t.modify kind g := by
  have hmodify : ∀ ds : List EventDescriptor,
      (∀ d, ds.find? (fun d => d.kind = kind) = some d → f d = g d) →
        modifyKind kind f ds = modifyKind kind g ds := by
    intro ds
    induction ds with
    | nil => exact fun _ => rfl
    | cons c rest ih =>
      intro hds
      by_cases hkind : c.kind = kind
      · simp [modifyKind, hkind, hds c (by simp [hkind])]
      · simp [modifyKind, hkind, ih fun d hd => hds d (by simpa [hkind] using hd)]
  rw [modify, modify, hmodify t.descriptors h]

/-- What is found of a kind after a change. -/
theorem get?_modify (t : EventTable) (kind : EventKind) {f : EventDescriptor → EventDescriptor}
    (hf : ∀ d, (f d).kind = d.kind) : (t.modify kind f).get? kind = (t.get? kind).map f := by
  show (modifyKind kind f t.descriptors).find? (fun d => d.kind = kind) =
    (t.descriptors.find? fun d => d.kind = kind).map f
  induction t.descriptors with
  | nil => rfl
  | cons c rest ih =>
    by_cases hkind : c.kind = kind
    · simp [modifyKind, hkind, hf]
    · simp [modifyKind, hkind, ih]

/-- The event has happened, and is forgotten. -/
def forget (t : EventTable) (kind : EventKind) : EventTable :=
  t.modify kind fun d => { d with triggered := false }

/-- The handler of an event has been called. -/
def enter (t : EventTable) (kind : EventKind) : EventTable :=
  t.modify kind fun d => { d with triggered := false, state := .handlerActive }

end EventTable

namespace Session

open Effect

/-! ## Dispatch -/

theorem call_of_failure? {line : UInt16} {handler : Option EventKind} {s : Session} {code : ErrorCode}
    (h : (FlowOperation.call line handler).failure? s = some code) :
    call line handler s = .error (.of code) s :=
  FlowOperation.call_eq_error_iff.2 ⟨code, h, rfl, rfl⟩

/-- A call fails, or there is a line and room to remember where it was made. -/
theorem failure?_call_eq_none {line : UInt16} {handler : Option EventKind} {s : Session}
    (h : (FlowOperation.call line handler).failure? s = none) :
    ∃ pos, s.program.offsetOf? line = some pos ∧ s.gosub.items.length < s.gosub.limit := by
  simp only [FlowOperation.failure?, FlowOperation.missing?, target?] at h
  cases hpos : s.program.offsetOf? line with
  | none => simp [hpos] at h
  | some pos =>
    refine ⟨pos, rfl, Nat.lt_of_not_le fun hfull => ?_⟩
    simp [hpos, Nat.lt_succ_of_le hfull] at h

/-- A session that runs the subroutine at a place in the program. -/
def called (s : Session) (pos : Nat) (handler : Option EventKind) : Session :=
  { s with
    gosub := { s.gosub with items := ⟨s.stream.pos, s.inProgram, handler⟩ :: s.gosub.items }
    inProgram := true
    program := { s.program with pos } }

/-- The image reaches to each of its lines. -/
theorem setPointer_offsetOf? {s : Session} {line : UInt16} {pos : Nat}
    (hpos : s.program.offsetOf? line = some pos) :
    s.setPointer true (some pos) =
      { s with inProgram := true, program := { s.program with pos } } := by
  obtain ⟨before, l, after, hlines, -, -, rfl⟩ := Program.offsetFrom_eq_some_iff.1 hpos
  have hle : 0 + Program.extent before ≤ s.program.image.length := by
    rw [s.program.linked, hlines, Program.length_render, Program.extent_append]
    omega
  show moveTo _ (min _ s.program.image.length) = _
  rw [Option.getD_some, Nat.min_eq_left hle]
  rfl

/-- A call that does not fail saves where it was and goes to the line. -/
theorem call_of_room {line : UInt16} {s : Session} {pos : Nat} (handler : Option EventKind)
    (hpos : s.program.offsetOf? line = some pos) (hroom : s.gosub.items.length < s.gosub.limit) :
    call line handler s = .ok () (s.called pos handler) := by
  have hcontains : s.program.contains line = true := by
    rw [← Program.isSome_offsetOf?, hpos]
    rfl
  have hfull : ¬ s.gosub.limit < s.gosub.items.length + 1 := by omega
  simp only [call, bind_apply, get_apply, hcontains, BoundedStack.push, hfull, set_apply, jump_apply,
    target?, hpos, Bool.not_true, Bool.false_eq_true, if_false]
  exact congrArg (EStateM.Result.ok ()) (setPointer_offsetOf? hpos)

/-- How the trap of an event stands after the call of its handler, by the outcome of the call. -/
def concluded (kind : EventKind) : EStateM.Result BasicError Session Unit →
    EStateM.Result BasicError Session Unit
  | .ok () s => .ok () { s with events := s.events.enter kind }
  | .error e s => .error e { s with events := s.events.forget kind }

/-- While events are dispatched at all, the first that is due is called at its line; a call that
fails leaves nothing but an event that is forgotten. -/
theorem dispatchEvent_apply (s : Session) :
    dispatchEvent s =
      if s.events.suspended = true ∨ s.inProgram = false then .ok () s
      else match s.events.nextReady? with
        | none => .ok () s
        | some (kind, line) => concluded kind (call line (some kind) s) := by
  unfold dispatchEvent
  simp only [bind_apply, get_apply, Effect.ite_apply]
  by_cases hoff : s.events.suspended = true ∨ s.inProgram = false
  · have hoff' : (s.events.suspended || !s.inProgram) = true := by simpa using hoff
    simp only [hoff, hoff', if_true, pure_apply]
  · have hoff' : ¬ (s.events.suspended || !s.inProgram) = true := by simpa using hoff
    simp only [hoff, hoff', if_false]
    cases s.events.nextReady? with
    | none => rfl
    | some due =>
      obtain ⟨kind, line⟩ := due
      simp only [bind_apply, set_apply]
      let told : Session := { s with
        events := s.events.modify kind fun d => { d with triggered := false, state := .dispatching } }
      -- the call sees neither the trap nor what it is told
      cases hcode : (FlowOperation.call line (some kind)).failure? s with
      | some code =>
        have hfail : call line (some kind) told = .error (.of code) told := call_of_failure? hcode
        have hbody : (do call line (some kind); modify (setEventState kind .handlerActive) :
            SessionM Unit) told = .error (.of code) told := by
          simp [hfail]
        rw [tryCatch_of_error hbody, call_of_failure? hcode]
        have hforget : told.events.modify kind (fun d =>
            { d with state := ((s.events.get? kind).map EventDescriptor.state).getD .idle }) =
              s.events.forget kind := by
          rw [EventTable.modify_modify (by intro d; rfl)]
          refine EventTable.modify_congr fun d hd => ?_
          simp [hd]
        exact congrArg (fun events => EStateM.Result.error _ { s with events }) hforget
      | none =>
        obtain ⟨pos, hpos, hroom⟩ := failure?_call_eq_none hcode
        have hcall : call line (some kind) told = .ok () (told.called pos (some kind)) :=
          call_of_room (some kind) hpos hroom
        have hbody : (do call line (some kind); modify (setEventState kind .handlerActive) :
            SessionM Unit) told = .ok ()
              (setEventState kind .handlerActive (told.called pos (some kind))) := by
          simp [hcall]
        rw [tryCatch_of_ok hbody, call_of_room (some kind) hpos hroom]
        have henter : told.events.modify kind (fun d => { d with state := .handlerActive }) =
            s.events.enter kind :=
          EventTable.modify_modify (by intro d; rfl) s.events kind
        exact congrArg (fun events => EStateM.Result.ok () { s.called pos (some kind) with events })
          henter

end Session

end LineBasic

import LineBasic.Proofs.Session.Dispatch

/-!
# Subroutines leave what is below them

A subroutine, or the handler of an event, may jump, call and return, raise errors and resume, and set
traps.  As long as it does not return, what was saved when it was called stays at its place in the
stack, and its return goes back there.

* `EventTable.Sequel`: the traps are for the same kinds of events, and none is between two states.
* `Operation`: what a session does to its flow of control and to its traps.
* `Session.Steps`, `Operation.steps`: what one operation can do to the code and to the stack.
* `Session.Within`: a session in which a subroutine runs that another one has called.
* `Within.step`, `Within.after`: it goes on to run as long as the stack is high enough.
* `Session.return_restores_caller`: how it returns.
-/

namespace LineBasic

open Effect

/-! ## Traps from one operation to the next -/

namespace EventTable

/-- No event is between its dispatch and the call of its handler. -/
def Settled (t : EventTable) : Prop :=
  ∀ d ∈ t.descriptors, d.state ≠ .dispatching

/-- A table has the traps of another, and is settled if that is. -/
structure Sequel (t t' : EventTable) : Prop where
  kinds : t'.descriptors.map EventDescriptor.kind = t.descriptors.map EventDescriptor.kind
  settled : t.Settled → t'.Settled

variable {t t' t'' : EventTable}

theorem Sequel.refl (t : EventTable) : t.Sequel t :=
  ⟨rfl, id⟩

theorem Sequel.trans (h : t.Sequel t') (h' : t'.Sequel t'') : t.Sequel t'' :=
  ⟨h'.kinds.trans h.kinds, fun ht => h'.settled (h.settled ht)⟩

theorem Sequel.of_descriptors (h : t'.descriptors = t.descriptors) : t.Sequel t' :=
  ⟨by rw [h], fun ht d hd => ht d (h ▸ hd)⟩

/-- How the traps stand is all that matters. -/
theorem Sequel.of_standing (h : t'.standing = t.standing) : t.Sequel t' := by
  have hstanding : t'.descriptors.map (fun d => (d.kind, d.state)) =
      t.descriptors.map fun d => (d.kind, d.state) := congrArg Prod.fst h
  refine ⟨?_, fun ht d hd => ?_⟩
  · have hkinds := congrArg (List.map Prod.fst) hstanding
    simpa [List.map_map, Function.comp_def] using hkinds
  · have hmem : (d.kind, d.state) ∈ t'.descriptors.map fun d => (d.kind, d.state) :=
      List.mem_map_of_mem hd
    rw [hstanding] at hmem
    obtain ⟨d', hd', hsame⟩ := List.mem_map.1 hmem
    rw [← (Prod.mk.inj hsame).2]
    exact ht d' hd'

/-- A change of one trap that does not set it dispatching. -/
theorem Sequel.modify (t : EventTable) (kind : EventKind) {f : EventDescriptor → EventDescriptor}
    (hkind : ∀ d, (f d).kind = d.kind)
    (hstate : ∀ d, d.state ≠ .dispatching → (f d).state ≠ .dispatching) :
    t.Sequel (t.modify kind f) := by
  refine ⟨map_modifyKind hkind kind t.descriptors, fun ht d hd => ?_⟩
  obtain ⟨hmem, -⟩ | ⟨d', hmem, -, rfl⟩ := mem_modifyKind hd
  · exact ht d hmem
  · exact hstate d' (ht d' hmem)

theorem Sequel.release (t : EventTable) (kind : EventKind) : t.Sequel (t.release kind) :=
  .modify t kind (by intro d; rfl) (by intro d _; nofun)

theorem Sequel.forget (t : EventTable) (kind : EventKind) : t.Sequel (t.forget kind) :=
  .modify t kind (by intro d; rfl) (by intro d hd; exact hd)

theorem Sequel.enter (t : EventTable) (kind : EventKind) : t.Sequel (t.enter kind) :=
  .modify t kind (by intro d; rfl) (by intro d _; nofun)

theorem Sequel.command (t : EventTable) (kind : EventKind) (command : EventCommand) :
    t.Sequel (t.command kind command) := by
  refine .modify t kind (by intro d; cases command <;> rfl) ?_
  intro d hd
  cases command with
  | on =>
    show (if d.state = .stopped then EventState.idle else d.state) ≠ .dispatching
    by_cases hstopped : d.state = .stopped
    · simp [hstopped]
    · simp [hstopped, hd]
  | off => exact hd
  | stop => nofun

theorem Sequel.reset (t : EventTable) : t.Sequel t.reset := by
  refine ⟨by simp [EventTable.reset], fun _ d hd => ?_⟩
  obtain ⟨d', -, rfl⟩ := List.mem_map.1 hd
  nofun

/-- A kind has a trap in both tables, or in neither. -/
theorem Sequel.isSome_get? (h : t.Sequel t') (kind : EventKind) :
    (t'.get? kind).isSome = (t.get? kind).isSome := by
  have hmem (t : EventTable) :
      (t.get? kind).isSome = decide (kind ∈ t.descriptors.map EventDescriptor.kind) := by
    rw [Bool.eq_iff_iff, get?, List.find?_isSome]
    simp
  rw [hmem t', hmem t, h.kinds]

end EventTable

/-! ## Operations -/

/-- What can be done to the traps. -/
inductive EventOperation where
  | command (kind : EventKind) (command : EventCommand)
  | setHandler (kind : EventKind) (line : Option UInt16)
  | trigger (kind : EventKind)
  | send (kind : EventKind)
  | drain
  | setTimer (seconds : Nat) (now : Int64)
  | checkTimer (now : Int64)

/-- The traps after an operation. -/
def EventOperation.perform (t : EventTable) : EventOperation → EventTable
  | command kind c => t.command kind c
  | setHandler kind line => t.setHandler kind line
  | trigger kind => t.trigger kind
  | send kind => t.send kind
  | drain => t.drain
  | setTimer seconds now => t.setTimer seconds now
  | checkTimer now => t.checkTimer now

/-- No operation sets a trap dispatching. -/
theorem EventOperation.sequel (t : EventTable) (op : EventOperation) : t.Sequel (op.perform t) := by
  cases op with
  | command kind c => exact .command t kind c
  | setHandler kind line => exact .of_standing (EventTable.standing_setHandler t kind line)
  | trigger kind => exact .of_standing (EventTable.standing_trigger t kind)
  | send kind => exact .of_standing (EventTable.standing_send t kind)
  | drain => exact .of_standing (EventTable.standing_drain t)
  | setTimer seconds now => exact .of_standing (EventTable.standing_setTimer t seconds now)
  | checkTimer now => exact .of_standing (EventTable.standing_checkTimer t now)

/-- What a session does to its flow of control and to its traps. -/
inductive Operation where
  | flow (op : FlowOperation)
  | setPointer (inProgram : Bool) (pos : Option Nat)
  | trapError (e : BasicError)
  | setErrorHandler (line : Option UInt16)
  | dispatch
  | event (op : EventOperation)

namespace Operation

/-- What a session does for the operation. -/
def perform : Operation → SessionM Unit
  | flow op => op.perform
  | setPointer inProgram pos => modify fun s => s.setPointer inProgram pos
  | trapError e => Session.trapError e
  | setErrorHandler line => Session.setErrorHandler line
  | dispatch => Session.dispatchEvent
  | event op => modify fun s => { s with events := op.perform s.events }

/-- The session after an operation, whether or not that succeeds. -/
def next (s : Session) (op : Operation) : Session :=
  left (op.perform s)

end Operation

namespace Session

/-- The session after a sequence of operations. -/
def after (s : Session) (ops : List Operation) : Session :=
  ops.foldl Operation.next s

/-- How many subroutines run. -/
def depth (s : Session) : Nat :=
  s.gosub.items.length

/-- What an operation can make of a session: the code stays, and at most one subroutine is called or
returns. -/
structure Steps (s t : Session) : Prop where
  lines : t.program.lines = s.program.lines
  direct : t.direct.bytes = s.direct.bytes
  gosub : t.gosub = { s.gosub with items := t.gosub.items }
  frames : t.gosub.items = s.gosub.items ∨ (∃ frame, t.gosub.items = frame :: s.gosub.items) ∨
    ∃ frame, s.gosub.items = frame :: t.gosub.items
  events : s.events.Sequel t.events

namespace Steps

variable {s t u : Session}

theorem refl (s : Session) : s.Steps s :=
  ⟨rfl, rfl, rfl, .inl rfl, .refl _⟩

/-- What leaves the code and the stack alone adds nothing to a step. -/
theorem trans_same (h : s.Steps t) (hlines : u.program.lines = t.program.lines)
    (hdirect : u.direct.bytes = t.direct.bytes) (hgosub : u.gosub = t.gosub)
    (hevents : t.events.Sequel u.events) : s.Steps u where
  lines := hlines.trans h.lines
  direct := hdirect.trans h.direct
  gosub := by rw [hgosub]; exact h.gosub
  frames := by rw [hgosub]; exact h.frames
  events := h.events.trans hevents

theorem moveTo (h : s.Steps t) (pos : Nat) : s.Steps (t.moveTo pos) := by
  unfold Session.moveTo
  cases t.inProgram with
  | true => exact h.trans_same rfl rfl rfl (.refl _)
  | false => exact h.trans_same rfl rfl rfl (.refl _)

theorem setPointer (h : s.Steps t) (inProgram : Bool) (pos : Option Nat) :
    s.Steps (t.setPointer inProgram pos) := by
  have hcode : s.Steps { t with inProgram } := h.trans_same rfl rfl rfl (.refl _)
  exact hcode.moveTo _

theorem jump (h : s.Steps t) (line : Option UInt16) : s.Steps (left (Session.jump line t)) := by
  rw [jump_apply]
  cases t.target? line with
  | none => exact h
  | some pos => exact h.setPointer true (some pos)

/-- A call puts one subroutine on top. -/
theorem called (s : Session) (pos : Nat) (handler : Option EventKind) : s.Steps (s.called pos handler) :=
  ⟨rfl, rfl, rfl, .inr (.inl ⟨_, rfl⟩), .refl _⟩

/-- A return takes the one on top away. -/
theorem popped {frame : GosubFrame} {rest : List GosubFrame} (hitems : s.gosub.items = frame :: rest) :
    s.Steps (s.popped frame rest) := by
  refine ⟨rfl, rfl, rfl, .inr (.inr ⟨frame, hitems⟩), ?_⟩
  unfold Session.popped
  cases frame.handler with
  | none => exact .refl _
  | some kind => exact .release _ kind

theorem resumed (h : s.Steps t) : s.Steps t.resumed :=
  h.trans_same rfl rfl rfl (.of_descriptors rfl)

theorem noted (h : s.Steps t) (e : BasicError) : s.Steps (t.noted e) :=
  h.trans_same rfl rfl rfl (.refl _)

theorem handling (h : s.Steps t) (offset : Nat) : s.Steps (t.handling offset) :=
  (h.setPointer true (some offset)).trans_same rfl rfl rfl (.of_descriptors rfl)

end Steps

/-! ## What the operations do -/

theorem steps_call (line : UInt16) (handler : Option EventKind) (s : Session) :
    s.Steps (left (call line handler s)) := by
  cases hcode : (FlowOperation.call line handler).failure? s with
  | some code =>
    rw [call_of_failure? hcode]
    exact .refl s
  | none =>
    obtain ⟨pos, hpos, hroom⟩ := failure?_call_eq_none hcode
    rw [call_of_room handler hpos hroom]
    exact .called s pos handler

/-- `RETURN` takes a subroutine away even if its line does not exist. -/
theorem steps_return (line : Option UInt16) (s : Session) :
    s.Steps (left (Session.return line s)) := by
  rw [return_apply]
  cases hitems : s.gosub.items with
  | nil => exact .refl s
  | cons frame rest =>
    have hpopped : s.Steps (s.popped frame rest) := .popped hitems
    cases line with
    | none => exact hpopped.setPointer _ _
    | some line => exact hpopped.jump (some line)

theorem steps_cont (s : Session) : s.Steps (left (cont s)) := by
  rw [cont_apply]
  cases s.stop with
  | none => exact .refl s
  | some pos => exact (Steps.refl s).setPointer true (some pos)

theorem steps_resume (target : ResumeTarget) (s : Session) : s.Steps (left (resume target s)) := by
  rw [resume_apply]
  cases s.trap.active with
  | none => exact .refl s
  | some context =>
    have hresumed := (Steps.refl s).resumed
    cases target with
    | statement => exact hresumed.setPointer _ _
    | next => exact (hresumed.setPointer _ _).moveTo _
    | line number => exact hresumed.jump (some number)

/-- An error that is trapped leaves the subroutines alone. -/
theorem steps_trapError (e : BasicError) (s : Session) : s.Steps (left (trapError e s)) := by
  have hnoted := (Steps.refl s).noted e
  obtain hleft | ⟨offset, hleft⟩ := left_trapError_cases e s
  · rwa [hleft]
  · rw [hleft]
    exact hnoted.handling offset

theorem steps_setErrorHandler (line : Option UInt16) (s : Session) :
    s.Steps (left (setErrorHandler line s)) := by
  have hinstalled : s.Steps { s with trap := { s.trap with handler := line.filter (· ≠ 0) } } :=
    (Steps.refl s).trans_same rfl rfl rfl (.refl _)
  simp only [setErrorHandler, bind_apply, modify_apply, get_apply, Effect.ite_apply]
  split
  · exact hinstalled
  · exact hinstalled

/-- An event that is dispatched calls its handler, or is forgotten. -/
theorem steps_dispatchEvent (s : Session) : s.Steps (left (dispatchEvent s)) := by
  rw [dispatchEvent_apply]
  split
  · exact .refl s
  · cases s.events.nextReady? with
    | none => exact .refl s
    | some due =>
      obtain ⟨kind, line⟩ := due
      have hcall := steps_call line (some kind) s
      simp only
      cases hresult : call line (some kind) s with
      | ok a t =>
        rw [hresult] at hcall
        exact hcall.trans_same rfl rfl rfl (.enter _ kind)
      | error e t =>
        rw [hresult] at hcall
        exact hcall.trans_same rfl rfl rfl (.forget _ kind)

end Session

/-- Any operation. -/
theorem Operation.steps (s : Session) (op : Operation) : s.Steps (op.next s) := by
  cases op with
  | flow op =>
    cases op with
    | jump line => exact (Session.Steps.refl s).jump line
    | call line handler => exact Session.steps_call line handler s
    | back line => exact Session.steps_return line s
    | cont => exact Session.steps_cont s
    | resume target => exact Session.steps_resume target s
  | setPointer inProgram pos => exact (Session.Steps.refl s).setPointer inProgram pos
  | trapError e => exact Session.steps_trapError e s
  | setErrorHandler line => exact Session.steps_setErrorHandler line s
  | dispatch => exact Session.steps_dispatchEvent s
  | event op => exact (Session.Steps.refl s).trans_same rfl rfl rfl (op.sequel s.events)

/-! ## Subroutines that run -/

namespace Session

/-- A subroutine that was called where a session stood, by a statement or for an event, has begun to
run. -/
inductive Enters (s : Session) : Option EventKind → Session → Prop where
  | call {t : Session} {line : UInt16} {handler : Option EventKind}
      (h : Session.call line handler s = .ok () t) : Enters s handler t
  | event {t : Session} {kind : EventKind} {line : UInt16}
      (hready : s.events.nextReady? = some (kind, line)) (h : dispatchEvent s = .ok () t)
      (hdepth : s.depth < t.depth) : Enters s (some kind) t

/-- A subroutine runs that was called where a session stood, and perhaps others that it has called. -/
structure Within (s : Session) (handler : Option EventKind) (t : Session) : Prop where
  lines : t.program.lines = s.program.lines
  direct : t.direct.bytes = s.direct.bytes
  frames : ∃ above, t.gosub =
    { s.gosub with items := above ++ ⟨s.stream.pos, s.inProgram, handler⟩ :: s.gosub.items }
  events : s.events.Sequel t.events

theorem within_called (s : Session) (pos : Nat) (handler : Option EventKind) :
    s.Within handler (s.called pos handler) :=
  ⟨rfl, rfl, ⟨[], rfl⟩, .refl _⟩

/-- A call that succeeds has noted where to return to. -/
theorem eq_called_of_call {s t : Session} {line : UInt16} {handler : Option EventKind}
    (h : call line handler s = .ok () t) : ∃ pos, t = s.called pos handler := by
  cases hcode : (FlowOperation.call line handler).failure? s with
  | some code =>
    rw [call_of_failure? hcode] at h
    cases h
  | none =>
    obtain ⟨pos, hpos, hroom⟩ := failure?_call_eq_none hcode
    rw [call_of_room handler hpos hroom] at h
    cases h
    exact ⟨pos, rfl⟩

/-- Once a subroutine is entered the session is within it. -/
theorem Enters.within {s t : Session} {handler : Option EventKind} (h : s.Enters handler t) :
    s.Within handler t := by
  cases h with
  | call h =>
    obtain ⟨pos, rfl⟩ := eq_called_of_call h
    exact within_called s pos handler
  | @event _ kind line hready h hdepth =>
    rw [dispatchEvent_apply, hready] at h
    split at h
    · cases h
      exact absurd hdepth (Nat.lt_irrefl _)
    · simp only at h
      cases hcall : Session.call line (some kind) s with
      | error e t' =>
        rw [hcall] at h
        cases h
      | ok a t' =>
        rw [hcall] at h
        cases h
        obtain ⟨pos, rfl⟩ := eq_called_of_call hcall
        obtain ⟨hlines, hdirect, hframes, hevents⟩ := within_called s pos (some kind)
        exact ⟨hlines, hdirect, hframes, hevents.trans (.enter _ kind)⟩

/-- One operation that does not return from the subroutine. -/
theorem Within.step {s t u : Session} {handler : Option EventKind} (h : s.Within handler t)
    (hsteps : t.Steps u) (hdepth : s.depth < u.depth) : s.Within handler u := by
  obtain ⟨above, habove⟩ := h.frames
  have hitems : t.gosub.items = above ++ ⟨s.stream.pos, s.inProgram, handler⟩ :: s.gosub.items := by
    rw [habove]
  refine ⟨hsteps.lines.trans h.lines, hsteps.direct.trans h.direct, ?_, h.events.trans hsteps.events⟩
  have hgosub : u.gosub = { s.gosub with items := u.gosub.items } := by
    rw [hsteps.gosub, habove]
  obtain hsame | ⟨frame, hcalled⟩ | ⟨frame, hreturned⟩ := hsteps.frames
  · exact ⟨above, by rw [hgosub, hsame, hitems]⟩
  · exact ⟨frame :: above, by rw [hgosub, hcalled, hitems]; rfl⟩
  · rw [hitems] at hreturned
    cases above with
    | nil =>
      -- the frame of the subroutine itself cannot be the one that went
      obtain ⟨-, hrest⟩ := List.cons.inj hreturned
      rw [depth, depth, ← hrest] at hdepth
      exact absurd hdepth (Nat.lt_irrefl _)
    | cons top above =>
      obtain ⟨-, hrest⟩ := List.cons.inj hreturned
      exact ⟨above, by rw [hgosub, ← hrest]; rfl⟩

/-- Any operations that do not return from the subroutine. -/
theorem Within.after {s t : Session} {handler : Option EventKind} (h : s.Within handler t)
    {ops : List Operation} (hdepth : ∀ n ≤ ops.length, s.depth < (t.after (ops.take n)).depth) :
    s.Within handler (t.after ops) := by
  induction ops generalizing t with
  | nil => exact h
  | cons op rest ih =>
    have hfirst : s.depth < (op.next t).depth := hdepth 1 (Nat.succ_le_succ (Nat.zero_le _))
    exact ih (h.step (op.steps t) hfirst) fun n hn => hdepth (n + 1) (Nat.succ_le_succ hn)

theorem place_setPointer_min (s : Session) (inProgram : Bool) (pos : Nat) :
    (s.setPointer inProgram (some pos)).place = ⟨min pos (s.code inProgram).length, inProgram⟩ := by
  cases inProgram <;> rfl

/-- Where a subroutine returns to if its frame is on top of the stack. -/
theorem Within.return_none {s t : Session} {handler : Option EventKind} (h : s.Within handler t)
    (hdepth : t.depth = s.depth + 1) :
    ∃ u, Session.return none t = .ok () u ∧
      u.place = ⟨min s.stream.pos s.stream.bytes.length, s.inProgram⟩ ∧ u.gosub = s.gosub ∧
      u.events = handler.elim t.events t.events.release := by
  obtain ⟨above, habove⟩ := h.frames
  have hnone : above = [] := by
    rw [depth, depth, habove, List.length_append, List.length_cons] at hdepth
    exact List.length_eq_zero_iff.1 (by omega)
  rw [hnone, List.nil_append] at habove
  have hcode : t.code s.inProgram = s.stream.bytes := by
    rw [stream_bytes]
    unfold code
    rw [t.program.linked, s.program.linked, h.lines, h.direct]
  let back := t.popped ⟨s.stream.pos, s.inProgram, handler⟩ s.gosub.items
  have hkept := (keeps_setPointer back s.inProgram (some s.stream.pos)).memory
  refine ⟨back.setPointer s.inProgram (some s.stream.pos), by rw [return_apply, habove], ?_, ?_, ?_⟩
  · rw [place_setPointer_min, ← hcode]
    rfl
  · refine (congrArg Memory.gosub hkept).trans ?_
    show { t.gosub with items := s.gosub.items } = s.gosub
    rw [habove]
  · refine (congrArg Memory.events hkept).trans ?_
    cases handler with
    | none => rfl
    | some kind => rfl

/-- From the call of a subroutine on, whether by a statement or for an event, a session may jump,
call, return, raise errors and resume, and command its traps, as long as it does not return from that
subroutine.  If it then returns from it, it is back in the code from which the call was made, at the
same place, with the stack of that moment, and the event whose handler this was is idle. -/
theorem return_restores_caller {s t : Session} {handler : Option EventKind}
    (hcall : s.Enters handler t) (ops : List Operation)
    (hdepth : ∀ n ≤ ops.length, s.depth + 1 ≤ (t.after (ops.take n)).depth)
    (hreturn : (t.after ops).depth = s.depth + 1) :
    ∃ u, Session.return none (t.after ops) = .ok () u ∧ u.inProgram = s.inProgram ∧
      u.stream.pos = min s.stream.pos s.stream.bytes.length ∧
      (s.stream.pos ≤ s.stream.bytes.length → u.stream.pos = s.stream.pos) ∧
      u.gosub = s.gosub ∧
      u.events = handler.elim (t.after ops).events (t.after ops).events.release ∧
      ∀ kind, handler = some kind →
        (u.events.get? kind).map EventDescriptor.state = (s.events.get? kind).map fun _ => .idle := by
  have hwithin := hcall.within.after hdepth
  obtain ⟨u, hu, hplace, hgosub, hevents⟩ := hwithin.return_none hreturn
  obtain ⟨hpos, hin⟩ := ResumeContext.mk.inj hplace
  refine ⟨u, hu, hin, hpos, fun hrange => by rw [hpos, Nat.min_eq_left hrange], hgosub, hevents, ?_⟩
  rintro kind rfl
  have hfound : u.events.get? kind =
      ((t.after ops).events.get? kind).map fun d => { d with state := .idle } := by
    rw [hevents]
    exact EventTable.get?_modify _ kind (by intro d; rfl)
  have hsome := hwithin.events.isSome_get? kind
  rw [hfound]
  cases hs : s.events.get? kind with
  | none =>
    have hnone : (t.after ops).events.get? kind = none := by simpa [hs] using hsome
    rw [hnone]
    rfl
  | some d =>
    rw [hs] at hsome
    obtain ⟨d', hd'⟩ := Option.isSome_iff_exists.1 hsome
    rw [hd']
    rfl

/-- A program in which a key is pressed.  Its handler is at line 100. -/
def interrupted : Session where
  program :=
    { lines := [⟨10, [0x81]⟩, ⟨100, [0x8E]⟩]
      pos := 5
      image := Program.render 0 [⟨10, [0x81]⟩, ⟨100, [0x8E]⟩]
      ascending := by simp [Program.Ascending]
      linked := rfl
      fits := by decide }
  inProgram := true
  gosub := { label := "GOSUB", limit := 256, items := [⟨0, false, none⟩] }
  events := EventTable.initial.modify (.key 1) fun d =>
    { d with enabled := true, triggered := true, handler := some 100 }

/-- What the handler of the key does: the key is pressed again and waits, an error occurs, a
subroutine is called and returns. -/
def insideHandler : List Operation :=
  [.event (.trigger (.key 1)), .dispatch, .trapError (.of ⟨5⟩), .flow (.call 10 none),
    .flow (.back (some 10)), .setPointer false none]

/-- The handler returns to where the key was pressed, and now the key may call it again. -/
theorem interrupted_restored :
    ∃ t u, dispatchEvent interrupted = .ok () t ∧ t.place = ⟨6, true⟩ ∧
      (t.after insideHandler).inProgram = false ∧
      Session.return none (t.after insideHandler) = .ok () u ∧ u.place = interrupted.place ∧
      u.gosub = interrupted.gosub ∧ (u.events.get? (.key 1)).map EventDescriptor.state = some .idle := by
  have hdispatch : dispatchEvent interrupted = .ok () (left (dispatchEvent interrupted)) := rfl
  have hcall : interrupted.Enters (some (.key 1)) (left (dispatchEvent interrupted)) :=
    @Enters.event _ _ _ 100 (by decide) hdispatch (by decide)
  obtain ⟨u, hreturn, hin, -, hpos, hgosub, -, hidle⟩ :=
    return_restores_caller hcall insideHandler (by decide) (by decide)
  have hplace : u.place = interrupted.place := by
    rw [place, place, hin, hpos (by decide)]
  exact ⟨_, u, hdispatch, by decide, by decide, hreturn, hplace, hgosub, hidle _ rfl⟩

end Session

end LineBasic

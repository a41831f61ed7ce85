import LineBasic.Event.Feed
import LineBasic.Proofs.Session.Flow

/-!
# What a session remembers

A session moves through its code, changes its mode, and remembers things: its program, where it was
stopped, its subroutines, traps, variables and files.  The memory of a session changes in few ways.

* `EventTable.standing`: how the traps stand with their handlers.  Only commands, dispatches and
  returns change it.
* `Memory.Change`: all ways in which one operation changes the memory of a session.  A command to a
  trap is told apart from the rest by a label.
* `Session.ModeSound`: which modes go with the offering of line numbers.
* `turns_dispatchEvent`, `turns_trapError`, `turns_resume` and so on: the operations of flow control
  change the memory in one of these ways, and keep the mode sound.
-/

namespace LineBasic

/-! ## Event tables -/

namespace EventTable

/-- How each trap stands with its handler, and whether events are suspended. -/
def standing (t : EventTable) : List (EventKind × EventState) × Bool :=
  (t.descriptors.map fun d => (d.kind, d.state), t.suspended)

/-- A change that keeps a property of each trap keeps the list of them. -/
theorem map_modifyKind {β : Type} {f : EventDescriptor → EventDescriptor} {g : EventDescriptor → β}
    (hf : ∀ d, g (f d) = g d) (kind : EventKind) (ds : List EventDescriptor) :
    (modifyKind kind f ds).map g = ds.map g := by
  induction ds with
  | nil => rfl
  | cons d rest ih =>
    unfold modifyKind
    by_cases hkind : d.kind = kind
    · simp [hkind, hf]
    · simp [hkind, ih]

/-- Without a trap of the kind nothing changes. -/
theorem map_modifyKind_of_none {β : Type} {f : EventDescriptor → EventDescriptor}
    {g : EventDescriptor → β} {kind : EventKind} {ds : List EventDescriptor}
    (h : ds.find? (fun d => d.kind = kind) = none) : (modifyKind kind f ds).map g = ds.map g := by
  induction ds with
  | nil => rfl
  | cons d rest ih =>
    obtain ⟨hkind, hrest⟩ : ¬ d.kind = kind ∧ rest.find? (fun d => d.kind = kind) = none := by
      simpa using h
    simp [modifyKind, hkind, ih hrest]

/-- Only the first trap of a kind is changed. -/
theorem map_modifyKind_of_find? {β : Type} {f : EventDescriptor → EventDescriptor}
    {g : EventDescriptor → β} {kind : EventKind} {d : EventDescriptor} {ds : List EventDescriptor}
    (h : ds.find? (fun d => d.kind = kind) = some d) (hf : g (f d) = g d) :
    (modifyKind kind f ds).map g = ds.map g := by
  induction ds with
  | nil => rfl
  | cons d' rest ih =>
    by_cases hkind : d'.kind = kind
    · simp only [List.find?_cons, hkind, decide_true, Option.some.injEq] at h
      subst h
      simp [modifyKind, hkind, hf]
    · simp only [List.find?_cons, hkind, decide_false] at h
      simp [modifyKind, hkind, ih h]

/-- A trap after a change is one that was there, and of another kind if no two are alike, or the changed
one. -/
theorem mem_modifyKind {kind : EventKind} {f : EventDescriptor → EventDescriptor}
    {ds : List EventDescriptor} {d : EventDescriptor} (h : d ∈ modifyKind kind f ds) :
    d ∈ ds ∧ ((ds.map EventDescriptor.kind).Nodup → d.kind ≠ kind) ∨
      ∃ d' ∈ ds, d'.kind = kind ∧ d = f d' := by
  induction ds with
  | nil => cases h
  | cons d' rest ih =>
    unfold modifyKind at h
    by_cases hkind : d'.kind = kind
    · rw [if_pos hkind] at h
      obtain rfl | hd := List.mem_cons.1 h
      · exact .inr ⟨d', List.mem_cons_self, hkind, rfl⟩
      · refine .inl ⟨List.mem_cons_of_mem _ hd, ?_⟩
        intro hkinds hsame
        refine (List.nodup_cons.1 hkinds).1 ?_
        rw [hkind, ← hsame]
        exact List.mem_map_of_mem hd
    · rw [if_neg hkind] at h
      obtain rfl | hd := List.mem_cons.1 h
      · exact .inl ⟨List.mem_cons_self, fun _ => hkind⟩
      · obtain ⟨hmem, hne⟩ | ⟨d₁, hmem, hd₁, rfl⟩ := ih hd
        · exact .inl ⟨List.mem_cons_of_mem _ hmem, fun hkinds => hne (List.nodup_cons.1 hkinds).2⟩
        · exact .inr ⟨d₁, List.mem_cons_of_mem _ hmem, hd₁, rfl⟩

/-- Two changes of one trap are one. -/
theorem modify_modify {f g : EventDescriptor → EventDescriptor} (hf : ∀ d, (f d).kind = d.kind)
    (t : EventTable) (kind : EventKind) :
    (t.modify kind f).modify kind g = t.modify kind fun d => g (f d) := by
  have hmodify : ∀ ds,
      modifyKind kind g (modifyKind kind f ds) = modifyKind kind (fun d => g (f d)) ds := by
    intro ds
    induction ds with
    | nil => rfl
    | cons d rest ih =>
      by_cases hkind : d.kind = kind
      · simp [modifyKind, hkind, hf]
      · simp [modifyKind, hkind, ih]
  exact congrArg (fun ds => { t with descriptors := ds }) (hmodify t.descriptors)

/-- A change that keeps kind and state of a trap does not matter to how the traps stand. -/
theorem standing_modify {f : EventDescriptor → EventDescriptor}
    (hf : ∀ d, ((f d).kind, (f d).state) = (d.kind, d.state)) (t : EventTable) (kind : EventKind) :
    (t.modify kind f).standing = t.standing := by
  show ((modifyKind kind f t.descriptors).map _, t.suspended) = _
  rw [map_modifyKind hf]
  rfl

@[simp] theorem standing_setHandler (t : EventTable) (kind : EventKind) (line : Option UInt16) :
    (t.setHandler kind line).standing = t.standing :=
  standing_modify (by intro d; rfl) t kind

@[simp] theorem standing_setTimer (t : EventTable) (seconds : Nat) (now : Int64) :
    (t.setTimer seconds now).standing = t.standing := rfl

/-- An event that arrives does not change how its trap stands. -/
@[simp] theorem standing_trigger (t : EventTable) (kind : EventKind) :
    (t.trigger kind).standing = t.standing :=
  standing_modify (by intro d; rfl) t kind

@[simp] theorem standing_send (t : EventTable) (kind : EventKind) :
    (t.send kind).standing = t.standing := rfl

theorem standing_foldl {α : Type} {f : EventTable → α → EventTable}
    (hf : ∀ t a, (f t a).standing = t.standing) (as : List α) (t : EventTable) :
    (as.foldl f t).standing = t.standing := by
  induction as generalizing t with
  | nil => rfl
  | cons a rest ih => exact (ih (f t a)).trans (hf t a)

/-- Nor do all that were pending. -/
@[simp] theorem standing_drain (t : EventTable) : t.drain.standing = t.standing :=
  standing_foldl standing_trigger t.pending.items t

@[simp] theorem standing_checkTimer (t : EventTable) (now : Int64) :
    (t.checkTimer now).standing = t.standing := by
  unfold checkTimer
  cases t.timerPeriod with
  | none => rfl
  | some period =>
    by_cases hdue : period ≤ now - t.timerStart
    · simp only [hdue, if_true]
      exact standing_trigger _ .timer
    · simp only [hdue, if_false]

/-- A poll makes events happen, and nothing else. -/
theorem standing_poll (f : EventFeed) (t : EventTable) (now : Int64) :
    (f.poll t now).2.2.standing = t.standing := by
  have hpump : ∀ (p : EventPump) (t : EventTable), (p.poll t now).2.2.standing = t.standing := by
    intro p t
    unfold EventPump.poll
    by_cases hinterrupted : p.interrupted = true
    · simp [hinterrupted]
    · simp [hinterrupted, standing_foldl standing_trigger]
  unfold EventFeed.poll
  by_cases hover : f.limit < f.polls + 1
  · simp [hover]
  · simp only [hover, if_false]
    split
    · simp [standing_foldl standing_checkTimer, standing_foldl standing_send,
        standing_foldl standing_trigger]
    · simp [hpump, standing_foldl standing_checkTimer, standing_foldl standing_send,
        standing_foldl standing_trigger]

end EventTable

/-! ## Memories -/

/-- What a session remembers: all but where it is in its code, what mode it is in, and what it shows. -/
structure Memory where
  lines : List Line
  stop : Option Nat
  gosub : BoundedStack GosubFrame
  vars : Variables
  events : EventTable
  /-- The line of the error handler. -/
  handler : Option UInt16
  /-- Where the running error handler will resume. -/
  active : Option ResumeContext
  files : FileTable

/-- What a session remembers now. -/
def Session.memory (s : Session) : Memory where
  lines := s.program.lines
  stop := s.stop
  gosub := s.gosub
  vars := s.vars
  events := s.events
  handler := s.trap.handler
  active := s.trap.active
  files := s.files

namespace Memory

/-- Forgets all but the program. -/
def clear (a : Memory) : Memory :=
  { a with
    stop := none
    gosub := a.gosub.clear
    vars := .empty
    events := a.events.reset
    handler := none
    active := none
    files := {} }

/-- Forgets a subroutine that returns.  If it was the handler of an event, that may be dispatched
again. -/
def popped (a : Memory) (frame : GosubFrame) (rest : List GosubFrame) : Memory :=
  { a with
    gosub := { a.gosub with items := rest }
    events := frame.handler.elim a.events a.events.release }

/-- What one operation makes of the memory of a session.  A command to the trap of an event is the
label of the change. -/
inductive Change (a : Memory) : Option (EventKind × EventCommand) → Memory → Prop where
  | kept : Change a none a
  | assigned (vars : Variables) : Change a none { a with vars }
  | filed (files : FileTable) (stop : Option Nat) : Change a none { a with files, stop }
  /-- The traps stand as before, whatever happened. -/
  | signalled (events : EventTable) (hevents : events.standing = a.events.standing) :
      Change a none { a with events }
  | commanded (kind : EventKind) (command : EventCommand) :
      Change a (some (kind, command)) { a with events := a.events.command kind command }
  | called {frame : GosubFrame} {gosub : BoundedStack GosubFrame} (hhandler : frame.handler = none)
      (hpush : a.gosub.push frame = .ok gosub) : Change a none { a with gosub }
  | dispatched {d : EventDescriptor} {frame : GosubFrame} {gosub : BoundedStack GosubFrame}
      (hd : d ∈ a.events.descriptors) (hidle : d.state = .idle) (hhandler : frame.handler = some d.kind)
      (hpush : a.gosub.push frame = .ok gosub) :
      Change a none { a with
        gosub
        events := a.events.modify d.kind fun d => { d with triggered := false, state := .handlerActive } }
  | returned {frame : GosubFrame} {rest : List GosubFrame} (hitems : a.gosub.items = frame :: rest) :
      Change a none (a.popped frame rest)
  | cleared : Change a none a.clear
  | edited (lines : List Line) : Change a none { a with lines }.clear
  | installed {handler : Option UInt16}
      (hhandler : ∀ line, handler = some line → ∃ l ∈ a.lines, l.number = line) :
      Change a none { a with handler }
  /-- An error goes to its handler. -/
  | trapped (context : ResumeContext) :
      Change a none { a with active := some context, events := { a.events with suspended := true } }
  /-- The error handler is left. -/
  | resumed : Change a none { a with active := none, events := { a.events with suspended := false } }

end Memory

namespace Session

open Effect

/-! ## What an operation does to a session -/

/-- At the direct prompt no line numbers are offered; where they are taken, they are.  The operator
is asked for a line only within an operation. -/
structure ModeSound (s : Session) : Prop where
  direct : s.mode = .direct → s.autoActive = false
  autoNumbering : s.mode = .autoNumbering → s.autoActive = true
  awaitingInput : s.awaitingInput = false

/-- A session that has at most moved, or changed its mode. -/
structure Keeps (s s' : Session) : Prop where
  memory : s'.memory = s.memory
  sound : s.ModeSound → s'.ModeSound

/-- A session whose memory has changed in one way. -/
structure Turns (s : Session) (label : Option (EventKind × EventCommand)) (s' : Session) : Prop where
  memory : s.memory.Change label s'.memory
  sound : s.ModeSound → s'.ModeSound

section Composition

variable {s s₁ s₂ : Session} {label : Option (EventKind × EventCommand)}

theorem Keeps.refl (s : Session) : s.Keeps s :=
  ⟨rfl, id⟩

theorem Keeps.trans (h : s.Keeps s₁) (h' : s₁.Keeps s₂) : s.Keeps s₂ :=
  ⟨h'.memory.trans h.memory, fun hs => h'.sound (h.sound hs)⟩

/-- To keep the memory is to turn it in no way. -/
theorem Keeps.turns (h : s.Keeps s₁) : s.Turns none s₁ := by
  refine ⟨?_, h.sound⟩
  rw [h.memory]
  exact .kept

theorem Keeps.trans_turns (h : s.Keeps s₁) (h' : s₁.Turns label s₂) : s.Turns label s₂ := by
  refine ⟨?_, fun hs => h'.sound (h.sound hs)⟩
  rw [← h.memory]
  exact h'.memory

theorem Turns.trans_keeps (h : s.Turns label s₁) (h' : s₁.Keeps s₂) : s.Turns label s₂ := by
  refine ⟨?_, fun hs => h'.sound (h.sound hs)⟩
  rw [h'.memory]
  exact h.memory

/-- Whether the mode is sound depends on the mode alone. -/
theorem ModeSound.of_eq (hs : s.ModeSound)
    (hmode : (s₁.mode, s₁.autoActive, s₁.awaitingInput) = (s.mode, s.autoActive, s.awaitingInput)) :
    s₁.ModeSound := by
  simp only [Prod.mk.injEq] at hmode
  obtain ⟨hmode, hactive, hinput⟩ := hmode
  constructor
  · rw [hmode, hactive]
    exact hs.direct
  · rw [hmode, hactive]
    exact hs.autoNumbering
  · rw [hinput]
    exact hs.awaitingInput

theorem Keeps.of_eq (hmemory : s₁.memory = s.memory)
    (hmode : (s₁.mode, s₁.autoActive, s₁.awaitingInput) = (s.mode, s.autoActive, s.awaitingInput)) :
    s.Keeps s₁ :=
  ⟨hmemory, fun hs => hs.of_eq hmode⟩

theorem Turns.of_change (hmemory : s.memory.Change label s₁.memory)
    (hmode : (s₁.mode, s₁.autoActive, s₁.awaitingInput) = (s.mode, s.autoActive, s.awaitingInput)) :
    s.Turns label s₁ :=
  ⟨hmemory, fun hs => hs.of_eq hmode⟩

end Composition

/-! ## Flow of control -/

theorem keeps_moveTo (s : Session) (pos : Nat) : s.Keeps (s.moveTo pos) := by
  unfold moveTo
  cases s.inProgram with
  | true => exact .of_eq rfl rfl
  | false => exact .of_eq rfl rfl

theorem keeps_setPointer (s : Session) (inProgram : Bool) (pos : Option Nat) :
    s.Keeps (s.setPointer inProgram pos) := by
  have hcode : s.Keeps { s with inProgram } := .of_eq rfl rfl
  exact hcode.trans (keeps_moveTo _ _)

theorem keeps_endExecution (s : Session) : s.Keeps s.endExecution := by
  refine ⟨rfl, fun hs => ?_⟩
  cases hactive : s.autoActive with
  | true => exact ⟨by simp [endExecution, hactive], fun _ => hactive, hs.awaitingInput⟩
  | false => exact ⟨fun _ => hactive, by simp [endExecution, hactive], hs.awaitingInput⟩

theorem turns_clear (s : Session) : s.Turns none s.clear :=
  .of_change .cleared rfl

/-- A return takes a subroutine away and frees its trap. -/
theorem turns_popped {s : Session} {frame : GosubFrame} {rest : List GosubFrame}
    (hitems : s.gosub.items = frame :: rest) : s.Turns none (s.popped frame rest) := by
  have hpopped : (s.popped frame rest).memory = s.memory.popped frame rest := by
    unfold popped Memory.popped
    cases frame.handler with
    | none => rfl
    | some kind => rfl
  refine .of_change ?_ rfl
  rw [hpopped]
  exact .returned hitems

/-- `RESUME` ends the handler. -/
theorem turns_resumed (s : Session) : s.Turns none s.resumed :=
  .of_change .resumed rfl

theorem keeps_noted (s : Session) (e : BasicError) : s.Keeps (s.noted e) :=
  .of_eq rfl rfl

/-- A handler begins. -/
theorem turns_handling (s : Session) (offset : Nat) : s.Turns none (s.handling offset) := by
  have htrapped : s.Turns none
      { s with
        trap := { s.trap with active := some ⟨s.statement, s.inProgram⟩ }
        events := { s.events with suspended := true } } :=
    .of_change (.trapped _) rfl
  exact htrapped.trans_keeps (keeps_setPointer _ true (some offset))

theorem keeps_jump (line : Option UInt16) (s : Session) : s.Keeps (left (jump line s)) := by
  rw [jump_apply]
  cases s.target? line with
  | none => exact .refl s
  | some pos => exact keeps_setPointer s true (some pos)

theorem turns_call (line : UInt16) (s : Session) : s.Turns none (left (call line none s)) := by
  obtain ⟨e, hfail⟩ | ⟨gosub, pos, hpush, -, hcall⟩ := call_apply line none s
  · rw [hfail]
    exact (Keeps.refl s).turns
  · rw [hcall]
    have hcalled : s.Turns none { s with gosub } := .of_change (.called rfl hpush) rfl
    exact hcalled.trans_keeps (keeps_setPointer _ true (some pos))

/-- `RETURN` turns the memory even if its line does not exist. -/
theorem turns_return (line : Option UInt16) (s : Session) :
    s.Turns none (left (Session.return line s)) := by
  rw [return_apply]
  cases hitems : s.gosub.items with
  | nil => exact (Keeps.refl s).turns
  | cons frame rest =>
    have hpopped := turns_popped hitems
    cases line with
    | none => exact hpopped.trans_keeps (keeps_setPointer _ _ _)
    | some line => exact hpopped.trans_keeps (keeps_jump (some line) _)

theorem keeps_cont (s : Session) : s.Keeps (left (cont s)) := by
  rw [cont_apply]
  cases s.stop with
  | none => exact .refl s
  | some pos => exact keeps_setPointer s true (some pos)

theorem turns_resume (target : ResumeTarget) (s : Session) :
    s.Turns none (left (resume target s)) := by
  rw [resume_apply]
  cases s.trap.active with
  | none => exact (Keeps.refl s).turns
  | some context =>
    have hresumed := turns_resumed s
    cases target with
    | statement => exact hresumed.trans_keeps (keeps_setPointer _ _ _)
    | next => exact (hresumed.trans_keeps (keeps_setPointer _ _ _)).trans_keeps (keeps_moveTo _ _)
    | line number => exact hresumed.trans_keeps (keeps_jump (some number) _)

/-- A handler is installed only at a line that exists. -/
theorem turns_setErrorHandler {line : UInt16} {s : Session}
    (hline : line = 0 ∨ s.program.contains line = true) :
    s.Turns none (left (setErrorHandler (some line) s)) := by
  have hinstalled : s.Turns none (s.withHandler line) := by
    refine .of_change (.installed ?_) rfl
    intro number hnumber
    have hnumber : (if line = 0 then none else some line) = some number := hnumber
    by_cases hzero : line = 0
    · simp [hzero] at hnumber
    · rw [if_neg hzero] at hnumber
      cases hnumber
      obtain ⟨l, hl⟩ := Option.isSome_iff_exists.1 (hline.resolve_left hzero)
      exact ⟨l, List.mem_of_find?_eq_some hl, by simpa using List.find?_some hl⟩
  rw [setErrorHandler_apply]
  by_cases hagain : line = 0 ∧ s.trap.isHandling = true
  · rw [if_pos hagain]
    exact hinstalled
  · rw [if_neg hagain]
    exact hinstalled

/-- An error is noted, whether it is trapped or not. -/
theorem left_trapError_cases (e : BasicError) (s : Session) :
    left (trapError e s) = s.noted e ∨
      ∃ offset, left (trapError e s) = (s.noted e).handling offset := by
  rw [trapError_apply]
  cases s.trap.handler with
  | none => exact .inl rfl
  | some line =>
    cases s.trap.active with
    | some context => exact .inl rfl
    | none =>
      dsimp only
      cases s.program.offsetOf? line with
      | none => exact .inl rfl
      | some offset => exact .inr ⟨offset, rfl⟩

/-- An error begins the handler, or is not trapped. -/
theorem turns_trapError (e : BasicError) (s : Session) :
    s.Turns none (left (trapError e s)) := by
  have hnoted := keeps_noted s e
  obtain hleft | ⟨offset, hleft⟩ := left_trapError_cases e s
  · rw [hleft]
    exact hnoted.turns
  · rw [hleft]
    exact hnoted.trans_turns (turns_handling _ offset)

/-! ## The dispatch of events -/

/-- An event that may be dispatched belongs to a trap that is idle. -/
theorem exists_idle_of_nextReady? {t : EventTable} {kind : EventKind} {line : UInt16}
    (h : t.nextReady? = some (kind, line)) :
    ∃ d ∈ t.descriptors, d.kind = kind ∧ d.state = .idle := by
  unfold EventTable.nextReady? at h
  cases hfind : t.descriptors.find? EventDescriptor.isReady with
  | none => simp [hfind] at h
  | some d =>
    rw [hfind] at h
    have hready : d.isReady = true := List.find?_some hfind
    have hidle : d.state = .idle := by
      simp only [EventDescriptor.isReady, EventDescriptor.isStopped, Bool.and_eq_true,
        Bool.not_eq_true', decide_eq_false_iff_not] at hready
      exact Classical.not_not.1 hready.1.2
    refine ⟨d, List.mem_of_find?_eq_some hfind, ?_, hidle⟩
    cases hhandler : d.handler with
    | none => simp [hhandler] at h
    | some number =>
      simp [hhandler] at h
      exact h.1

/-- A trap that has been told of a dispatch which then failed stands as before. -/
theorem standing_undispatched (t : EventTable) (kind : EventKind) :
    ((t.modify kind fun d => { d with triggered := false, state := .dispatching }).modify kind fun d =>
      { d with state := ((t.get? kind).map EventDescriptor.state).getD .idle }).standing =
      t.standing := by
  rw [EventTable.modify_modify (by intro d; rfl)]
  refine congrArg (Prod.mk · t.suspended) ?_
  cases hfind : t.get? kind with
  | none => exact EventTable.map_modifyKind_of_none hfind
  | some d => exact EventTable.map_modifyKind_of_find? hfind rfl

/-- An event that is due is dispatched, or the dispatch fails and the traps stand as before. -/
theorem turns_dispatchEvent (s : Session) : s.Turns none (left (dispatchEvent s)) := by
  unfold dispatchEvent
  simp only [bind_apply, get_apply, Effect.ite_apply]
  by_cases hoff : (s.events.suspended || !s.inProgram) = true
  · simp only [hoff, if_true]
    exact (Keeps.refl s).turns
  · simp only [hoff, Bool.false_eq_true, if_false]
    cases hready : s.events.nextReady? with
    | none => exact (Keeps.refl s).turns
    | some due =>
      obtain ⟨kind, line⟩ := due
      obtain ⟨d, hd, hkind, hidle⟩ := exists_idle_of_nextReady? hready
      simp only [bind_apply, set_apply]
      let told : Session := { s with
        events := s.events.modify kind fun d => { d with triggered := false, state := .dispatching } }
      obtain ⟨e, hfail⟩ | ⟨gosub, pos, hpush, -, hcall⟩ := call_apply line (some kind) told
      · have hbody : (do call line (some kind); modify (setEventState kind .handlerActive) :
            SessionM Unit) told = .error e told := by
          simp [hfail]
        rw [tryCatch_of_error hbody]
        exact .of_change (.signalled _ (standing_undispatched s.events kind)) rfl
      · have hbody : (do call line (some kind); modify (setEventState kind .handlerActive) :
            SessionM Unit) told = .ok ()
              (setEventState kind .handlerActive ({ told with gosub }.setPointer true (some pos))) := by
          simp [hcall]
        rw [tryCatch_of_ok hbody]
        have hdispatched : s.Turns none (setEventState kind .handlerActive { told with gosub }) := by
          refine .of_change ?_ rfl
          subst hkind
          show s.memory.Change none { s.memory with gosub, events := told.events.modify d.kind _ }
          rw [EventTable.modify_modify (by intro d; rfl)]
          exact .dispatched hd hidle rfl hpush
        exact hdispatched.trans_keeps (keeps_setPointer _ true (some pos))

end Session

end LineBasic

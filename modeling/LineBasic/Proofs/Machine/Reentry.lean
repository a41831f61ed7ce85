import LineBasic.Proofs.Machine.Memory

/-!
# Handlers of events that run

While the handler of an event runs, its trap is busy: another event of the kind is remembered and
not dispatched.  The trap is busy as long as it is not idle, and a program may say so too: `STOP`
stops a trap and `ON` makes a stopped trap idle, whether or not its handler runs.

* `Memory.Guarded`: the handlers that run are of different events, and the trap of each is busy.
* `Moment.Reopens`: the handler of an event runs, its trap was stopped, and now `ON` makes it idle.
* `guarded_iff_not_reopened`: the handlers are guarded exactly as long as no trap is reopened.
* `reopened_reenters`: once a trap has been reopened its handler may be entered a second time.
-/

namespace LineBasic

open Effect

namespace EventTable

theorem mem_modifyKind_of_mem {kind : EventKind} {f : EventDescriptor → EventDescriptor}
    {ds : List EventDescriptor} {d : EventDescriptor} (hkinds : (ds.map EventDescriptor.kind).Nodup)
    (hd : d ∈ ds) (hkind : d.kind = kind) : f d ∈ modifyKind kind f ds := by
  induction ds with
  | nil => cases hd
  | cons d' rest ih =>
    obtain ⟨hnew, hrest⟩ := List.nodup_cons.1 hkinds
    unfold modifyKind
    obtain rfl | hmem := List.mem_cons.1 hd
    · rw [if_pos hkind]
      exact List.mem_cons_self
    · have hother : d'.kind ≠ kind := by
        intro hsame
        rw [hsame, ← hkind] at hnew
        exact hnew (List.mem_map_of_mem hmem)
      rw [if_neg hother]
      exact List.mem_cons_of_mem _ (ih hrest hmem)

end EventTable

namespace Memory

/-- The events whose handlers run, the last one first. -/
def handlers (a : Memory) : List EventKind :=
  a.gosub.items.filterMap GosubFrame.handler

/-- No handler runs twice, and none of those that run may be dispatched. -/
structure Guarded (a : Memory) : Prop where
  kinds : (a.events.descriptors.map EventDescriptor.kind).Nodup
  handlers : a.handlers.Nodup
  busy : ∀ d ∈ a.events.descriptors, d.kind ∈ a.handlers → d.state ≠ .idle

/-- The handler of an event runs, and its trap was stopped meanwhile. -/
def StoppedInside (a : Memory) (kind : EventKind) : Prop :=
  kind ∈ a.handlers ∧ ∃ d ∈ a.events.descriptors, d.kind = kind ∧ d.state = .stopped

section Guarded

variable {a b : Memory}

theorem handlers_push {frame : GosubFrame} {gosub : BoundedStack GosubFrame} (events : EventTable)
    (h : a.gosub.push frame = .ok gosub) :
    { a with gosub, events }.handlers = frame.handler.toList ++ a.handlers := by
  obtain ⟨-, rfl⟩ := push_eq_ok h
  show (frame :: a.gosub.items).filterMap GosubFrame.handler = _
  cases hframe : frame.handler with
  | none => simp [handlers, hframe]
  | some kind => simp [handlers, hframe]

/-- Traps that stand as before with the handlers that ran before. -/
theorem Guarded.of_standing (ha : a.Guarded) (hevents : b.events.standing = a.events.standing)
    (hhandlers : b.handlers = a.handlers) : b.Guarded := by
  have hstanding : b.events.descriptors.map (fun d => (d.kind, d.state)) =
      a.events.descriptors.map fun d => (d.kind, d.state) := congrArg Prod.fst hevents
  refine ⟨?_, hhandlers ▸ ha.handlers, ?_⟩
  · have hkinds := congrArg (List.map Prod.fst) hstanding
    simp only [List.map_map, Function.comp_def] at hkinds
    rw [hkinds]
    exact ha.kinds
  · intro d hd hrunning
    have hmem : (d.kind, d.state) ∈ b.events.descriptors.map fun d => (d.kind, d.state) :=
      List.mem_map.2 ⟨d, hd, rfl⟩
    rw [hstanding] at hmem
    obtain ⟨d', hd', hsame⟩ := List.mem_map.1 hmem
    obtain ⟨hkind, hstate⟩ := Prod.mk.inj hsame
    rw [← hstate]
    exact ha.busy d' hd' (by rwa [hkind, ← hhandlers])

/-- One trap changes, and with it whether its handler runs. -/
theorem Guarded.of_modify {kind : EventKind} {f : EventDescriptor → EventDescriptor} (ha : a.Guarded)
    (hevents : b.events = a.events.modify kind f) (hf : ∀ d, (f d).kind = d.kind)
    (hhandlers : b.handlers.Nodup) (hothers : ∀ other ∈ b.handlers, other ≠ kind → other ∈ a.handlers)
    (hbusy : ∀ d ∈ a.events.descriptors, d.kind = kind → kind ∈ b.handlers → (f d).state ≠ .idle) :
    b.Guarded := by
  have hdescriptors : b.events.descriptors = EventTable.modifyKind kind f a.events.descriptors := by
    rw [hevents]
    rfl
  refine ⟨?_, hhandlers, ?_⟩
  · rw [hdescriptors, EventTable.map_modifyKind hf]
    exact ha.kinds
  · intro d hd hrunning
    rw [hdescriptors] at hd
    obtain ⟨hmem, hne⟩ | ⟨d', hmem, hkind, rfl⟩ := EventTable.mem_modifyKind hd
    · exact ha.busy d hmem (hothers _ hrunning (hne ha.kinds))
    · rw [hf, hkind] at hrunning
      exact hbusy d' hmem hkind hrunning

/-- Where no handler runs there is nothing to guard. -/
theorem guarded_clear (ha : a.Guarded) : a.clear.Guarded := by
  refine ⟨?_, List.nodup_nil, fun _ _ hrunning => absurd hrunning List.not_mem_nil⟩
  show ((a.events.descriptors.map _).map EventDescriptor.kind).Nodup
  rw [List.map_map]
  exact ha.kinds

/-- A command leaves the handlers guarded, unless it opens a trap that was stopped while its handler
runs. -/
theorem guarded_command_iff (ha : a.Guarded) (kind : EventKind) (command : EventCommand) :
    { a with events := a.events.command kind command }.Guarded ↔
      ¬ (command = .on ∧ a.StoppedInside kind) := by
  constructor
  · rintro hb ⟨rfl, hrunning, d, hd, hkind, hstopped⟩
    have hmem := EventTable.mem_modifyKind_of_mem (f := fun d => d.command .on) ha.kinds hd hkind
    refine hb.busy _ hmem ?_ ?_
    · show d.kind ∈ a.handlers
      rwa [hkind]
    · simp [EventDescriptor.command, hstopped]
  · intro hkept
    have hkind : ∀ d : EventDescriptor, (d.command command).kind = d.kind := by
      intro d
      cases command <;> rfl
    refine ha.of_modify rfl hkind ha.handlers (fun _ h _ => h) ?_
    intro d hd hsame hrunning
    have hbusy : d.state ≠ .idle := ha.busy d hd (by rwa [hsame])
    cases command with
    | on =>
      have hstopped : d.state ≠ .stopped := fun h => hkept ⟨rfl, hrunning, d, hd, hsame, h⟩
      simpa [EventDescriptor.command, hstopped] using hbusy
    | off => exact hbusy
    | stop => nofun

/-- The trap of an event that is dispatched was idle, so that its handler does not run yet. -/
theorem Guarded.dispatched {d : EventDescriptor} {frame : GosubFrame} {gosub : BoundedStack GosubFrame}
    (ha : a.Guarded) (hd : d ∈ a.events.descriptors) (hidle : d.state = .idle)
    (hhandler : frame.handler = some d.kind) (hpush : a.gosub.push frame = .ok gosub) :
    { a with
      gosub
      events := a.events.modify d.kind fun d =>
        { d with triggered := false, state := .handlerActive } }.Guarded := by
  have hnew : d.kind ∉ a.handlers := fun hrunning => ha.busy d hd hrunning hidle
  have hpushed := handlers_push
    (a.events.modify d.kind fun d => { d with triggered := false, state := .handlerActive }) hpush
  rw [hhandler] at hpushed
  refine ha.of_modify rfl (fun _ => rfl) ?_ ?_ ?_
  · rw [hpushed]
    exact List.nodup_cons.2 ⟨hnew, ha.handlers⟩
  · intro other hother hne
    rw [hpushed] at hother
    exact (List.mem_cons.1 hother).resolve_left hne
  · intro d' hd' hkind hrunning
    nofun

theorem handlers_popped {frame : GosubFrame} {rest : List GosubFrame}
    (hitems : a.gosub.items = frame :: rest) :
    a.handlers = frame.handler.toList ++ (a.popped frame rest).handlers := by
  show a.gosub.items.filterMap GosubFrame.handler = _ ++ rest.filterMap GosubFrame.handler
  rw [hitems]
  cases hframe : frame.handler with
  | none => simp [hframe]
  | some kind => simp [hframe]

/-- The handler that returns was the only one of its event, so that its trap may be idle. -/
theorem Guarded.popped {frame : GosubFrame} {rest : List GosubFrame} (ha : a.Guarded)
    (hitems : a.gosub.items = frame :: rest) : (a.popped frame rest).Guarded := by
  have hpopped := handlers_popped hitems
  cases hframe : frame.handler with
  | none =>
    have hevents : (a.popped frame rest).events = a.events := by
      simp [Memory.popped, hframe]
    rw [hframe] at hpopped
    exact ha.of_standing (congrArg EventTable.standing hevents) hpopped.symm
  | some kind =>
    have hevents : (a.popped frame rest).events = a.events.release kind := by
      simp [Memory.popped, hframe]
    have hnodup := ha.handlers
    rw [hpopped, hframe] at hnodup
    obtain ⟨hgone, hrest⟩ := List.nodup_cons.1 hnodup
    refine ha.of_modify hevents (fun _ => rfl) hrest ?_ ?_
    · intro other hother _
      rw [hpopped]
      exact List.mem_append_right _ hother
    · intro d hd hkind hrunning
      exact absurd hrunning hgone

theorem Change.eq_commanded {kind : EventKind} {command : EventCommand}
    (h : a.Change (some (kind, command)) b) : b = { a with events := a.events.command kind command } := by
  cases h
  rfl

/-- Every change but a command to a trap leaves the handlers guarded. -/
theorem Change.guarded (h : a.Change none b) (ha : a.Guarded) : b.Guarded := by
  cases h with
  | kept => exact ha
  | assigned vars => exact ⟨ha.kinds, ha.handlers, ha.busy⟩
  | filed files stop => exact ⟨ha.kinds, ha.handlers, ha.busy⟩
  | signalled events hevents => exact ha.of_standing hevents rfl
  | @called frame gosub hhandler hpush =>
    have hpushed := handlers_push a.events hpush
    rw [hhandler] at hpushed
    exact ha.of_standing rfl hpushed
  | dispatched hd hidle hhandler hpush => exact ha.dispatched hd hidle hhandler hpush
  | returned hitems => exact ha.popped hitems
  | cleared => exact guarded_clear ha
  | edited lines => exact guarded_clear ⟨ha.kinds, ha.handlers, ha.busy⟩
  | installed hhandler => exact ⟨ha.kinds, ha.handlers, ha.busy⟩
  | trapped context => exact ⟨ha.kinds, ha.handlers, ha.busy⟩
  | resumed => exact ⟨ha.kinds, ha.handlers, ha.busy⟩

end Guarded

end Memory

namespace Moment

open Machine Memory

/-- The next operation is an `ON` for an event whose handler runs and whose trap was stopped
meanwhile. -/
def Reopens (t : Moment) (kind : EventKind) : Prop :=
  t.Commands kind .on ∧ t.machine.session.memory.StoppedInside kind

/-- The next operation dispatches an event: its handler runs in addition to those that run. -/
def Dispatches (e : Engine) (t : Moment) (kind : EventKind) : Prop :=
  (t.next e).machine.session.memory.handlers = kind :: t.machine.session.memory.handlers

/-- If the next operation takes up a saved session, that is guarded. -/
def Restores (t : Moment) : Prop :=
  t.control = .launch → ∀ m', resumeSaved t.machine = .ok true m' → m'.session.memory.Guarded

theorem guarded_fresh (config : Config) : (freshSession config).memory.Guarded := by
  refine ⟨?_, List.nodup_nil, fun _ _ hrunning => absurd hrunning List.not_mem_nil⟩
  show (EventTable.initial.descriptors.map EventDescriptor.kind).Nodup
  decide

/-- A saved session is taken up at the very beginning of a run only. -/
theorem restores_next (e : Engine) (t : Moment) : (t.next e).Restores := by
  intro hlaunch m' hsaved
  obtain ⟨control, m⟩ := t
  exfalso
  by_cases hstart : control = .launch
  · subst hstart
    obtain ⟨disk, hfresh⟩ | ⟨m₁, htaken⟩ := resumeSaved_cases m
    · rw [next_launch_of_fresh e hfresh] at hlaunch
      cases hlaunch
    · rw [next_launch_of_taken e htaken] at hlaunch
      cases hlaunch
  · by_cases hreset : control = .reset
    · subst hreset
      cases hsaved
    · have hbegun := begun_next e (t := ⟨control, m⟩) hstart hreset
      rw [hlaunch] at hbegun
      cases hbegun

/-- One operation: the handlers stay guarded exactly if no trap is reopened. -/
theorem Passage.guarded_iff {t : Moment} {m' : Machine} (h : t.Passage m')
    (ht : t.machine.session.memory.Guarded) (hrestores : t.Restores) :
    m'.session.memory.Guarded ↔ ∀ kind, ¬ t.Reopens kind := by
  have hnone : (∀ caller, t.control ≠ .statement caller) → ∀ kind, ¬ t.Reopens kind := by
    rintro hother kind ⟨⟨⟨caller, hcontrol⟩, -⟩, -⟩
    exact hother caller hcontrol
  cases h with
  | taken hcontrol hsaved =>
    exact iff_of_true (hrestores hcontrol m' hsaved) (hnone (by simp [hcontrol]))
  | launched hcontrol disk => exact iff_of_true ht (hnone (by simp [hcontrol]))
  | loaded hcontrol program console =>
    exact iff_of_true ⟨ht.kinds, ht.handlers, ht.busy⟩ (hnone (by simp [hcontrol]))
  | renewed hcontrol disk => exact iff_of_true (guarded_fresh _) (hnone (by simp [hcontrol]))
  | @turned label m' hlabel hturns =>
    have hchange := hturns.session.memory
    cases label with
    | none =>
      refine iff_of_true (hchange.guarded ht) ?_
      rintro kind ⟨hcommands, -⟩
      cases (hlabel kind .on).1 hcommands
    | some command =>
      obtain ⟨kind, command⟩ := command
      rw [hchange.eq_commanded, guarded_command_iff ht]
      constructor
      · rintro hkept other ⟨hcommands, hinside⟩
        cases (hlabel other .on).1 hcommands
        exact hkept ⟨rfl, hinside⟩
      · rintro hkept ⟨rfl, hinside⟩
        exact hkept kind ⟨(hlabel kind .on).2 rfl, hinside⟩

/-- Many operations: the handlers stay guarded exactly as long as no trap is reopened. -/
theorem guarded_iterate_iff (source : EventSource) {t : Moment}
    (hguarded : t.machine.session.memory.Guarded) (hrestores : t.Restores) (N : Nat) :
    (∀ n ≤ N, ((next source.engine)^[n] t).machine.session.memory.Guarded) ↔
      ∀ n < N, ∀ kind, ¬ ((next source.engine)^[n] t).Reopens kind := by
  have hstep : ∀ n, ((next source.engine)^[n] t).machine.session.memory.Guarded →
      (((next source.engine)^[n + 1] t).machine.session.memory.Guarded ↔
        ∀ kind, ¬ ((next source.engine)^[n] t).Reopens kind) := by
    intro n hn
    have hrestored : ((next source.engine)^[n] t).Restores := by
      cases n with
      | zero => exact hrestores
      | succ n =>
        rw [Function.iterate_succ_apply']
        exact restores_next _ _
    rw [Function.iterate_succ_apply']
    exact (passage_next source _).guarded_iff hn hrestored
  induction N with
  | zero =>
    refine iff_of_true ?_ nofun
    intro n hn
    obtain rfl := Nat.le_zero.1 hn
    exact hguarded
  | succ N ih =>
    constructor
    · intro hall n hn
      exact (hstep n (hall n (Nat.le_of_lt hn))).1 (hall (n + 1) hn)
    · intro hnone n hn
      have hbefore := ih.2 fun n hn => hnone n (Nat.lt_succ_of_lt hn)
      obtain hle | rfl := Nat.le_succ_iff.1 hn
      · exact hbefore n hle
      · exact (hstep N (hbefore N (Nat.le_refl N))).2 (hnone N (Nat.lt_succ_self N))

/-- From any moment with guarded handlers on: they stay guarded exactly as long as no `ON` is
executed for an event whose trap was stopped inside its own running handler.  Until then no two
subroutines are the handlers of one event, and no event is dispatched whose handler runs. -/
theorem guarded_iff_not_reopened {source : EventSource} {t : Moment}
    (hguarded : t.machine.session.memory.Guarded) (hrestores : t.Restores) (N : Nat) :
    ((∀ n ≤ N, ((next source.engine)^[n] t).machine.session.memory.Guarded) ↔
      ∀ n < N, ∀ kind, ¬ ((next source.engine)^[n] t).Reopens kind) ∧
    ((∀ n < N, ∀ kind, ¬ ((next source.engine)^[n] t).Reopens kind) →
      (∀ n ≤ N, ((next source.engine)^[n] t).machine.session.memory.handlers.Nodup) ∧
      ∀ n < N, ∀ kind, ((next source.engine)^[n] t).Dispatches source.engine kind →
        kind ∉ ((next source.engine)^[n] t).machine.session.memory.handlers) := by
  have hiff := guarded_iterate_iff source hguarded hrestores N
  refine ⟨hiff, ?_⟩
  intro hnone
  have hall := hiff.2 hnone
  refine ⟨fun n hn => (hall n hn).handlers, ?_⟩
  intro n hn kind hdispatches
  have hnext := (hall (n + 1) hn).handlers
  rw [Function.iterate_succ_apply', hdispatches] at hnext
  exact (List.nodup_cons.1 hnext).1

/-- A program waits for a key that is pressed twice, and its handler then waits too. -/
def pressing (handler : String) : Moment :=
  ⟨.launch, .new { greeting := false }
    { input := [.typed "10 GOTO 10", .typed handler, .typed "110 GOTO 110",
        .typed "ON KEY(1) GOSUB 100:KEY(1) ON:GOTO 10"] } {}
    { triggers := [(5, .key 1), (8, .key 1)] } 0⟩

/-- The second press is remembered and not dispatched, although the handler says `ON`. -/
theorem pressing_guarded :
    let t := (next EventSource.feed.engine)^[45] (pressing "100 KEY(1) ON")
    t.machine.session.memory.handlers = [.key 1] ∧
      (t.machine.session.events.get? (.key 1)).map EventDescriptor.triggered = some true ∧
      t.machine.session.memory.handlers.Nodup ∧ t.machine.session.memory.Guarded := by
  intro t
  have hstart : (pressing "100 KEY(1) ON").machine.session.memory.Guarded := guarded_fresh _
  have hrestores : (pressing "100 KEY(1) ON").Restores := by
    intro _ m' htaken
    cases htaken
  have hnever : ∀ n < 45, ∀ d ∈
      ((next EventSource.feed.engine)^[n] (pressing "100 KEY(1) ON")).machine.session.events.descriptors,
      d.state ≠ .stopped := by decide +kernel
  obtain ⟨hiff, hsafe⟩ := @guarded_iff_not_reopened EventSource.feed _ hstart hrestores 45
  have hnone : ∀ n < 45, ∀ kind,
      ¬ ((next EventSource.feed.engine)^[n] (pressing "100 KEY(1) ON")).Reopens kind := by
    rintro n hn kind ⟨-, -, d, hd, -, hstopped⟩
    exact hnever n hn d hd hstopped
  exact ⟨by decide +kernel, by decide +kernel, (hsafe hnone).1 45 (Nat.le_refl 45),
    hiff.2 hnone 45 (Nat.le_refl 45)⟩

/-- Here the handler stops its own trap and opens it again: the second press enters it a second time. -/
theorem reopened_reenters :
    ∃ n, ((next EventSource.feed.engine)^[n]
      (pressing "100 KEY(1) STOP:KEY(1) ON")).machine.session.memory.handlers = [.key 1, .key 1] :=
  ⟨44, by decide +kernel⟩

end Moment

end LineBasic

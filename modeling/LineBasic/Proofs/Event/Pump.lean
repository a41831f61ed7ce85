import LineBasic.Event.Pump

/-!
# From a push to the poll that sees it

Keys and events are pushed into two queues, by producers that know nothing of each other, and breaks
are asked for; now and then the session polls.  These happen in any order.

* `EventTable.latch`: traps remember that their events happened.  `foldl_trigger`: triggering events
  one after the other comes to this, whatever their order and number.
* `Station.run`: a pump and the traps that it feeds, through a history of pushes, breaks and polls.
* `Station.holds_run`: what the queues hold is what was pushed since the last poll that succeeded.
* `Station.Agrees`, `Alike`: stations that differ in the order of their queues, and histories that
  differ in the order and number of pushes between two polls, are not told apart by any poll.
* `Station.poll_latches`: what a poll does after any history.
-/

namespace LineBasic

namespace EventDescriptor

/-- To trigger twice is to trigger once. -/
theorem trigger_trigger (d : EventDescriptor) : d.trigger.trigger = d.trigger := by
  simp [trigger]

theorem kind_ite_trigger (happened : Bool) (d : EventDescriptor) :
    (if happened then d.trigger else d).kind = d.kind := by
  split <;> rfl

end EventDescriptor

namespace EventTable

/-! ## Traps that remember -/

/-- The first trap of each kind that happened remembers it, if it is enabled. -/
def latchFirst (happened : EventKind → Bool) : List EventDescriptor → List EventDescriptor
  | [] => []
  | d :: rest =>
    (if happened d.kind then d.trigger else d) ::
      latchFirst (fun kind => happened kind && kind ≠ d.kind) rest

theorem latchFirst_none (ds : List EventDescriptor) : latchFirst (fun _ => false) ds = ds := by
  induction ds with
  | nil => rfl
  | cons d rest ih => simp [latchFirst, ih]

/-- Two sets of events, one after the other, are their union. -/
theorem latchFirst_latchFirst (first second : EventKind → Bool) (ds : List EventDescriptor) :
    latchFirst second (latchFirst first ds) =
      latchFirst (fun kind => first kind || second kind) ds := by
  induction ds generalizing first second with
  | nil => rfl
  | cons d rest ih =>
    simp only [latchFirst, EventDescriptor.kind_ite_trigger, ih, Bool.and_or_distrib_right]
    by_cases hfirst : first d.kind <;> by_cases hsecond : second d.kind <;>
      simp [hfirst, hsecond, EventDescriptor.trigger_trigger]

/-- One event is a set of one. -/
theorem modifyKind_trigger (kind : EventKind) (ds : List EventDescriptor) :
    modifyKind kind EventDescriptor.trigger ds = latchFirst (fun k => k = kind) ds := by
  induction ds with
  | nil => rfl
  | cons d rest ih =>
    by_cases hd : d.kind = kind
    · simp [modifyKind, latchFirst, hd, latchFirst_none]
    · have hrest : (fun k => decide (k = kind) && decide (k ≠ d.kind)) =
          fun k => decide (k = kind) := by
        funext k
        by_cases hk : k = kind
        · simp [hk, Ne.symm hd]
        · simp [hk]
      simp only [modifyKind, latchFirst, hd, if_false, ih, hrest, decide_false, Bool.false_eq_true]

/-- The trap of a kind after a set of events. -/
theorem find?_latchFirst (happened : EventKind → Bool) (kind : EventKind)
    (ds : List EventDescriptor) :
    (latchFirst happened ds).find? (fun d => d.kind = kind) =
      (ds.find? fun d => d.kind = kind).map fun d => if happened kind then d.trigger else d := by
  induction ds generalizing happened with
  | nil => rfl
  | cons d rest ih =>
    by_cases hd : d.kind = kind
    · rw [latchFirst, List.find?_cons_of_pos (by simpa [EventDescriptor.kind_ite_trigger] using hd),
        List.find?_cons_of_pos (by simpa using hd), Option.map_some, hd]
    · rw [latchFirst, List.find?_cons_of_neg (by simpa [EventDescriptor.kind_ite_trigger] using hd),
        List.find?_cons_of_neg (by simpa using hd), ih]
      simp [Ne.symm hd]

theorem map_kind_latchFirst (happened : EventKind → Bool) (ds : List EventDescriptor) :
    (latchFirst happened ds).map EventDescriptor.kind = ds.map EventDescriptor.kind := by
  induction ds generalizing happened with
  | nil => rfl
  | cons d rest ih =>
    simp [latchFirst, EventDescriptor.kind_ite_trigger, ih]

/-- The traps remember the events that happened. -/
def latch (t : EventTable) (happened : EventKind → Bool) : EventTable :=
  { t with descriptors := latchFirst happened t.descriptors }

theorem latch_none (t : EventTable) : t.latch (fun _ => false) = t :=
  congrArg (fun ds => { t with descriptors := ds }) (latchFirst_none t.descriptors)

theorem trigger_eq_latch (t : EventTable) (kind : EventKind) :
    t.trigger kind = t.latch fun k => k = kind :=
  congrArg (fun ds => { t with descriptors := ds }) (modifyKind_trigger kind t.descriptors)

theorem latch_latch (t : EventTable) (first second : EventKind → Bool) :
    (t.latch first).latch second = t.latch fun kind => first kind || second kind :=
  congrArg (fun ds => { t with descriptors := ds }) (latchFirst_latchFirst first second t.descriptors)

/-- A list of events counts as the set of its kinds. -/
theorem foldl_trigger (kinds : List EventKind) (t : EventTable) :
    kinds.foldl trigger t = t.latch fun kind => kind ∈ kinds := by
  induction kinds generalizing t with
  | nil =>
    have hnone : (fun kind : EventKind => decide (kind ∈ [])) = fun _ => false := by simp
    rw [hnone, latch_none]
    rfl
  | cons kind rest ih =>
    rw [List.foldl_cons, ih, trigger_eq_latch, latch_latch]
    congr 1
    funext k
    simp

theorem get?_latch (t : EventTable) (happened : EventKind → Bool) (kind : EventKind) :
    (t.latch happened).get? kind =
      (t.get? kind).map fun d => if happened kind then d.trigger else d :=
  find?_latchFirst happened kind t.descriptors

/-- The table, without the events still to be seen. -/
def cleared (t : EventTable) : EventTable :=
  { t with pending := {} }

/-! ## The timer -/

/-- The period of the timer is over. -/
def isDue (t : EventTable) (now : Int64) : Bool :=
  t.timerPeriod.any fun period => period ≤ now - t.timerStart

/-- The timer is one more event, if it is due. -/
theorem checkTimer_eq (t : EventTable) (now : Int64) :
    t.checkTimer now =
      { t.latch (fun kind => kind = .timer && t.isDue now) with
        timerStart := if t.isDue now then now else t.timerStart } := by
  obtain ⟨descriptors, suspended, timerPeriod, timerStart, pending⟩ := t
  cases timerPeriod with
  | none => simp [checkTimer, isDue, latch_none]
  | some period =>
    by_cases hdue : period ≤ now - timerStart
    · simp [checkTimer, isDue, hdue, trigger_eq_latch, latch]
    · simp [checkTimer, isDue, hdue, latch_none]

end EventTable

/-! ## Histories -/

/-- What happens around a pump. -/
inductive Occurrence where
  /-- A key is pushed into the queue of the pump. -/
  | press (kind : EventKind)
  /-- An event is pushed into the queue of the session. -/
  | send (kind : EventKind)
  /-- The operator asks for a break. -/
  | interrupt
  /-- The session polls. -/
  | poll (now : Int64)

namespace Occurrence

/-- Whether the session polls. -/
def isPoll : Occurrence → Bool
  | poll _ => true
  | _ => false

theorem isPoll_iff {o : Occurrence} : o.isPoll = true ↔ ∃ now, o = poll now := by
  cases o <;> simp [isPoll]

/-- Whether the operator asks for a break. -/
def isInterrupt : Occurrence → Bool
  | interrupt => true
  | _ => false

/-- A kind of event is pushed, to either queue. -/
def Pushes (kind : EventKind) : Occurrence → Prop
  | press k => k = kind
  | send k => k = kind
  | _ => False

end Occurrence

/-- What is seen of an occurrence. -/
inductive Note where
  | pushed (kind : EventKind)
  | interrupted
  /-- A poll came back with this. -/
  | polled (outcome : Except Signal Unit)

namespace Note

/-- What a poll came back with. -/
def outcome? : Note → Option (Except Signal Unit)
  | polled outcome => some outcome
  | _ => none

/-- A kind of event was pushed, and no poll after that has succeeded. -/
def PushedSince (notes : List Note) (kind : EventKind) : Prop :=
  ∃ earlier later, notes = earlier ++ pushed kind :: later ∧ polled (.ok ()) ∉ later

/-- What has been pushed since the last successful poll, one note earlier. -/
theorem pushedSince_cons {note : Note} {notes : List Note} {kind : EventKind} :
    PushedSince (note :: notes) kind ↔
      PushedSince notes kind ∨ note = .pushed kind ∧ .polled (.ok ()) ∉ notes := by
  constructor
  · rintro ⟨earlier, later, hnotes, hlater⟩
    cases earlier with
    | nil =>
      obtain ⟨rfl, rfl⟩ := List.cons.inj hnotes
      exact .inr ⟨rfl, hlater⟩
    | cons first earlier =>
      obtain ⟨rfl, rfl⟩ := List.cons.inj hnotes
      exact .inl ⟨earlier, later, rfl, hlater⟩
  · rintro (⟨earlier, later, rfl, hlater⟩ | ⟨rfl, hnotes⟩)
    · exact ⟨note :: earlier, later, rfl, hlater⟩
    · exact ⟨[], notes, rfl, hnotes⟩

end Note

/-- A pump, and the traps of the session that polls it. -/
structure Station where
  pump : EventPump
  table : EventTable

namespace Station

open EventTable

/-- One occurrence. -/
def next (s : Station) : Occurrence → Note × Station
  | .press kind =>
    (.pushed kind, { s with pump := { s.pump with keys := s.pump.keys.push kind } })
  | .send kind => (.pushed kind, { s with table := s.table.send kind })
  | .interrupt => (.interrupted, { s with pump := { s.pump with interrupted := true } })
  | .poll now =>
    let (outcome, pump, table) := s.pump.poll s.table now
    (.polled outcome, ⟨pump, table⟩)

/-- A history: what is seen of it, and what becomes of the station. -/
def run (s : Station) : List Occurrence → List Note × Station
  | [] => ([], s)
  | o :: rest => ((s.next o).1 :: ((s.next o).2.run rest).1, ((s.next o).2.run rest).2)

/-- What the polls of a history come back with. -/
def outcomes (s : Station) (history : List Occurrence) : List (Except Signal Unit) :=
  (s.run history).1.filterMap Note.outcome?

theorem outcomes_cons (s : Station) (o : Occurrence) (rest : List Occurrence) :
    s.outcomes (o :: rest) = (s.next o).1.outcome?.toList ++ (s.next o).2.outcomes rest := by
  simp only [outcomes, run, List.filterMap_cons]
  cases (s.next o).1.outcome? <;> rfl

/-! ## What a poll does -/

/-- A kind of event waits in one of the queues. -/
def Holds (s : Station) (kind : EventKind) : Prop :=
  kind ∈ s.pump.keys.items ∨ kind ∈ s.table.pending.items

instance (s : Station) (kind : EventKind) : Decidable (s.Holds kind) :=
  inferInstanceAs (Decidable (_ ∨ _))

/-- What a poll tells the traps: what waits in the queues, and that the timer is due. -/
def happened (s : Station) (now : Int64) (kind : EventKind) : Bool :=
  s.Holds kind || (kind = .timer && s.table.isDue now)

/-- What a poll will see: what is in the queues, and the timer. -/
theorem happened_iff (s : Station) (now : Int64) (kind : EventKind) :
    s.happened now kind = true ↔ s.Holds kind ∨ kind = .timer ∧ s.table.isDue now = true := by
  simp [happened]

/-- The traps after a poll that tells them what happened. -/
def told (t : EventTable) (happened : EventKind → Bool) (now : Int64) : EventTable :=
  { t.latch happened with
    timerStart := if t.isDue now then now else t.timerStart
    pending := {} }

/-- A poll that is interrupted clears the interrupt and nothing else. -/
theorem poll_of_interrupted {s : Station} (h : s.pump.interrupted = true) (now : Int64) :
    s.pump.poll s.table now =
      (.error (.interrupt false), { s.pump with interrupted := false }, s.table) :=
  if_pos h

/-- Any other poll empties both queues and tells the traps. -/
theorem poll_of_not_interrupted {s : Station} (h : s.pump.interrupted = false) (now : Int64) :
    s.pump.poll s.table now = (.ok (), {}, told s.table (s.happened now) now) := by
  have hlatch : (fun kind =>
      (decide (kind ∈ s.pump.keys.items) || decide (kind ∈ s.table.pending.items)) ||
        (decide (kind = .timer) && s.table.isDue now)) = s.happened now := by
    funext kind
    rw [Bool.eq_iff_iff, happened_iff]
    simp [Holds]
  have hdrain : (s.pump.keys.items.foldl trigger s.table).drain =
      { s.table.latch (fun kind => kind ∈ s.pump.keys.items || kind ∈ s.table.pending.items) with
        pending := {} } := by
    rw [drain, foldl_trigger, foldl_trigger, latch_latch]
    rfl
  rw [EventPump.poll, if_neg (by simp [h])]
  simp only [hdrain, checkTimer_eq, h]
  rw [told, ← hlatch, ← latch_latch s.table fun kind =>
    kind ∈ s.pump.keys.items || kind ∈ s.table.pending.items]
  rfl

/-! ## What the queues hold -/

/-- Every occurrence but a poll adds to what waits, and leaves the traps alone. -/
theorem next_of_not_poll {o : Occurrence} (ho : o.isPoll = false) (s : Station) :
    (s.next o).1.outcome? = none ∧
      (s.next o).2.pump.interrupted = (s.pump.interrupted || o.isInterrupt) ∧
      (s.next o).2.table.cleared = s.table.cleared ∧
      ∀ kind, (s.next o).2.Holds kind ↔ s.Holds kind ∨ o.Pushes kind := by
  cases o with
  | press k =>
    refine ⟨rfl, (Bool.or_false _).symm, rfl, fun kind => ?_⟩
    simp only [next, Holds, Queue.push, Occurrence.Pushes, List.mem_append, List.mem_singleton]
    grind
  | send k =>
    refine ⟨rfl, (Bool.or_false _).symm, rfl, fun kind => ?_⟩
    simp only [next, Holds, send, Queue.push, Occurrence.Pushes, List.mem_append, List.mem_singleton]
    grind
  | interrupt =>
    refine ⟨rfl, (Bool.or_true _).symm, rfl, fun kind => ?_⟩
    simp [next, Holds, Occurrence.Pushes]
  | poll now => cases ho

/-- What is in the queues after one occurrence. -/
theorem holds_next (s : Station) (o : Occurrence) (kind : EventKind) :
    (s.next o).2.Holds kind ↔
      (s.next o).1 = .pushed kind ∨ s.Holds kind ∧ (s.next o).1 ≠ .polled (.ok ()) := by
  cases o with
  | poll now =>
    cases hbreak : s.pump.interrupted with
    | true => simp [next, poll_of_interrupted hbreak, Holds]
    | false => simp [next, poll_of_not_interrupted hbreak, Holds, told]
  | press k =>
    rw [(next_of_not_poll rfl s).2.2.2]
    simp [next, Occurrence.Pushes, or_comm]
  | send k =>
    rw [(next_of_not_poll rfl s).2.2.2]
    simp [next, Occurrence.Pushes, or_comm]
  | interrupt =>
    rw [(next_of_not_poll rfl s).2.2.2]
    simp [next, Occurrence.Pushes]

/-- A kind of event was pushed since the last poll that succeeded; what waited before the history
counts if no poll of it has succeeded. -/
def Awaits (s : Station) (notes : List Note) (kind : EventKind) : Prop :=
  Note.PushedSince notes kind ∨ s.Holds kind ∧ .polled (.ok ()) ∉ notes

/-- Nothing that is pushed is lost before a poll has seen it, and nothing is seen by two polls. -/
theorem holds_run (s : Station) (history : List Occurrence) (kind : EventKind) :
    (s.run history).2.Holds kind ↔ s.Awaits (s.run history).1 kind := by
  induction history generalizing s with
  | nil => simp [run, Awaits, Note.PushedSince]
  | cons o rest ih =>
    simp only [run, ih, Awaits, holds_next, Note.pushedSince_cons, List.mem_cons]
    grind

/-! ## Order and number of pushes -/

/-- Stations with the same traps, whose queues hold the same kinds of events. -/
structure Agrees (s r : Station) : Prop where
  interrupted : s.pump.interrupted = r.pump.interrupted
  table : s.table.cleared = r.table.cleared
  holds : ∀ kind, s.Holds kind ↔ r.Holds kind

namespace Agrees

theorem refl (s : Station) : s.Agrees s :=
  ⟨rfl, rfl, fun _ => Iff.rfl⟩

theorem symm {s r : Station} (h : s.Agrees r) : r.Agrees s :=
  ⟨h.interrupted.symm, h.table.symm, fun kind => (h.holds kind).symm⟩

theorem trans {s r q : Station} (h : s.Agrees r) (h' : r.Agrees q) : s.Agrees q :=
  ⟨h.interrupted.trans h'.interrupted, h.table.trans h'.table,
    fun kind => (h.holds kind).trans (h'.holds kind)⟩

theorem happened_eq {s r : Station} (h : s.Agrees r) (now : Int64) :
    s.happened now = r.happened now := by
  have hdue : s.table.isDue now = r.table.isDue now := by
    show s.table.cleared.isDue now = r.table.cleared.isDue now
    rw [h.table]
  funext kind
  rw [Bool.eq_iff_iff, happened_iff, happened_iff, h.holds, hdue]

/-- No poll tells stations that agree apart. -/
theorem poll {s r : Station} (h : s.Agrees r) (hclear : s.pump.interrupted = false) (now : Int64) :
    s.pump.poll s.table now = r.pump.poll r.table now := by
  have htold : told s.table (s.happened now) now = told r.table (s.happened now) now := by
    show told s.table.cleared (s.happened now) now = told r.table.cleared (s.happened now) now
    rw [h.table]
  rw [poll_of_not_interrupted hclear, poll_of_not_interrupted (h.interrupted ▸ hclear), htold,
    h.happened_eq]

/-- One occurrence does the same to stations that agree. -/
theorem next {s r : Station} (h : s.Agrees r) (o : Occurrence) :
    (s.next o).1.outcome? = (r.next o).1.outcome? ∧ (s.next o).2.Agrees (r.next o).2 := by
  cases ho : o.isPoll with
  | false =>
    obtain ⟨hsilent, hinterrupted, htable, hholds⟩ := next_of_not_poll ho s
    obtain ⟨hsilent', hinterrupted', htable', hholds'⟩ := next_of_not_poll ho r
    refine ⟨hsilent.trans hsilent'.symm, ?_, ?_, fun kind => ?_⟩
    · rw [hinterrupted, hinterrupted', h.interrupted]
    · rw [htable, htable', h.table]
    · rw [hholds, hholds', h.holds]
  | true =>
    obtain ⟨now, rfl⟩ := Occurrence.isPoll_iff.1 ho
    cases hbreak : s.pump.interrupted with
    | true =>
      have hbreak' : r.pump.interrupted = true := h.interrupted ▸ hbreak
      simp only [Station.next, poll_of_interrupted hbreak, poll_of_interrupted hbreak']
      exact ⟨trivial, rfl, h.table, h.holds⟩
    | false =>
      simp only [Station.next, h.poll hbreak]
      exact ⟨trivial, refl _⟩

/-- So does a whole history. -/
theorem run {s r : Station} (h : s.Agrees r) (history : List Occurrence) :
    s.outcomes history = r.outcomes history ∧ (s.run history).2.Agrees (r.run history).2 := by
  induction history generalizing s r with
  | nil => exact ⟨rfl, h⟩
  | cons o rest ih =>
    obtain ⟨houtcome, hnext⟩ := h.next o
    obtain ⟨houtcomes, hrun⟩ := ih hnext
    exact ⟨by rw [outcomes_cons, outcomes_cons, houtcome, houtcomes], hrun⟩

end Agrees

end Station

/-- Histories that differ in the order, the number and the queues of the pushes, and in the order and
number of the breaks asked for, between one poll and the next. -/
inductive Alike : List Occurrence → List Occurrence → Prop where
  | refl (history : List Occurrence) : Alike history history
  | symm {history other : List Occurrence} : Alike history other → Alike other history
  | trans {history other another : List Occurrence} :
    Alike history other → Alike other another → Alike history another
  | cons (o : Occurrence) {rest rest' : List Occurrence} :
    Alike rest rest' → Alike (o :: rest) (o :: rest')
  | swap {o o' : Occurrence} (rest : List Occurrence) :
    o.isPoll = false → o'.isPoll = false → Alike (o :: o' :: rest) (o' :: o :: rest)
  | again {o : Occurrence} (rest : List Occurrence) :
    o.isPoll = false → Alike (o :: o :: rest) (o :: rest)
  | either (kind : EventKind) (rest : List Occurrence) :
    Alike (.press kind :: rest) (.send kind :: rest)

namespace Station

open EventTable

theorem outcomes_of_not_poll {o : Occurrence} (ho : o.isPoll = false) (s : Station)
    (rest : List Occurrence) : s.outcomes (o :: rest) = (s.next o).2.outcomes rest := by
  rw [outcomes_cons, (next_of_not_poll ho s).1]
  rfl

/-- The order of two pushes does not matter. -/
theorem agrees_swap {o o' : Occurrence} (ho : o.isPoll = false) (ho' : o'.isPoll = false)
    (s : Station) : ((s.next o).2.next o').2.Agrees ((s.next o').2.next o).2 := by
  obtain ⟨-, hinterrupted, htable, hholds⟩ := next_of_not_poll ho s
  obtain ⟨-, hinterrupted', htable', hholds'⟩ := next_of_not_poll ho' s
  obtain ⟨-, hinterrupted₁, htable₁, hholds₁⟩ := next_of_not_poll ho' (s.next o).2
  obtain ⟨-, hinterrupted₂, htable₂, hholds₂⟩ := next_of_not_poll ho (s.next o').2
  refine ⟨?_, ?_, fun kind => ?_⟩
  · rw [hinterrupted₁, hinterrupted₂, hinterrupted, hinterrupted', Bool.or_right_comm]
  · rw [htable₁, htable₂, htable, htable']
  · rw [hholds₁, hholds₂, hholds, hholds', or_right_comm]

/-- Nor how often an event is pushed. -/
theorem agrees_again {o : Occurrence} (ho : o.isPoll = false) (s : Station) :
    ((s.next o).2.next o).2.Agrees (s.next o).2 := by
  obtain ⟨-, hinterrupted, -, hholds⟩ := next_of_not_poll ho s
  obtain ⟨-, hinterrupted', htable', hholds'⟩ := next_of_not_poll ho (s.next o).2
  refine ⟨?_, htable', fun kind => ?_⟩
  · rw [hinterrupted', hinterrupted, Bool.or_assoc, Bool.or_self]
  · rw [hholds', hholds, or_assoc, or_self]

/-- Nor the queue it is pushed to. -/
theorem agrees_either (kind : EventKind) (s : Station) :
    (s.next (.press kind)).2.Agrees (s.next (.send kind)).2 := by
  obtain ⟨-, hinterrupted, htable, hholds⟩ := next_of_not_poll (o := .press kind) rfl s
  obtain ⟨-, hinterrupted', htable', hholds'⟩ := next_of_not_poll (o := .send kind) rfl s
  exact ⟨hinterrupted.trans hinterrupted'.symm, htable.trans htable'.symm,
    fun k => (hholds k).trans (hholds' k).symm⟩

/-- The polls of histories that are alike come back with the same, and leave stations that agree. -/
theorem agrees_of_alike {history other : List Occurrence} (h : Alike history other) (s : Station) :
    s.outcomes history = s.outcomes other ∧ (s.run history).2.Agrees (s.run other).2 := by
  induction h generalizing s with
  | refl history => exact ⟨rfl, .refl _⟩
  | symm _ ih => exact ⟨(ih s).1.symm, (ih s).2.symm⟩
  | trans _ _ ih ih' => exact ⟨(ih s).1.trans (ih' s).1, (ih s).2.trans (ih' s).2⟩
  | cons o _ ih =>
    obtain ⟨houtcomes, hrun⟩ := ih (s.next o).2
    exact ⟨by rw [outcomes_cons, outcomes_cons, houtcomes], hrun⟩
  | swap rest ho ho' =>
    obtain ⟨houtcomes, hrun⟩ := (agrees_swap ho ho' s).run rest
    refine ⟨?_, hrun⟩
    rw [outcomes_of_not_poll ho, outcomes_of_not_poll ho', outcomes_of_not_poll ho',
      outcomes_of_not_poll ho, houtcomes]
  | again rest ho =>
    obtain ⟨houtcomes, hrun⟩ := (agrees_again ho s).run rest
    refine ⟨?_, hrun⟩
    rw [outcomes_of_not_poll ho, outcomes_of_not_poll ho, outcomes_of_not_poll ho, houtcomes]
  | either kind rest =>
    obtain ⟨houtcomes, hrun⟩ := (agrees_either kind s).run rest
    refine ⟨?_, hrun⟩
    rw [outcomes_of_not_poll rfl, outcomes_of_not_poll rfl, houtcomes]

/-! ## What a poll does after any history -/

/-- A break that was asked for is all that a poll sees.  A poll without one empties the queues, and an
enabled trap then remembers exactly the events that were pushed since the last poll that succeeded, to
either queue, in any order and any number of times. -/
theorem poll_latches (s : Station) (history : List Occurrence) (now : Int64) :
    let after := (s.run history).2
    (after.pump.interrupted = true →
      after.pump.poll after.table now =
        (.error (.interrupt false), { after.pump with interrupted := false }, after.table)) ∧
    (after.pump.interrupted = false →
      ∃ table, after.pump.poll after.table now = (.ok (), {}, table) ∧
        table = { after.table with
          descriptors := table.descriptors
          timerStart := if after.table.isDue now then now else after.table.timerStart
          pending := {} } ∧
        table.descriptors.map EventDescriptor.kind = after.table.descriptors.map EventDescriptor.kind ∧
        ∀ kind d, after.table.get? kind = some d →
          ∃ triggered, table.get? kind = some { d with triggered } ∧
            (triggered = true ↔
              d.triggered = true ∨
                d.enabled = true ∧
                  (s.Awaits (s.run history).1 kind ∨ kind = .timer ∧ after.table.isDue now = true))) ∧
    ∀ other, Alike history other →
      s.outcomes other = s.outcomes history ∧
        (after.pump.interrupted = false →
          (s.run other).2.pump.poll (s.run other).2.table now = after.pump.poll after.table now) := by
  intro after
  refine ⟨fun hbreak => poll_of_interrupted hbreak now, fun hclear => ?_, fun other halike => ?_⟩
  · refine ⟨_, poll_of_not_interrupted hclear now, rfl, map_kind_latchFirst _ _, fun kind d hd => ?_⟩
    have hget : (told after.table (after.happened now) now).get? kind =
        some (if after.happened now kind then d.trigger else d) := by
      refine (get?_latch after.table (after.happened now) kind).trans ?_
      rw [hd, Option.map_some]
    have hawaits := happened_iff after now kind
    rw [holds_run] at hawaits
    rw [hget, ← hawaits]
    cases after.happened now kind with
    | true => exact ⟨d.triggered || d.enabled, rfl, by simp⟩
    | false => exact ⟨d.triggered, rfl, by simp⟩
  · obtain ⟨houtcomes, hagrees⟩ := agrees_of_alike halike s
    exact ⟨houtcomes.symm, fun hclear => (hagrees.poll hclear now).symm⟩

/-- A poll that a break has ended loses nothing: a key pressed before it is seen by the next. -/
theorem poll_latches_pressed :
    let s : Station := ⟨{}, EventTable.initial.command (.key 1) .on⟩
    let history : List Occurrence :=
      [.press (.key 1), .press (.key 1), .interrupt, .send (.key 2), .poll 0]
    ∃ table triggered, (s.run history).2.pump.poll (s.run history).2.table 0 = (.ok (), {}, table) ∧
      table.get? (.key 1) = some { kind := .key 1, enabled := true, triggered } ∧ triggered = true := by
  intro s history
  obtain ⟨table, hpoll, -, -, htraps⟩ := (poll_latches s history 0).2.1 rfl
  obtain ⟨triggered, hget, htriggered⟩ :=
    htraps (.key 1) { kind := .key 1, enabled := true } (by decide)
  have hpressed : s.Awaits (s.run history).1 (.key 1) :=
    .inl ⟨[.pushed (.key 1)],
      [.interrupted, .pushed (.key 2), .polled (.error (.interrupt false))], rfl, by simp⟩
  exact ⟨table, triggered, hpoll, hget, htriggered.2 (.inr ⟨rfl, .inl hpressed⟩)⟩

end Station

end LineBasic

import LineBasic.Proofs.Statement.Outcome

/-!
# Running one statement

`Machine.statement` notes where it is, passes what stands before a statement, reads the statement and
executes it.

* `Machine.Reads`, `Machine.Upcoming`: which statement comes next.
* `Machine.reading`: a machine that has begun a statement and has read some of it.
* `statement_cases`: a statement is not read, or there is none, or it is read and then executed.
-/

namespace LineBasic

namespace Scan

theorem lineMarker_suffix (code : List UInt8) : (lineMarker code).2 <:+ code := by
  unfold lineMarker
  split
  · split
    · exact List.suffix_refl _
    · exact ⟨[_, _, _, _], rfl⟩
  · exact List.suffix_refl _

end Scan

namespace Parse

open Token Scan

/-- What comes between two statements, by its first byte after the blanks. -/
theorem boundary_apply (code : List UInt8) :
    boundary code =
      match code.dropWhile isBlank with
      | [] => .ok .ended []
      | b :: rest =>
        if b = endLine then
          match (lineMarker rest).1 with
          | some number => .ok (.line number) (lineMarker rest).2
          | none => .ok .ended (lineMarker rest).2
        else if b = colon then .ok .inLine rest
        else .ok .inLine (b :: rest) := by
  simp only [boundary, Effect.bind_apply, next?_apply]
  cases code.dropWhile isBlank with
  | nil => rfl
  | cons b rest =>
    simp only [List.head?_cons, Effect.ite_apply, Effect.bind_apply, byte?_apply, List.tail_cons,
      lineMarker?_apply]
    by_cases hend : b = endLine
    · simp only [hend, if_true]
      cases (lineMarker rest).1 <;> rfl
    · rw [if_neg hend, if_neg hend]
      by_cases hcolon : b = colon
      · simp [hcolon]
      · simp [hcolon]

/-- What stands before a statement is passed without fail. -/
theorem boundary_ok (code : List UInt8) : ∃ b rest, boundary code = .ok b rest ∧ rest <:+ code := by
  have hdrop : code.dropWhile isBlank <:+ code := List.dropWhile_suffix _
  rw [boundary_apply]
  cases hcode : code.dropWhile isBlank with
  | nil => exact ⟨_, _, rfl, List.nil_suffix⟩
  | cons b rest =>
    rw [hcode] at hdrop
    have hrest : rest <:+ code := (List.suffix_cons b rest).trans hdrop
    have hmarker := (lineMarker_suffix rest).trans hrest
    by_cases hend : b = endLine
    · simp only [hend, if_true]
      cases (lineMarker rest).1 with
      | none => exact ⟨_, _, rfl, hmarker⟩
      | some number => exact ⟨_, _, rfl, hmarker⟩
    · by_cases hcolon : b = colon
      · exact ⟨.inLine, rest, (if_neg hend).trans (if_pos hcolon), hrest⟩
      · exact ⟨.inLine, b :: rest, (if_neg hend).trans (if_neg hcolon), hdrop⟩

end Parse

namespace Session

/-! ## Moving in the code that runs -/

@[simp] theorem moveTo_moveTo (s : Session) (pos pos' : Nat) :
    (s.moveTo pos).moveTo pos' = s.moveTo pos' := by
  unfold moveTo
  split <;> simp [*]

@[simp] theorem moveTo_trap (s : Session) (pos : Nat) : (s.moveTo pos).trap = s.trap := by
  unfold moveTo
  split <;> rfl

@[simp] theorem moveTo_gosub (s : Session) (pos : Nat) : (s.moveTo pos).gosub = s.gosub := by
  unfold moveTo
  split <;> rfl

@[simp] theorem moveTo_stop (s : Session) (pos : Nat) : (s.moveTo pos).stop = s.stop := by
  unfold moveTo
  split <;> rfl

@[simp] theorem moveTo_statement (s : Session) (pos : Nat) :
    (s.moveTo pos).statement = s.statement := by
  unfold moveTo
  split <;> rfl

@[simp] theorem moveTo_inProgram (s : Session) (pos : Nat) :
    (s.moveTo pos).inProgram = s.inProgram := by
  unfold moveTo
  split <;> rfl

@[simp] theorem moveTo_lines (s : Session) (pos : Nat) :
    (s.moveTo pos).program.lines = s.program.lines := by
  unfold moveTo
  split <;> rfl

@[simp] theorem moveTo_direct_bytes (s : Session) (pos : Nat) :
    (s.moveTo pos).direct.bytes = s.direct.bytes := by
  unfold moveTo
  split <;> rfl

/-- Moving changes the place and no byte. -/
@[simp] theorem moveTo_stream (s : Session) (pos : Nat) :
    (s.moveTo pos).stream = { s.stream with pos } := by
  unfold moveTo stream
  cases s.inProgram <;> rfl

/-- Code that is found again after a move. -/
theorem rest_moveTo {s : Session} {after : List UInt8} (h : after <:+ s.stream.rest) :
    (s.moveTo (s.stream.pos + (s.stream.rest.length - after.length))).stream.rest = after := by
  obtain ⟨passed, hpassed⟩ := h
  have hlength : s.stream.rest.length - after.length = passed.length := by
    rw [← hpassed, List.length_append, Nat.add_sub_cancel]
  rw [hlength, moveTo_stream, CodeStream.rest, ← List.drop_drop, ← CodeStream.rest, ← hpassed,
    List.drop_left]

theorem scope_moveTo (s : Session) (pos : Nat) : (s.moveTo pos).scope = s.scope := by
  unfold moveTo
  split <;> rfl

end Session

namespace Machine

theorem scan_apply {α : Type} (p : Scanner α) (m : Machine) :
    scan p m =
      match p m.session.stream.rest with
      | .ok a rest => .ok a { m with
          session := m.session.moveTo
            (m.session.stream.pos + (m.session.stream.rest.length - rest.length)) }
      | .error e rest => .error (.error e) { m with
          session := m.session.moveTo
            (m.session.stream.pos + (m.session.stream.rest.length - rest.length)) } := by
  simp only [scan, onSession, Session.scan_apply]
  cases p m.session.stream.rest <;> rfl

/-- The statement that a machine reads next: what stands before it has been passed, and then the
statement itself. -/
def Reads (m : Machine) (st : Statement) (before after : List UInt8) : Prop :=
  ∃ b, Parse.boundary m.session.stream.rest = .ok b before ∧ b ≠ .ended ∧
    Parse.statement m.session.scope before = .ok st after

/-- A statement comes next. -/
def Upcoming (m : Machine) (st : Statement) : Prop :=
  ∃ before after, m.Reads st before after

/-- A machine that has begun a statement where it was and has read up to a place. -/
def reading (m : Machine) (pos : Nat) (console : Console) : Machine :=
  { m with
    session := Session.moveTo { m.session with statement := m.session.stream.pos } pos
    console }

/-- One statement comes at most. -/
theorem Upcoming.unique {m : Machine} {st st' : Statement} (h : m.Upcoming st)
    (h' : m.Upcoming st') : st = st' := by
  obtain ⟨before, after, b, hb, -, hst⟩ := h
  obtain ⟨before', after', b', hb', -, hst'⟩ := h'
  rw [hb] at hb'
  cases hb'
  rw [hst] at hst'
  cases hst'
  rfl

theorem readAndExecute_apply (m : Machine) (pos : Nat) (console : Console) (before : List UInt8)
    (hrest : (m.reading pos console).session.stream.rest = before) :
    readAndExecute (m.reading pos console) =
      match Parse.statement m.session.scope before with
      | .ok st rest => st.execute (m.reading (pos + (before.length - rest.length)) console)
      | .error e rest =>
        .error (.error e) (m.reading (pos + (before.length - rest.length)) console) := by
  have hscope : (m.reading pos console).session.scope = m.session.scope := by
    rw [reading, Session.scope_moveTo]
    rfl
  simp only [readAndExecute, Effect.bind_apply, Effect.get_apply, scan_apply, hrest, hscope]
  cases Parse.statement m.session.scope before with
  | ok st rest => simp [reading]
  | error e rest => simp [reading]

/-- Where the code goes on after a scan. -/
theorem rest_of_suffix {m : Machine} {before : List UInt8} (console : Console)
    (h : before <:+ m.session.stream.rest) :
    (m.reading (m.session.stream.pos + (m.session.stream.rest.length - before.length))
      console).session.stream.rest = before :=
  Session.rest_moveTo (s := { m.session with statement := m.session.stream.pos }) h

/-- A statement is run, or the code ends, by what comes before the statement. -/
theorem statement_of_boundary {m : Machine} {b : Parse.Boundary} {before : List UInt8}
    (hb : Parse.boundary m.session.stream.rest = .ok b before) :
    let m₁ := m.reading (m.session.stream.pos + (m.session.stream.rest.length - before.length))
      m.console
    statement m =
      match b with
      | .ended => endOfCode m₁
      | .line number => (do
          if m₁.session.tron then write s!"[{number}]"
          readAndExecute : MachineM Bool) m₁
      | .inLine => readAndExecute m₁ := by
  have hscan : scan Parse.boundary { m with
      session := { m.session with statement := m.session.stream.pos } } =
      .ok b (m.reading (m.session.stream.pos + (m.session.stream.rest.length - before.length))
        m.console) := by
    rw [scan_apply]
    simp only [show Session.stream { m.session with statement := m.session.stream.pos } =
      m.session.stream from rfl, hb]
    rfl
  simp only [statement, Effect.bind_apply, modifySession_apply, hscan]
  cases b with
  | ended => rfl
  | line number => rfl
  | inLine => rfl

/-- Unless the code ends, the statement is read and executed.  The number of the line may be shown
first, and that write may fail. -/
theorem statement_of_more {m : Machine} {b : Parse.Boundary} {before : List UInt8}
    (hb : Parse.boundary m.session.stream.rest = .ok b before) (hmore : b ≠ .ended) :
    let pos := m.session.stream.pos + (m.session.stream.rest.length - before.length)
    ∃ console, statement m = readAndExecute (m.reading pos console) ∨
      statement m = .error (.fault "write failed") (m.reading pos console) := by
  intro pos
  have hstatement := statement_of_boundary hb
  let m₁ := m.reading pos m.console
  cases b with
  | ended => exact absurd rfl hmore
  | inLine => exact ⟨m.console, .inl hstatement⟩
  | line number =>
    cases htron : m₁.session.tron with
    | false =>
      have hquiet : ¬ m₁.session.tron = true := by simp [htron]
      exact ⟨m.console, .inl (hstatement.trans (congrFun (if_neg hquiet) m₁))⟩
    | true =>
      obtain ⟨console, ⟨a, hok⟩ | herror⟩ := shows_write s!"[{number}]" m₁
      · refine ⟨console, .inl (hstatement.trans ?_)⟩
        simp [m₁, pos, htron, hok]
        rfl
      · refine ⟨console, .inr (hstatement.trans ?_)⟩
        simp [m₁, pos, htron, herror]
        rfl

/-- Once what stands before a statement has been passed, the statement is read and executed. -/
theorem readAndExecute_cases {m : Machine} {b : Parse.Boundary} {before : List UInt8}
    (hb : Parse.boundary m.session.stream.rest = .ok b before) (hmore : b ≠ .ended)
    (hsuffix : before <:+ m.session.stream.rest) (console : Console) :
    let pos := m.session.stream.pos + (m.session.stream.rest.length - before.length)
    (∃ pos' e, readAndExecute (m.reading pos console) = .error (.error e) (m.reading pos' console) ∧
      ∀ st, ¬ m.Upcoming st) ∨
    ∃ st after, m.Reads st before after ∧
      readAndExecute (m.reading pos console) =
        st.execute (m.reading (pos + (before.length - after.length)) console) := by
  intro pos
  have happly := readAndExecute_apply m pos console before (rest_of_suffix console hsuffix)
  cases hst : Parse.statement m.session.scope before with
  | ok st after =>
    rw [hst] at happly
    exact .inr ⟨st, after, ⟨b, hb, hmore, hst⟩, happly⟩
  | error e after =>
    rw [hst] at happly
    refine .inl ⟨_, e, happly, ?_⟩
    rintro st ⟨before', after', b', hb', -, hst'⟩
    rw [hb] at hb'
    cases hb'
    rw [hst] at hst'
    cases hst'

/-- At the end of the code there is nothing to execute. -/
theorem endOfCode_cases (m : Machine) :
    endOfCode m = .error (.error ((BasicError.of .noResume).located
      (if m.session.inProgram then .program (m.session.program.pos - 2) else .direct))) m ∨
    endOfCode m = .ok false m := by
  simp only [endOfCode, Effect.bind_apply, Effect.get_apply, Effect.ite_apply]
  by_cases hhandling : m.session.trap.isHandling = true
  · simp only [hhandling, if_true]
    exact .inl rfl
  · exact .inr (by simp [hhandling])

/-- Running a statement: there is a failure before it has been read, or nothing to read, or the
statement that comes next is executed. -/
theorem statement_cases (m : Machine) :
    (∃ pos console signal, statement m = .error signal (m.reading pos console) ∧
      ∀ st, m.Upcoming st → ∃ message, signal = .fault message) ∨
    (∃ pos console, statement m = .ok false (m.reading pos console)) ∨
    ∃ st before after console, m.Reads st before after ∧
      statement m = st.execute (m.reading
        (m.session.stream.pos + (m.session.stream.rest.length - before.length) +
          (before.length - after.length)) console) := by
  obtain ⟨b, before, hb, hsuffix⟩ := Parse.boundary_ok m.session.stream.rest
  by_cases hmore : b = .ended
  · -- nothing comes next, so the first alternative says little about the signal
    subst hmore
    have hstatement := statement_of_boundary hb
    have hnone : ∀ st, ¬ m.Upcoming st := by
      rintro st ⟨before', after, b', hb', hmore, -⟩
      rw [hb] at hb'
      cases hb'
      exact hmore rfl
    obtain herror | hok := endOfCode_cases (m.reading
      (m.session.stream.pos + (m.session.stream.rest.length - before.length)) m.console)
    · exact .inl ⟨_, _, _, hstatement.trans herror, fun st hst => absurd hst (hnone st)⟩
    · exact .inr (.inl ⟨_, _, hstatement.trans hok⟩)
  · obtain ⟨console, hread | hfault⟩ := statement_of_more hb hmore
    · obtain ⟨pos, e, herror, hnone⟩ | ⟨st, after, hreads, hexecute⟩ :=
        readAndExecute_cases hb hmore hsuffix console
      · exact .inl ⟨pos, _, _, hread.trans herror, fun st hst => absurd hst (hnone st)⟩
      · exact .inr (.inr ⟨st, before, after, _, hreads, hread.trans hexecute⟩)
    · exact .inl ⟨_, console, _, hfault, fun st _ => ⟨_, rfl⟩⟩

/-- A statement that fails has noted where it began. -/
theorem statement_error_cases {m m' : Machine} {signal : Signal}
    (h : statement m = .error signal m') :
    ∃ pos console,
      (m' = m.reading pos console ∧ ∀ st, m.Upcoming st → ∃ message, signal = .fault message) ∨
      ∃ st, m.Upcoming st ∧ st.execute (m.reading pos console) = .error signal m' := by
  obtain ⟨pos, console, signal', herror, hfault⟩ | ⟨pos, console, hok⟩ |
    ⟨st, before, after, console, hreads, hexecute⟩ := statement_cases m
  · rw [h] at herror
    cases herror
    exact ⟨pos, console, .inl ⟨rfl, hfault⟩⟩
  · simp [h] at hok
  · exact ⟨_, console, .inr ⟨st, ⟨before, after, hreads⟩, hexecute.symm.trans h⟩⟩

/-- When a statement fails, the session knows where it began. -/
theorem place_of_statement_error {m m' : Machine} {signal : Signal}
    (h : statement m = .error signal m') :
    m'.session.statement = m.session.stream.pos ∧ m'.session.inProgram = m.session.inProgram := by
  obtain ⟨pos, console, ⟨rfl, -⟩ | ⟨st, -, hexecute⟩⟩ := statement_error_cases h
  · simp [reading]
  · obtain ⟨-, -, hinProgram, hstatement⟩ := (Statement.abandoned_of_execute hexecute).stays
    rw [hinProgram, hstatement]
    simp [reading]

end Machine

end LineBasic

import Mathlib
import LineBasic.Proofs.Machine.Statement
import LineBasic.Proofs.Source.Layout
import LineBasic.Proofs.Source.Statements

/-!
# The token machine runs source text

* `Matches`, `Agrees`: when a machine on code stands where a machine on text does.
* `step_agrees`, `step_disagrees`: one statement.  A `RETURN` with a line has a meaning in the text and
  none in the code.
* `run_agrees_iff`: any number of statements, from machines that match.
* `statements_simulate_text_iff`: any number of statements of a program that was loaded from its text.
-/

namespace LineBasic.Source

open Token

/-! ## Scanning the program -/

/-- A machine whose program stands at an offset. -/
def goTo (m : Machine) (pos : Nat) : Machine :=
  { m with session := { m.session with program := { m.session.program with pos } } }

/-- The code that the program has still to run. -/
def ahead (m : Machine) : List UInt8 :=
  m.session.program.image.drop m.session.program.pos

/-- A scan, told by the place in the program. -/
theorem scan_apply {α : Type} {m : Machine} (hin : m.session.inProgram = true) (p : Scanner α) :
    Machine.scan p m =
      match p (ahead m) with
      | .ok a rest => .ok a (goTo m (m.session.program.pos + ((ahead m).length - rest.length)))
      | .error e rest =>
        .error (.error e) (goTo m (m.session.program.pos + ((ahead m).length - rest.length))) := by
  have hstream : m.session.stream = m.session.program.stream := if_pos hin
  have hmove : ∀ pos, m.session.moveTo pos =
      { m.session with program := { m.session.program with pos } } := fun pos => if_pos hin
  simp only [Machine.scan_apply, hstream, hmove]
  rfl

/-- Reading a piece of the code ahead moves past it. -/
theorem scan_of_append {α : Type} {m : Machine} (hin : m.session.inProgram = true) {p : Scanner α}
    {a : α} {piece rest : List UInt8} (hahead : ahead m = piece ++ rest)
    (hp : p (piece ++ rest) = .ok a rest) :
    Machine.scan p m = .ok a (goTo m (m.session.program.pos + piece.length)) := by
  rw [scan_apply hin, hahead, hp]
  simp

/-! ## One statement -/

/-- A machine that begins a statement. -/
def begun (m : Machine) : Machine :=
  { m with session := { m.session with statement := m.session.program.pos } }

theorem begin_apply {m : Machine} (hin : m.session.inProgram = true) :
    Machine.modifySession (fun s => { s with statement := s.stream.pos }) m = .ok () (begun m) := by
  have hstream : m.session.stream.pos = m.session.program.pos := by
    rw [Session.stream, if_pos hin]
    rfl
  simp only [Machine.modifySession, Effect.modify_apply, hstream]
  rfl

/-- What separates statements is passed before the statement is read. -/
theorem boundary_of_chunk {lines : List TextLine} {image : List UInt8} {n : UInt16} {i : Nat}
    {lead : List UInt8} {piece : List Lexeme} {tail : List UInt8}
    (h : IsChunk lines image n i lead piece tail) (code : List UInt8) :
    ∃ b, Parse.boundary (lead ++ code) = .ok b code ∧ b ≠ .ended := by
  have hend : isBlank endLine = false := by decide
  have hcolon : isBlank colon = false := by decide
  have hne : colon ≠ endLine := by decide
  rcases h.lead_eq with ⟨link, hpos, hmax, rfl⟩ | rfl
  · refine ⟨.line n, ?_, by simp⟩
    have hmarker := Program.lineMarker_link n code hpos hmax
    rw [List.append_assoc] at hmarker
    simp only [Parse.boundary, Effect.bind_apply, Scan.next?_apply, List.cons_append,
      List.dropWhile_cons, hend]
    simp [hmarker]
  · exact ⟨.inLine, by simp [Parse.boundary, hcolon, hne], by simp⟩

/-- The machine runs the statement that comes next in its program. -/
theorem statement_apply {m : Machine} (hin : m.session.inProgram = true)
    (htron : m.session.tron = false) {lead code : List UInt8} (hahead : ahead m = lead ++ code)
    {b : Parse.Boundary} (hb : Parse.boundary (lead ++ code) = .ok b code) (hne : b ≠ .ended) :
    Machine.statement m =
      Machine.readAndExecute (goTo (begun m) (m.session.program.pos + lead.length)) := by
  have hscan : Machine.scan Parse.boundary (begun m) =
      .ok b (goTo (begun m) (m.session.program.pos + lead.length)) :=
    scan_of_append (m := begun m) hin hahead hb
  unfold Machine.statement
  simp only [Effect.bind_apply, begin_apply hin, hscan]
  cases b with
  | ended => exact absurd rfl hne
  | inLine => rfl
  | line number =>
    have htron' : (goTo (begun m) (m.session.program.pos + lead.length)).session.tron = false := htron
    simp [htron']

/-! ## Corresponding states -/

/-- A machine on code stands where a machine on text does. -/
structure Matches (lines : List TextLine) (s : State) (m : Machine) : Prop where
  lines_eq : m.session.program.lines = lines.map TextLine.line
  inProgram : m.session.inProgram = true
  tron : m.session.tron = false
  active : m.session.trap.active = none
  pos : m.session.program.pos = place lines s.position
  limit : m.session.gosub.limit = maxDepth
  items : m.session.gosub.items = s.stack.map fun p => ⟨place lines p, true, none⟩
  vars : m.session.vars = s.vars
  console : m.console = s.console
  err : m.session.trap.err = s.err
  erl : m.session.erl = s.erl
  position : IsPosition lines s.position
  stack : ∀ p ∈ s.stack, IsPosition lines p

/-- A machine on code has stopped at the statement at which a machine on text has. -/
structure Stopped (lines : List TextLine) (s : State) (m : Machine) : Prop where
  statement : m.session.statement = place lines s.position
  items : m.session.gosub.items = s.stack.map fun p => ⟨place lines p, true, none⟩
  vars : m.session.vars = s.vars
  console : m.console = s.console

/-- A statement on code has come to the same as one on text. -/
def Agrees (lines : List TextLine) : Outcome → EStateM.Result Signal Machine Bool → Prop
  | .running s, .ok true m => Matches lines s m
  | .ended s, .ok false m => Stopped lines s m
  | .failed signal s, .error signal' m => signal' = signal ∧ Stopped lines s m
  | _, _ => False

/-- If the text goes on, so does the code. -/
theorem Agrees.of_running {lines : List TextLine} {s : State} {r : EStateM.Result Signal Machine Bool}
    (h : Agrees lines (.running s) r) : ∃ m, r = .ok true m ∧ Matches lines s m := by
  cases r with
  | error signal m => exact h.elim
  | ok goesOn m =>
    cases goesOn with
    | false => exact h.elim
    | true => exact ⟨m, rfl, h⟩

/-- If the text ends, so does the code. -/
theorem Agrees.of_ended {lines : List TextLine} {s : State} {r : EStateM.Result Signal Machine Bool}
    (h : Agrees lines (.ended s) r) : ∃ m, r = .ok false m ∧ Stopped lines s m := by
  cases r with
  | error signal m => exact h.elim
  | ok goesOn m =>
    cases goesOn with
    | false => exact ⟨m, rfl, h⟩
    | true => exact h.elim

/-- If the text fails, so does the code, with the same signal. -/
theorem Agrees.of_failed {lines : List TextLine} {signal : Signal} {s : State}
    {r : EStateM.Result Signal Machine Bool} (h : Agrees lines (.failed signal s) r) :
    ∃ m, r = .error signal m ∧ Stopped lines s m := by
  cases r with
  | error signal' m => exact ⟨m, by rw [h.1], h.2⟩
  | ok goesOn m => cases goesOn <;> exact h.elim

section

variable {lines : List TextLine} {s : State} {m : Machine}

/-- Expressions refer to the same values. -/
theorem scope_eq (h : Matches lines s m) (pos : Nat) :
    (goTo (begun m) pos).session.scope = s.scope := by
  have hscope : (goTo (begun m) pos).session.scope =
      ⟨m.session.vars, m.session.trap.err, m.session.erl⟩ := rfl
  rw [hscope, h.vars, h.err, h.erl]
  rfl

/-- A statement is read, then executed from the next position on. -/
theorem statement_of_chunk (h : Matches lines s m) {n : UInt16} {i : Nat}
    (hpos : s.position = some (n, i)) {lead : List UInt8} {piece : List Lexeme} {tail : List UInt8}
    (hchunk : IsChunk lines m.session.program.image n i lead piece tail)
    (hforeign : command (strip piece) ≠ .foreign) :
    match (command (strip piece)).read s.scope with
    | .ok st => Machine.statement m = st.execute (goTo (begun m) (place lines (next lines n i)))
    | .error err => ∃ pos, Machine.statement m = .error (.error err) (goTo (begun m) pos) := by
  have hplace : m.session.program.pos = place lines (some (n, i)) := by rw [h.pos, hpos]
  have hahead : ahead m = lead ++ (encode false piece ++ tail) := by
    rw [ahead, hplace]
    exact hchunk.drop_eq
  obtain ⟨b, hb, hne⟩ := boundary_of_chunk hchunk (encode false piece ++ tail)
  rw [statement_apply h.inProgram h.tron hahead hb hne]
  have hahead' : ahead (goTo (begun m) (m.session.program.pos + lead.length)) =
      encode false piece ++ tail := by
    show m.session.program.image.drop (m.session.program.pos + lead.length) = _
    rw [← List.drop_drop]
    show (ahead m).drop lead.length = _
    rw [hahead, List.drop_left]
  have hread := statement_reads hchunk.stops s.scope hchunk.codes hforeign
  simp only [Machine.readAndExecute, Effect.bind_apply, Effect.get_apply, scope_eq h]
  cases hresult : (command (strip piece)).read s.scope with
  | ok st =>
    rw [hresult] at hread
    have hnext : m.session.program.pos + lead.length + (encode false piece).length =
        place lines (next lines n i) := by rw [hchunk.place_next, hplace]
    have hscan : Machine.scan (Parse.statement s.scope)
        (goTo (begun m) (m.session.program.pos + lead.length)) =
        .ok st (goTo (begun m) (place lines (next lines n i))) := by
      rw [scan_of_append (m := goTo (begun m) _) h.inProgram hahead' hread, ← hnext]
      rfl
    simp only [hscan]
  | error err =>
    rw [hresult] at hread
    obtain ⟨code', hcode'⟩ := hread
    rw [scan_apply (m := goTo (begun m) _) h.inProgram, hahead', hcode']
    exact ⟨_, rfl⟩

end

/-! ## Executing a statement -/

theorem setPointer_eq (s : Session) (hin : s.inProgram = true) {pos : Nat}
    (hle : pos ≤ s.program.image.length) :
    s.setPointer true (some pos) = { s with program := { s.program with pos } } := by
  cases s
  cases hin
  have hmin := Nat.min_eq_left hle
  simp only [Session.setPointer, Session.stream, Session.moveTo, Program.stream, if_true,
    Option.getD_some] at hmin ⊢
  rw [hmin]

section

variable {lines : List TextLine} (hprint : ∀ l ∈ lines, ∀ b ∈ l.text, isPrintable b = true)

include hprint in
/-- Jumping to a line. -/
theorem jump_apply (session : Session) (hlines : session.program.lines = lines.map TextLine.line)
    (hin : session.inProgram = true) (n : UInt16) :
    Session.jump (some n) session =
      if (line? lines n).isSome then
        .ok () { session with
          program := { session.program with pos := place lines (some (n, 0)) } }
      else .error (.of .undefinedLineNumber) session := by
  simp only [Session.jump, Effect.bind_apply, Effect.get_apply, offsetOf?_eq hlines]
  by_cases hn : (line? lines n).isSome
  · have hle := place_le_length hlines hprint (isPosition_of_line? hn)
    simp [hn, setPointer_eq session hin hle]
  · simp [hn]

include hprint in
/-- Calling a subroutine. -/
theorem call_apply {session : Session} (hlines : session.program.lines = lines.map TextLine.line)
    (hin : session.inProgram = true) (n : UInt16) :
    Session.call n none session =
      if (line? lines n).isNone then .error (.of .undefinedLineNumber) session
      else match session.gosub.push ⟨session.program.pos, true, none⟩ with
        | .error e => .error e session
        | .ok gosub =>
          .ok () { session with
            gosub
            program := { session.program with pos := place lines (some (n, 0)) } } := by
  have hpush : session.gosub.push ⟨session.stream.pos, session.inProgram, none⟩ =
      session.gosub.push ⟨session.program.pos, true, none⟩ := by
    rw [Session.stream, if_pos hin, hin]
    rfl
  simp only [Session.call, Effect.bind_apply, Effect.get_apply, contains_eq hlines, hpush]
  cases hn : line? lines n with
  | none => rfl
  | some l =>
    cases session.gosub.push ⟨session.program.pos, true, none⟩ with
    | error e => rfl
    | ok gosub =>
      have hjump := jump_apply hprint { session with gosub } hlines hin n
      rw [hn] at hjump
      exact hjump

/-- Returning from a subroutine to its caller. -/
theorem return_apply {session : Session} (hin : session.inProgram = true) {pos : Nat}
    {rest : List GosubFrame} (hitems : session.gosub.items = ⟨pos, true, none⟩ :: rest)
    (hle : pos ≤ session.program.image.length) :
    Session.return none session =
      .ok () { session with
        gosub := { session.gosub with items := rest }
        program := { session.program with pos } } := by
  have hpointer := setPointer_eq { session with gosub := { session.gosub with items := rest } } hin hle
  simp only [Session.return, Effect.bind_apply, Effect.get_apply, BoundedStack.pop?, hitems]
  exact congrArg (EStateM.Result.ok ()) hpointer

variable {s : State} {after : Position} {m : Machine}
  (hafter : Matches lines { s with position := after } m) (hstopped : Stopped lines s m)

include hafter hstopped

/-- An assignment does the same to the text and to the code. -/
theorem assign_agrees (name : String) {e : Expr} {v : Value} (he : e.eval s.scope = .ok v) :
    Agrees lines (perform lines s after (.assign name e)) ((Statement.assign name v).execute m) := by
  have hstore : (do s.vars.store name (← e.eval s.scope) : Except BasicError Variables) =
      s.vars.store name v := by rw [he]; rfl
  simp only [perform, hstore, Statement.execute, Statement.assignVariable, Effect.bind_apply,
    Effect.get_apply, hstopped.vars]
  cases s.vars.store name v with
  | error err => exact ⟨rfl, hstopped⟩
  | ok vars => exact { hafter with vars := rfl }

/-- So does `PRINT` on the console. -/
theorem print_agrees {items : List PrintItem} {text : String}
    (htext : printText s.scope true "" items = .ok text) :
    Agrees lines (perform lines s after (.print items)) ((Statement.print none text).execute m) := by
  simp only [perform, htext, Statement.execute, Statement.printTo, Machine.write, Machine.output,
    Effect.bind_apply, Effect.get_apply, Effect.set_apply, hstopped.console]
  cases s.console.write text with
  | mk succeeded console =>
    cases succeeded with
    | true => exact { hafter with console := rfl }
    | false => exact ⟨rfl, { hstopped with console := rfl }⟩

include hprint

/-- So does `GOTO`. -/
theorem goto_agrees (n : UInt16) :
    Agrees lines (perform lines s after (.goto n)) ((Statement.goto n).execute m) := by
  simp only [perform, Statement.execute, Effect.bind_apply, Machine.onSession,
    jump_apply hprint m.session hafter.lines_eq hafter.inProgram]
  split
  · exact { hafter with pos := rfl, position := isPosition_of_line? ‹_› }
  · exact ⟨rfl, hstopped⟩

/-- So does `GOSUB`. -/
theorem gosub_agrees (n : UInt16) :
    Agrees lines (perform lines s after (.gosub n)) ((Statement.gosub n).execute m) := by
  simp only [perform, Statement.execute, Effect.bind_apply, Machine.onSession,
    call_apply hprint hafter.lines_eq hafter.inProgram]
  by_cases hn : (line? lines n).isNone
  · rw [if_pos hn, if_pos hn]
    exact ⟨rfl, hstopped⟩
  · have hsome : (line? lines n).isSome := Option.isSome_iff_ne_none.2 (by simpa using hn)
    have hfull : m.session.gosub.limit < m.session.gosub.items.length + 1 ↔
        maxDepth ≤ s.stack.length := by
      rw [hafter.limit, hafter.items, List.length_map, Nat.lt_succ_iff]
    by_cases hdepth : maxDepth ≤ s.stack.length
    · simp only [hn, BoundedStack.push, if_pos (hfull.2 hdepth), if_pos hdepth]
      exact ⟨rfl, hstopped⟩
    · simp only [hn, BoundedStack.push, if_neg (mt hfull.1 hdepth), if_neg hdepth]
      exact { hafter with
        pos := rfl
        items := by simp [hafter.items, hafter.pos]
        position := isPosition_of_line? hsome
        stack := fun p hp => by
          rcases List.mem_cons.1 hp with rfl | hp
          · exact hafter.position
          · exact hafter.stack p hp }

/-- So does `RETURN` without a line. -/
theorem return_agrees :
    Agrees lines (perform lines s after (.returnTo none)) ((Statement.returnTo none).execute m) := by
  have hitems := hafter.items
  have hvalid := hafter.stack
  simp only [perform, Statement.execute, Effect.bind_apply, Machine.onSession]
  cases hstack : s.stack with
  | nil =>
    simp only [hstack, List.map_nil] at hitems
    simp only [Session.return, Effect.bind_apply, Effect.get_apply, BoundedStack.pop?, hitems]
    exact ⟨rfl, hstopped⟩
  | cons caller rest =>
    simp only [hstack, List.map_cons] at hitems hvalid
    have hcaller := hvalid caller List.mem_cons_self
    rw [return_apply hafter.inProgram hitems (place_le_length hafter.lines_eq hprint hcaller)]
    exact { hafter with
      pos := rfl
      items := rfl
      position := hcaller
      stack := fun p hp => hvalid p (List.mem_cons_of_mem _ hp) }

/-- A statement that is read does to the machine what it says. -/
theorem execute_agrees {c : Command} {st : Statement} (hread : c.read s.scope = .ok st) :
    Agrees lines (perform lines s after c) (st.execute m) := by
  cases c with
  | nothing => cases hread; exact hafter
  | comment => cases hread; exact hafter
  | assign name e =>
    obtain ⟨v, he, hst⟩ := Effect.bind_eq_ok.1 hread
    cases hst
    exact assign_agrees hafter hstopped name he
  | print items =>
    obtain ⟨text, htext, hst⟩ := Effect.bind_eq_ok.1 hread
    cases hst
    exact print_agrees hafter hstopped htext
  | goto line => cases hread; exact goto_agrees hprint hafter hstopped line
  | gosub line => cases hread; exact gosub_agrees hprint hafter hstopped line
  | returnTo line =>
    cases line with
    | none => cases hread; exact return_agrees hprint hafter hstopped
    | some line => cases hread
  | endProgram => cases hread; exact { hstopped with }
  | broken e =>
    cases e with
    | none => cases hread
    | some e =>
      obtain ⟨v, -, hst⟩ := Effect.bind_eq_ok.1 hread
      cases hst
  | foreign => cases hread

end

/-- A statement that is not read fails, unless it is a `RETURN` with a line. -/
theorem perform_of_read_error (lines : List TextLine) {s : State} (after : Position) {c : Command}
    {err : BasicError} (hread : c.read s.scope = .error err)
    (hreturn : ∀ line, c ≠ .returnTo (some line)) :
    perform lines s after c = .failed (.error err) s := by
  cases c with
  | assign name e =>
    rcases Effect.bind_eq_error.1 hread with he | ⟨v, -, hst⟩
    · simp only [perform, he]
      rfl
    · cases hst
  | print items =>
    rcases Effect.bind_eq_error.1 hread with htext | ⟨text, -, hst⟩
    · simp only [perform, htext]
    · cases hst
  | returnTo line =>
    cases line with
    | none => cases hread
    | some line => exact absurd rfl (hreturn line)
  | broken e =>
    cases e with
    | none => cases hread; rfl
    | some e =>
      rcases Effect.bind_eq_error.1 hread with he | ⟨v, he, hst⟩
      · simp only [perform, he]
      · cases hst
        simp only [perform, he]
        rfl
  | foreign => cases hread; rfl
  | _ => cases hread

/-! ## One step -/

section

variable {lines : List TextLine} {s : State} {m : Machine}

theorem matches_after (h : Matches lines s m) {after : Position} (hafter : IsPosition lines after) :
    Matches lines { s with position := after } (goTo (begun m) (place lines after)) :=
  { h with pos := rfl, position := hafter }

theorem stopped_at (h : Matches lines s m) (pos : Nat) : Stopped lines s (goTo (begun m) pos) where
  statement := h.pos
  items := h.items
  vars := h.vars
  console := h.console

/-- The end of the program. -/
theorem end_agrees (h : Matches lines s m) (hpos : s.position = none) :
    Agrees lines (step lines s) (Machine.statement m) := by
  have hahead : ahead (begun m) = [0, 0, 0] := by
    show m.session.program.image.drop m.session.program.pos = _
    rw [h.pos, hpos, drop_place_none h.lines_eq]
  have hscan : Machine.scan Parse.boundary (begun m) =
      .ok .ended (goTo (begun m) (m.session.program.pos + 1)) := by
    rw [scan_apply (m := begun m) h.inProgram, hahead]
    rfl
  have hactive : (goTo (begun m) (m.session.program.pos + 1)).session.trap.isHandling = false := by
    show m.session.trap.active.isSome = false
    rw [h.active]
    rfl
  have hstep : step lines s = .ended s := by
    rw [step, hpos]
  rw [hstep]
  unfold Machine.statement
  simp only [Effect.bind_apply, begin_apply h.inProgram, hscan]
  simp only [Machine.endOfCode, Effect.bind_apply, Effect.get_apply, hactive]
  exact stopped_at h _

/-- Whether a `RETURN` with a line comes next. -/
def ReturnsToLine (lines : List TextLine) (s : State) : Prop :=
  ∃ n i line, s.position = some (n, i) ∧ commandAt? lines n i = some (.returnTo (some line))

variable (hprint : ∀ l ∈ lines, ∀ b ∈ l.text, isPrintable b = true)
  (hknown : ∀ l ∈ lines, .foreign ∉ l.commands)

include hprint hknown

/-- The statement that comes next is read and executed. -/
theorem statement_of_command (h : Matches lines s m) {n : UInt16} {i : Nat} {c : Command}
    (hpos : s.position = some (n, i)) (hat : commandAt? lines n i = some c) :
    match c.read s.scope with
    | .ok st => Machine.statement m = st.execute (goTo (begun m) (place lines (next lines n i)))
    | .error err => ∃ pos, Machine.statement m = .error (.error err) (goTo (begun m) pos) := by
  obtain ⟨lead, piece, tail, rfl, hchunk⟩ := exists_chunk h.lines_eq hprint hat
  refine statement_of_chunk h hpos hchunk fun hforeign => ?_
  obtain ⟨l, hl, hc⟩ := Option.bind_eq_some_iff.1 hat
  rw [hforeign] at hc
  exact hknown l (List.mem_of_find?_eq_some hl) (List.mem_of_getElem? hc)

/-- Every statement but `RETURN` with a line does what it says. -/
theorem step_agrees (h : Matches lines s m) (hreturn : ¬ ReturnsToLine lines s) :
    Agrees lines (step lines s) (Machine.statement m) := by
  cases hpos : s.position with
  | none => exact end_agrees h hpos
  | some here =>
    obtain ⟨n, i⟩ := here
    have hvalid := h.position
    rw [hpos] at hvalid
    obtain ⟨c, hat⟩ := Option.isSome_iff_exists.1 hvalid
    have hstep : step lines s = perform lines s (next lines n i) c := by
      rw [step, hpos]
      simp only [hat]
    have hstatement := statement_of_command hprint hknown h hpos hat
    rw [hstep]
    cases hread : c.read s.scope with
    | ok st =>
      simp only [hread] at hstatement
      rw [hstatement]
      exact execute_agrees hprint (matches_after h (isPosition_next lines n i)) (stopped_at h _) hread
    | error err =>
      simp only [hread] at hstatement
      obtain ⟨pos, hrun⟩ := hstatement
      rw [hrun, perform_of_read_error lines _ hread fun line hc =>
        hreturn ⟨n, i, line, hpos, hc ▸ hat⟩]
      exact ⟨rfl, stopped_at h pos⟩

/-- A `RETURN` with a line is a syntax error to the machine on code. -/
theorem step_disagrees (h : Matches lines s m) (hreturn : ReturnsToLine lines s) :
    ¬ Agrees lines (step lines s) (Machine.statement m) := by
  obtain ⟨n, i, line, hpos, hat⟩ := hreturn
  obtain ⟨pos, hrun⟩ := statement_of_command hprint hknown h hpos hat
  have hstep : step lines s = perform lines s (next lines n i) (.returnTo (some line)) := by
    rw [step, hpos]
    simp only [hat]
  rw [hrun, hstep]
  simp only [perform]
  cases s.stack with
  | nil => exact fun hagrees => absurd hagrees.1 (by decide)
  | cons caller stack =>
    simp only
    split
    · exact id
    · exact fun hagrees => absurd hagrees.1 (by decide)

end

/-- A program without a `RETURN` that has a line never comes to one. -/
theorem not_returnsToLine {lines : List TextLine}
    (h : ∀ l ∈ lines, ∀ n, .returnTo (some n) ∉ l.commands) (s : State) : ¬ ReturnsToLine lines s := by
  rintro ⟨n, i, line, -, hat⟩
  obtain ⟨l, hl, hc⟩ := Option.bind_eq_some_iff.1 hat
  exact h l (List.mem_of_find?_eq_some hl) line (List.mem_of_getElem? hc)

/-! ## Any number of steps -/

/-- Runs a number of statements, or fewer if execution ends or fails. -/
def calls : Nat → Machine → EStateM.Result Signal Machine Bool
  | 0, m => .ok true m
  | k + 1, m =>
    match calls k m with
    | .ok true m => Machine.statement m
    | result => result

/-- The machine on text that stands at the start of a program, with the variables and the console of a
machine on code. -/
def atStart (lines : List TextLine) (m : Machine) : State where
  position := start lines
  stack := []
  vars := m.session.vars
  console := m.console
  err := m.session.trap.err
  erl := m.session.erl

section

variable {lines : List TextLine} {s : State} {m : Machine}
  (hprint : ∀ l ∈ lines, ∀ b ∈ l.text, isPrintable b = true)
  (hknown : ∀ l ∈ lines, .foreign ∉ l.commands)

include hprint hknown

/-- As long as no `RETURN` with a line is performed, the machines agree. -/
theorem run_agrees (h : Matches lines s m) {n : Nat}
    (hreturn : ∀ k < n, ∀ t, run lines k s = .running t → ¬ ReturnsToLine lines t) :
    Agrees lines (run lines n s) (calls n m) := by
  induction n with
  | zero => exact h
  | succ n ih =>
    have ih := ih fun k hk => hreturn k (Nat.lt_succ_of_lt hk)
    rw [run, calls]
    cases hrun : run lines n s with
    | running t =>
      rw [hrun] at ih
      obtain ⟨m', hcalls, hmatches⟩ := ih.of_running
      rw [hcalls]
      exact step_agrees hprint hknown hmatches (hreturn n (Nat.lt_succ_self n) t hrun)
    | ended t =>
      rw [hrun] at ih
      obtain ⟨m', hcalls, hstopped⟩ := ih.of_ended
      rw [hcalls]
      exact hstopped
    | failed signal t =>
      rw [hrun] at ih
      obtain ⟨m', hcalls, hstopped⟩ := ih.of_failed
      rw [hcalls]
      exact ⟨rfl, hstopped⟩

/-- The machines agree exactly up to the first `RETURN` with a line. -/
theorem run_agrees_iff (h : Matches lines s m) (n : Nat) :
    (∀ k ≤ n, Agrees lines (run lines k s) (calls k m)) ↔
      ∀ k < n, ∀ t, run lines k s = .running t → ¬ ReturnsToLine lines t := by
  constructor
  · intro hagrees k hk t hrun hreturn
    have hbefore := hagrees k (Nat.le_of_lt hk)
    have hafter := hagrees (k + 1) hk
    rw [hrun] at hbefore
    obtain ⟨m', hcalls, hmatches⟩ := hbefore.of_running
    rw [run, calls, hrun, hcalls] at hafter
    exact step_disagrees hprint hknown hmatches hreturn hafter
  · intro hreturn k hk
    exact run_agrees hprint hknown h fun j hj => hreturn j (Nat.lt_of_lt_of_le hj hk)

end

/-! ## From the start of a program -/

/-- A machine with a program that nothing has been run of: not traced, in no handler, in no subroutine. -/
structure Ready (p : Program) (m : Machine) : Prop where
  program : m.session.program = p
  tron : m.session.tron = false
  active : m.session.trap.active = none
  limit : m.session.gosub.limit = maxDepth
  items : m.session.gosub.items = []

/-- A new machine with a program. -/
def fresh (p : Program) : Machine :=
  { session := { program := p } }

theorem ready_fresh (p : Program) : Ready p (fresh p) :=
  ⟨rfl, rfl, rfl, rfl, rfl⟩

/-- The jump to the start of the program. -/
theorem matches_start {lines : List TextLine} {p : Program} {m : Machine}
    (hlines : p.lines = lines.map TextLine.line) (h : Ready p m) :
    ∃ m₀, Machine.onSession (Session.jump none) m = .ok () m₀ ∧ Matches lines (atStart lines m) m₀ := by
  have hjump : Machine.onSession (Session.jump none) m =
      .ok () { m with session := m.session.setPointer true (some 0) } := rfl
  have hpointer : m.session.setPointer true (some 0) =
      { m.session with inProgram := true, program := { m.session.program with pos := 0 } } := by
    simp [Session.setPointer, Session.moveTo]
  rw [hpointer] at hjump
  refine ⟨_, hjump, ?_⟩
  exact {
    lines_eq := by rw [← hlines, ← h.program]
    inProgram := rfl
    tron := h.tron
    active := h.active
    pos := (place_start lines).symm
    limit := h.limit
    items := h.items
    vars := rfl
    console := rfl
    err := rfl
    erl := rfl
    position := isPosition_start lines
    stack := fun p hp => by cases hp }

/-- Statement by statement, a program loaded from printable text does what its text says, up to the first
`RETURN` with a line.  The offsets at which the code stands tell the positions in the text apart. -/
theorem statements_simulate_text_iff {bytes : List UInt8} {p : Program} {m : Machine}
    (hload : Program.load bytes = .ok p)
    (hprint : ∀ line ∈ Text.fileLines bytes, ∀ b ∈ line, isPrintable b = true)
    (hknown : ∀ l ∈ ofText bytes, .foreign ∉ l.commands) (hready : Ready p m) :
    Set.InjOn (place (ofText bytes)) {pos | IsPosition (ofText bytes) pos} ∧
      ∃ m₀, Machine.onSession (Session.jump none) m = .ok () m₀ ∧ ∀ n,
        (∀ k ≤ n, Agrees (ofText bytes) (run (ofText bytes) k (atStart (ofText bytes) m))
          (calls k m₀)) ↔
        ∀ k < n, ∀ t, run (ofText bytes) k (atStart (ofText bytes) m) = .running t →
          ¬ ReturnsToLine (ofText bytes) t := by
  obtain ⟨hlines, -, hprintable⟩ := lines_of_load_text hload hprint
  obtain ⟨m₀, hjump, hmatches⟩ := matches_start hlines hready
  refine ⟨?_, m₀, hjump, run_agrees_iff hprintable hknown hmatches⟩
  intro pos hpos pos' hpos' heq
  exact place_injective (hlines ▸ p.ascending) hprintable hpos hpos' heq

/-- A loop around a subroutine that counts. -/
def countingText : List UInt8 :=
  Text.utf8 "10 GOSUB 30\n20 GOTO 10 'again\n30 A=A+1:PRINT A;:RETURN"

/-- The machines agree for ever, since no `RETURN` has a line. -/
theorem counting_simulates_text :
    ∃ p m₀, Program.load countingText = .ok p ∧
      Machine.onSession (Session.jump none) (fresh p) = .ok () m₀ ∧
      ∀ k, Agrees (ofText countingText)
        (run (ofText countingText) k (atStart (ofText countingText) (fresh p))) (calls k m₀) := by
  have hlines : Text.fileLines countingText =
      ["10 GOSUB 30", "20 GOTO 10 'again", "30 A=A+1:PRINT A;:RETURN"].map Text.utf8 := by
    rw [countingText]
    cbv
  have hcodes : ["10 GOSUB 30", "20 GOTO 10 'again", "30 A=A+1:PRINT A;:RETURN"].map Crunch.line =
      [[0, 0xC0, 0xDE, 10, 0, 0x8D, 0x20, 0x0E, 30, 0, 0],
        [0, 0xC0, 0xDE, 20, 0, 0x89, 0x20, 0x0E, 10, 0, 0x20, 0x3A, 0x8F, 0x27, 0x61, 0x67, 0x61,
          0x69, 0x6E, 0],
        [0, 0xC0, 0xDE, 30, 0, 0x41, 0xE7, 0x41, 0xE9, 0x12, 0x3A, 0x91, 0x20, 0x41, 0x3B, 0x3A,
          0x8E, 0]] := by cbv
  have hload : ∃ p, Program.load countingText = .ok p := by
    rw [Program.load_eq_foldlM hlines (by cbv), hcodes]
    exact ⟨_, rfl⟩
  have hprint : ((Text.fileLines countingText).all fun line => line.all isPrintable) = true := by
    rw [hlines]
    cbv
  have hcommands : (ofText countingText).map TextLine.commands =
      [[.gosub 30], [.goto 10, .comment],
        [assignment [.name [0x41], .operator .equal, .name [0x41], .operator .plus, .whole [0x31]],
          .print (printItems [.name [0x41], .symbol semicolon]), .returnTo none]] := by
    rw [ofText, hlines]
    cbv
  have hmem : ∀ l ∈ ofText countingText, ∀ c ∈ l.commands,
      c ≠ .foreign ∧ ∀ n, c ≠ .returnTo (some n) := by
    intro l hl c hc
    have hmem := List.mem_map_of_mem (f := TextLine.commands) hl
    rw [hcommands] at hmem
    have hassign := assignment_cases
      [.name [0x41], .operator .equal, .name [0x41], .operator .plus, .whole [0x31]]
    grind
  obtain ⟨p, hload⟩ := hload
  obtain ⟨-, m₀, hjump, hiff⟩ := statements_simulate_text_iff hload (by simpa using hprint)
    (fun l hl hc => (hmem l hl _ hc).1 rfl) (ready_fresh p)
  refine ⟨p, m₀, hload, hjump, fun k => (hiff k).2 (fun _ _ t _ => ?_) k (Nat.le_refl k)⟩
  exact not_returnsToLine (fun l hl n hc => (hmem l hl _ hc).2 n rfl) t

/-- A subroutine that returns to a line. -/
def returningText : List UInt8 :=
  Text.utf8 "10 GOSUB 100\n20 END\n100 RETURN 20"

/-- The text goes on at line 20, where the code has a syntax error. -/
theorem return_to_line_fails :
    ∃ p m₀ s m, Program.load returningText = .ok p ∧
      Machine.onSession (Session.jump none) (fresh p) = .ok () m₀ ∧
      run (ofText returningText) 2 (atStart (ofText returningText) (fresh p)) = .running s ∧
      s.position = some (20, 0) ∧ calls 2 m₀ = .error (.raise .syntaxError) m := by
  have hlines : Text.fileLines returningText =
      ["10 GOSUB 100", "20 END", "100 RETURN 20"].map Text.utf8 := by
    rw [returningText]
    cbv
  have hcodes : ["10 GOSUB 100", "20 END", "100 RETURN 20"].map Crunch.line =
      [[0, 0xC0, 0xDE, 10, 0, 0x8D, 0x20, 0x0E, 100, 0, 0], [0, 0xC0, 0xDE, 20, 0, 0x81, 0],
        [0, 0xC0, 0xDE, 100, 0, 0x8E, 0x20, 0x0F, 20, 0]] := by cbv
  have hload : ∃ p, Program.load returningText = .ok p := by
    rw [Program.load_eq_foldlM hlines (by cbv), hcodes]
    exact ⟨_, rfl⟩
  have hprint : ((Text.fileLines returningText).all fun line => line.all isPrintable) = true := by
    rw [hlines]
    cbv
  have htext : ofText returningText =
      [⟨10, Text.utf8 "GOSUB 100"⟩, ⟨20, Text.utf8 "END"⟩, ⟨100, Text.utf8 "RETURN 20"⟩] := by
    rw [ofText, hlines]
    cbv
  have hcommands : (ofText returningText).map TextLine.commands =
      [[.gosub 100], [.endProgram], [.returnTo (some 20)]] := by
    rw [htext]
    cbv
  have hknown : ∀ l ∈ ofText returningText, .foreign ∉ l.commands := by
    intro l hl
    have hmem := List.mem_map_of_mem (f := TextLine.commands) hl
    rw [hcommands] at hmem
    grind
  simp only [htext, List.map_cons, List.map_nil, List.cons.injEq, and_true] at hcommands
  obtain ⟨h₁₀, h₂₀, h₁₀₀⟩ := hcommands
  have hgosub : commandAt? (ofText returningText) 10 0 = some (.gosub 100) := by
    simp [commandAt?, line?, htext, h₁₀]
  have hreturn : commandAt? (ofText returningText) 100 0 = some (.returnTo (some 20)) := by
    simp [commandAt?, line?, htext, h₁₀₀]
  obtain ⟨p, hload⟩ := hload
  obtain ⟨hps, -, hprintable⟩ := lines_of_load_text hload (by simpa using hprint)
  obtain ⟨m₀, hjump, hmatches⟩ := matches_start hps (ready_fresh p)
  have hcalled : Agrees (ofText returningText)
      (run (ofText returningText) 1 (atStart (ofText returningText) (fresh p))) (calls 1 m₀) := by
    refine step_agrees hprintable hknown hmatches ?_
    rintro ⟨n, i, line, hpos, hat⟩
    rw [atStart, htext] at hpos
    cases hpos
    rw [hgosub] at hat
    cases hat
  have hrun : run (ofText returningText) 1 (atStart (ofText returningText) (fresh p)) =
      .running { atStart (ofText returningText) (fresh p) with
        position := some (100, 0), stack := [some (20, 0)] } := by
    have hstart : start (ofText returningText) = some (10, 0) := by rw [htext]; rfl
    have hnext : next (ofText returningText) 10 0 = some (20, 0) := by
      simp [next, commandAt?, line?, htext, h₁₀]
    have hline : (line? (ofText returningText) 100).isNone = false := by simp [line?, htext]
    simp [run, step, atStart, hstart, hgosub, perform, hline, hnext, maxDepth]
  rw [hrun] at hcalled
  obtain ⟨m₁, hcalls, hmatches₁⟩ := hcalled.of_running
  obtain ⟨pos, hfails⟩ := statement_of_command hprintable hknown hmatches₁ rfl hreturn
  have hresult : calls 2 m₀ = .error (.raise .syntaxError) (goTo (begun m₁) pos) := by
    rw [calls, hcalls]
    exact hfails
  refine ⟨p, m₀, { atStart (ofText returningText) (fresh p) with
    position := some (20, 0) }, _, hload, hjump, ?_, rfl, hresult⟩
  have hline : (line? (ofText returningText) 20).isSome = true := by simp [line?, htext]
  rw [run, hrun]
  simp [step, atStart, hreturn, perform, hline]

end LineBasic.Source

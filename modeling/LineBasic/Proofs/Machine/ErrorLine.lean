import LineBasic.Proofs.Machine.Malformed
import LineBasic.Proofs.Machine.ResumeNext
import LineBasic.Proofs.Session.Memory

/-!
# The line of an error

The line of an error is found from how far the code has been read: the byte before that is one of the
line.  Since a statement is never read beyond the end of its line, this is the line of the statement.

* `Program.Reading`: a statement that is about to be read, in its line.
* `Program.boundary_cases`: at a boundary a statement is about to be read, or the program has ended.
* `Machine.bare_of_statement_error`: where a statement fails, and with what.
* `Machine.error_in_statement_line`: `ERL` and the report of an error name the line of the statement.
-/

namespace LineBasic

open Token Code Scan

namespace Program

/-! ## Reading in a line -/

/-- From `pos` on a statement of the line `l` is read, of which `left` is left; `t` comes after the line. -/
structure Reading (p : Program) (pos : Nat) (l : Line) (left t : List UInt8) : Prop where
  typed : Typed left
  inLine : ∃ before after, p.lines = before ++ l :: after ∧ extent before ≤ pos ∧
    pos + left.length < extent before + l.size ∧
    p.image.length = extent before + l.size + (endLine :: t).length

namespace Reading

variable {p : Program} {pos : Nat} {l : Line} {left t : List UInt8}

theorem lineAt?_start (h : p.Reading pos l left t) : p.lineAt? pos = some l.number := by
  obtain ⟨before, after, hlines, hstart, hstop, -⟩ := h.inLine
  exact lineAt?_of_append hlines hstart fun _ => by omega

/-- The byte before a place that has been reached in the line. -/
theorem lineAt?_reached (h : p.Reading pos l left t) {rest : List UInt8}
    (hrest : Within left t rest) :
    p.lineAt? (pos + ((p.image.drop pos).length - rest.length) - 1) = some l.number := by
  obtain ⟨before, after, hlines, hstart, hstop, hlength⟩ := h.inLine
  obtain ⟨left', rfl, hsuffix⟩ := hrest
  have hle := hsuffix.length_le
  rw [List.length_drop, List.length_append, hlength]
  exact lineAt?_of_append hlines (by omega) fun _ => by omega

end Reading

theorem length_of_segment {p : Program} {B : Nat → Prop} {before : List Line} {l : Line} {t : List UInt8}
    (h : Segment p.image B (extent before + 5) l.body t) :
    p.image.length = extent before + l.size + (endLine :: t).length := by
  have hlength := congrArg List.length h.drop_eq
  rw [List.length_drop, List.length_append] at hlength
  rw [Line.size]
  simp only [List.length_cons] at hlength ⊢
  omega

/-- At a boundary the program has ended, or a statement is about to be read. -/
theorem boundary_cases {p : Program} (htyped : ∀ l ∈ p.lines, Typed l.body) {pos : Nat}
    (hpos : IsBoundary p.lines pos) :
    (∃ rest, Parse.boundary (p.image.drop pos) = .ok .ended rest ∧ extent p.lines ≤ pos ∧
      extent p.lines < pos + ((p.image.drop pos).length - rest.length)) ∨
    ∃ b l left t, Parse.boundary (p.image.drop pos) = .ok b (left ++ endLine :: t) ∧ b ≠ .ended ∧
      p.Reading pos l left t := by
  cases hpos with
  | ended =>
    refine .inl ⟨[], ?_, by omega, by omega⟩
    rw [← length_image, List.drop_length]
    rfl
  | @terminator before after hlines =>
    cases after with
    | nil =>
      have hdrop : p.image.drop (extent before) = [endLine, 0, 0] := by
        rw [p.linked, hlines, drop_render]
        rfl
      refine .inl ⟨[0, 0], by rw [hdrop]; rfl, ?_, ?_⟩
      · rw [hlines, List.append_nil]
      · rw [hdrop, hlines, List.append_nil]
        simp
    | cons l after =>
      obtain ⟨a, b, lo, hi, t, hdrop, hlink, hsegment⟩ :=
        exists_segment hlines (htyped l (by simp [hlines]))
      refine .inr ⟨_, l, l.body, t, by rw [hdrop, Parse.boundary_marker hlink], by simp, hsegment.typed,
        before, after, hlines, Nat.le_refl _, ?_, length_of_segment hsegment⟩
      rw [Line.size]
      omega
  | @colon before after l code rest hlines hbody hcode =>
    obtain ⟨a, b, lo, hi, t, -, -, hsegment⟩ := exists_segment hlines (htyped l (by simp [hlines]))
    have hlength := length_of_segment hsegment
    rw [hbody] at hsegment
    have hcolon : Parse.boundary (p.image.drop (extent before + 5 + code.length)) =
        .ok .inLine (rest ++ endLine :: t) := by
      rw [hsegment.drop_append]
      rfl
    refine .inr ⟨_, l, rest, t, hcolon, by simp,
      tail_of_isPlain (by decide) (hsegment.typed_left hcode), before, after, hlines, by omega, ?_, hlength⟩
    rw [Line.size, hbody, List.length_append, List.length_cons]
    omega

/-- After the last line, and in it, the line is the last one. -/
theorem exists_last {p : Program} (hsome : p.lines ≠ []) :
    ∃ line, ∀ pos, extent p.lines ≤ pos + 1 → p.lineAt? pos = some line := by
  obtain ⟨before, l, hlines⟩ := (List.eq_nil_or_concat p.lines).resolve_left hsome
  rw [List.concat_eq_append] at hlines
  refine ⟨l.number, fun pos hpos => lineAt?_of_append hlines ?_ fun hmore => absurd rfl hmore⟩
  rw [hlines, extent_append, extent_cons, Line.size] at hpos
  omega

end Program

namespace Session

open Effect

/-! ## Placing an error -/

/-- `ERL` is the line of the place that an error is given when it is trapped. -/
theorem erl_trapError {s : Session} {e : BasicError} {offset : Nat} {line : UInt16}
    (hplace : (s.locate e).location = some (.program offset))
    (hline : s.program.lineAt? offset = some line) : (left (trapError e s)).erl = line := by
  have hnoted : (s.noted e).erl = line := by
    simp [erl, noted, hplace, hline]
  obtain hleft | ⟨pos, hleft⟩ := left_trapError_cases e s
  · rw [hleft, hnoted]
  · rw [hleft]
    exact hnoted

theorem lineAt?_trapError (e : BasicError) (s : Session) (offset : Nat) :
    (left (trapError e s)).program.lineAt? offset = s.program.lineAt? offset := by
  obtain hleft | ⟨pos, hleft⟩ := left_trapError_cases e s
  · rw [hleft]
    rfl
  · rw [hleft]
    rfl

end Session

/-! ## Errors of statements -/

/-- A statement that fails when it is executed has been read to somewhere in its line. -/
theorem Parse.Finished.failsIn_of_execute {left t rest : List UInt8} {st : Statement} {m m' : Machine}
    {e : BasicError} (h : Finished left t (.ok st rest)) (hagain : st ≠ .onError 0)
    (hexecute : st.execute m = .error (.error e) m') : FailsIn left t e rest := by
  cases h with
  | ended hflaw hpasses _ =>
    have hformed : st.isMalformed = false := by
      rw [st.isMalformed_eq_isSome, hflaw]
      rfl
    obtain ⟨code, -, rfl⟩ := Statement.exists_of_execute hformed hagain hexecute
    exact ⟨⟨code, rfl⟩, hpasses.within⟩
  | malformed hflaw hfails =>
    rw [Statement.execute_of_flaw? hflaw] at hexecute
    cases hexecute
    exact hfails

namespace Machine

open Effect

/-- A statement that fails has been read to somewhere in its line, and names a condition only. -/
theorem bare_of_statement_error {m m' : Machine} {e : BasicError} {b : Parse.Boundary}
    {left t : List UInt8} (hb : Parse.boundary m.session.stream.rest = .ok b (left ++ endLine :: t))
    (hmore : b ≠ .ended) (hleft : Typed left) (h : statement m = .error (.error e) m')
    (hagain : ¬ m.Upcoming (.onError 0)) :
    (∃ code, e = .of code) ∧ ∃ rest console, Within left t rest ∧
      m'.session.program = (m.reading
        (m.session.stream.pos + (m.session.stream.rest.length - rest.length)) console).session.program := by
  obtain ⟨b', before, hb', hsuffix⟩ := Parse.boundary_ok m.session.stream.rest
  rw [hb] at hb'
  cases hb'
  obtain ⟨console, hread | hfault⟩ := statement_of_more hb hmore
  · have hfinished := Parse.finishes_statement m.session.scope t hleft
    have happly := readAndExecute_apply m _ console _ (rest_of_suffix console hsuffix)
    rw [← hread, h] at happly
    -- how far the boundary and the statement have been read together
    have hoffset {rest : List UInt8} (hrest : Within left t rest) :
        m.session.stream.pos + (m.session.stream.rest.length - (left ++ endLine :: t).length) +
          ((left ++ endLine :: t).length - rest.length) =
        m.session.stream.pos + (m.session.stream.rest.length - rest.length) := by
      have hlength := hsuffix.length_le
      have hle := hrest.length_le
      omega
    cases hst : Parse.statement m.session.scope (left ++ endLine :: t) with
    | error e' rest =>
      rw [hst] at happly hfinished
      obtain ⟨hbare, hwithin⟩ : FailsIn left t e' rest := by
        cases hfinished with
        | failed hfails => exact hfails
      cases happly
      exact ⟨hbare, rest, console, hwithin, by rw [hoffset hwithin]⟩
    | ok st rest =>
      rw [hst] at happly hfinished
      obtain ⟨hprogram, -⟩ := (Statement.abandoned_of_execute happly.symm).stays
      have hother : st ≠ .onError 0 := by
        rintro rfl
        exact hagain ⟨_, _, b, hb, hmore, hst⟩
      obtain ⟨hbare, hwithin⟩ := hfinished.failsIn_of_execute hother happly.symm
      rw [hoffset hwithin] at hprogram
      exact ⟨hbare, rest, console, hwithin, hprogram⟩
  · rw [h] at hfault
    cases hfault

/-- The place that the error of a statement is given is in the line of the statement. -/
theorem exists_place_of_statement_error {m m' : Machine} {e : BasicError}
    (htyped : ∀ l ∈ m.session.program.lines, Typed l.body) (hsome : m.session.program.lines ≠ [])
    (hrun : m.session.inProgram = true)
    (hplace : Program.IsBoundary m.session.program.lines m.session.program.pos)
    (h : statement m = .error (.error e) m') (hagain : ¬ m.Upcoming (.onError 0)) :
    ∃ offset line, (m'.session.locate e).location = some (.program offset) ∧
      (m'.session.locate e).line = none ∧ m'.session.program.lineAt? offset = some line ∧
      m'.session.program.lineAt? m.session.program.pos = some line := by
  have hrest : m.session.program.image.drop m.session.program.pos = m.session.stream.rest := by
    rw [Session.stream_of_inProgram hrun]
    rfl
  have hpos : m.session.stream.pos = m.session.program.pos := by
    rw [Session.stream_of_inProgram hrun]
    rfl
  have hprogram (pos : Nat) (console : Console) :
      (m.reading pos console).session.program = { m.session.program with pos } := by
    simp [reading, Session.moveTo, hrun]
  have hrun' : m'.session.inProgram = true := (place_of_statement_error h).2.trans hrun
  obtain ⟨rest, hb, hstart, hended⟩ | ⟨b, l, left, t, hb, hmore, hreading⟩ :=
    Program.boundary_cases htyped hplace
  · -- nothing is left to run, and an error handler has not been left
    obtain ⟨line, hlast⟩ := Program.exists_last hsome
    rw [hrest] at hb hended
    have hend := (statement_of_boundary hb).symm.trans h
    obtain herror | hok := endOfCode_cases (m.reading
      (m.session.stream.pos + (m.session.stream.rest.length - rest.length)) m.console)
    · cases herror.symm.trans hend
      rw [if_pos hrun', hprogram]
      refine ⟨_, line, rfl, rfl, hlast _ ?_, hlast _ (by omega)⟩
      rw [hpos]
      dsimp only
      omega
    · cases hok.symm.trans hend
  · rw [hrest] at hb
    obtain ⟨⟨code, rfl⟩, rest, console, hwithin, hat⟩ :=
      bare_of_statement_error hb hmore hreading.typed h hagain
    have hreached := hreading.lineAt?_reached hwithin
    rw [hrest] at hreached
    rw [hprogram, hpos] at hat
    have hline (pos : Nat) : m'.session.program.lineAt? pos = m.session.program.lineAt? pos := by
      rw [hat]
      rfl
    refine ⟨_, l.number, ?_, ?_, (hline _).trans hreached, (hline _).trans hreading.lineAt?_start⟩
    · simp only [Session.locate, BasicError.of, BasicError.located, hrun', hat, if_true]
    · simp only [Session.locate, BasicError.of, BasicError.located]

/-- A report shows the message of an error, with its line. -/
theorem handleError_writes (e : BasicError) (m : Machine) :
    ∃ f, handleError e m =
      (do writeMessage e.text (e.line.or (m.session.lineOf? e.location)); modifySession f) m :=
  ⟨_, rfl⟩

/-- In a program that was loaded from text, an error of a statement, other than the last one that
`ON ERROR GOTO 0` raises again, is one of the line of the statement: this is the line that `ERL` tells of
after the error has been trapped, and the line in the report of the error if no handler takes it. -/
theorem error_in_statement_line {m m' : Machine} {e : BasicError}
    (htext : ∃ bytes p, Program.load bytes = .ok p ∧
      (∀ line ∈ Text.fileLines bytes, ∀ b ∈ line, isTyped b = true) ∧ m.session.program.lines = p.lines)
    (hsome : m.session.program.lines ≠ []) (hrun : m.session.inProgram = true)
    (hplace : Program.IsBoundary m.session.program.lines m.session.program.pos)
    (h : statement m = .error (.error e) m') (hagain : ¬ m.Upcoming (.onError 0)) :
    ∃ line, m'.session.statement = m.session.program.pos ∧
      m'.session.program.lineAt? m'.session.statement = some line ∧
      (left (Session.trapError e m'.session)).erl = line ∧
      (m'.session.trap.handler = none ∨ m'.session.trap.isHandling = true →
        Session.trapError e m'.session =
          .error (m'.session.locate e) (left (Session.trapError e m'.session))) ∧
      ∀ m₂ : Machine, m₂.session = left (Session.trapError e m'.session) →
        ∃ f, handleError (m'.session.locate e) m₂ =
          (do writeMessage e.text (some line); modifySession f : MachineM Unit) m₂ := by
  obtain ⟨offset, line, hlocation, hnone, hoffset, hstart⟩ :=
    exists_place_of_statement_error (Program.typed_of_load htext) hsome hrun hplace h hagain
  have hstatement : m'.session.statement = m.session.program.pos := by
    rw [(place_of_statement_error h).1, Session.stream_of_inProgram hrun]
    rfl
  refine ⟨line, hstatement, ?_, Session.erl_trapError hlocation hoffset, ?_, ?_⟩
  · rw [hstatement, hstart]
  · rintro (hnone | hhandling)
    · rw [trapError_of_unhandled hnone]
      rfl
    · obtain ⟨context, hactive⟩ := Option.isSome_iff_exists.1 hhandling
      rw [trapError_of_active hactive]
      rfl
  · intro m₂ hm₂
    have hreported : (m'.session.locate e).line.or
        (m₂.session.lineOf? (m'.session.locate e).location) = some line := by
      rw [hnone, hlocation, Option.none_or, hm₂]
      exact (Session.lineAt?_trapError e m'.session offset).trans hoffset
    have htext : (m'.session.locate e).text = e.text :=
      congrArg ErrorCode.text (m'.session.code_locate e)
    obtain ⟨f, hf⟩ := handleError_writes (m'.session.locate e) m₂
    rw [hreported, htext] at hf
    exact ⟨f, hf⟩

/-- `ERROR 5` is read to the end of line 10, where line 100 begins; `ERL` is 10. -/
theorem erring_in_line_ten :
    ∃ m', statement failing = .error (.raise ⟨5⟩) m' ∧
      m'.session.program.lineAt? m'.session.program.pos = some 100 ∧
      (left (Session.trapError (.of ⟨5⟩) m'.session)).erl = 10 := by
  have hfail : statement failing = .error (.raise ⟨5⟩) (failing.reading 8 failing.console) := rfl
  have hupcoming : failing.Upcoming (.raise ⟨5⟩) :=
    ⟨[0xA7, 0x20, 0x16, 0, 17, 0, 100, 0, 0xA7, 0x20, 0x17, 0, 0, 0],
      [0, 17, 0, 100, 0, 0xA7, 0x20, 0x17, 0, 0, 0], .line 10, rfl, by simp, rfl⟩
  have hagain : ¬ failing.Upcoming (.onError 0) := by
    intro hother
    cases hupcoming.unique hother
  obtain ⟨line, -, hline, herl, -⟩ := error_in_statement_line erring_loaded
    (List.cons_ne_nil _ _) rfl (Program.isBoundary_start _) hfail hagain
  cases hline
  exact ⟨_, hfail, rfl, herl⟩

end Machine

end LineBasic

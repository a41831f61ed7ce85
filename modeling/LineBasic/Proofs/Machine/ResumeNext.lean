import LineBasic.Proofs.Code.StatementEnd
import LineBasic.Proofs.Machine.Boundary
import LineBasic.Proofs.Machine.ErrorTrap

/-!
# Where `RESUME NEXT` goes

`RESUME NEXT` goes back to where the statement that failed was begun, and then forward past one
separator to the next.  The separator to be passed is the one before the statement; the first
statement of a direct line has none, and for it the one passed is its own.

* `Session.OpensLine`: such a statement comes next.
* `Session.FromText.separated_or_start`: every other statement has a separator before it.
* `Machine.resume_next_iff`: `RESUME NEXT` goes to the end of the statement that failed, except for
  those.
-/

namespace LineBasic

open Token Code

/-! ## Separators before statements -/

theorem Program.separated_of_isBoundary {p : Program} {pos : Nat} (h : IsBoundary p.lines pos)
    (hmore : p.image.drop pos ≠ []) : Separated (p.image.drop pos) := by
  cases h with
  | @terminator before after hlines =>
    obtain ⟨t, ht⟩ := render_eq_cons (0 + extent before) after
    rw [p.linked, hlines, drop_render, ht]
    exact separated_cons t (by decide)
  | @colon before after l code rest hlines hbody _ =>
    have hdrop : p.image.drop (extent before + 5 + code.length) =
        colon :: (rest ++ render (0 + extent before + l.size) after) := by
      rw [p.linked, hlines, ← List.drop_drop, ← List.drop_drop, drop_render, render_cons, entry,
        hbody]
      simp [Endian.bytes, Endian.word]
    rw [hdrop]
    exact separated_cons _ (by decide)
  | ended =>
    rw [← length_image, List.drop_length] at hmore
    exact absurd rfl hmore

theorem Crunch.separated_of_isBoundary {text : String} {pos : Nat}
    (htyped : ∀ b ∈ Text.utf8 text, isTyped b = true) (h : IsBoundary (line text) pos)
    (hmore : (line text).drop pos ≠ []) : Separated ((line text).drop pos) ∨ pos = 0 := by
  cases h with
  | start => exact .inr rfl
  | @colon before rest htext _ =>
    rw [← List.drop_drop, htext, List.drop_left]
    exact .inl (separated_cons rest (by decide))
  | terminator =>
    obtain ⟨body, -, htext, -⟩ := line_cases htyped
    have hlast : (line text).length - 1 = textStart (line text) + body.length := by
      have hlength := congrArg List.length htext
      simp only [List.length_drop, List.length_append, List.length_singleton] at hlength
      omega
    rw [hlast, ← List.drop_drop, htext, List.drop_left]
    exact .inl (separated_cons [] (by decide))
  | ended =>
    rw [List.drop_length] at hmore
    exact absurd rfl hmore

namespace Session

/-- A statement has a separator before it, or it begins a direct line. -/
theorem FromText.separated_or_start {s : Session} (h : s.FromText) (hplace : s.IsBoundary s.place)
    (hmore : s.stream.rest ≠ []) :
    Separated s.stream.rest ∨ s.inProgram = false ∧ s.stream.pos = 0 := by
  rw [stream_rest] at hmore ⊢
  unfold IsBoundary at hplace
  cases hin : s.inProgram with
  | true =>
    simp only [place, hin, if_true] at hplace
    rw [hin] at hmore
    exact .inl (Program.separated_of_isBoundary hplace hmore)
  | false =>
    simp only [place, hin, Bool.false_eq_true, if_false] at hplace
    rw [hin] at hmore
    obtain hnone | ⟨text, htext, hline⟩ := h.direct
    · simp [code, hnone] at hmore
    · simp only [code, Bool.false_eq_true, if_false, hline] at hplace hmore ⊢
      exact (Crunch.separated_of_isBoundary htext hplace hmore).imp id fun hpos => ⟨trivial, hpos⟩

/-- The first statement of a direct line comes next, and nothing separates it from the start of the
line. -/
def OpensLine (s : Session) : Prop :=
  s.inProgram = false ∧ s.stream.pos = 0 ∧ ¬ Separated s.direct.bytes

/-- It is the only kind of statement without a separator before it. -/
theorem FromText.separated_iff {s : Session} (h : s.FromText) (hplace : s.IsBoundary s.place)
    (hmore : s.stream.rest ≠ []) : Separated s.stream.rest ↔ ¬ s.OpensLine := by
  have hstart (hin : s.inProgram = false) (hpos : s.stream.pos = 0) :
      s.stream.rest = s.direct.bytes := by
    rw [stream_rest, hin, hpos]
    rfl
  constructor
  · rintro hseparated ⟨hin, hpos, hnot⟩
    rw [hstart hin hpos] at hseparated
    exact hnot hseparated
  · intro hopens
    by_contra hnot
    obtain hseparated | ⟨hin, hpos⟩ := h.separated_or_start hplace hmore
    · exact hnot hseparated
    · rw [hstart hin hpos] at hnot
      exact hopens ⟨hin, hpos, hnot⟩

/-! ## Going on after a statement -/

theorem rest_skipped (s : Session) :
    s.skipped.stream.rest = Scan.skipTo statementEnds false false false s.stream.rest :=
  rest_moveTo (Scan.skipTo_suffix _ _ _ _ _)

/-- The code is made of the lines and the direct line. -/
theorem code_congr {s t : Session} (hlines : t.program.lines = s.program.lines)
    (hdirect : t.direct.bytes = s.direct.bytes) (inProgram : Bool) :
    t.code inProgram = s.code inProgram := by
  unfold code
  rw [t.program.linked, s.program.linked, hlines, hdirect]

/-- `RESUME NEXT` searches for the next statement from the place that was saved. -/
theorem resume_next {t : Session} {context : ResumeContext} (hactive : t.trap.active = some context)
    (hle : context.statement ≤ (t.code context.inProgram).length) :
    ∃ t', resume .next t = .ok () t' ∧ t'.inProgram = context.inProgram ∧
      t'.stream.rest = Scan.skipTo statementEnds false false false
        ((t.code context.inProgram).drop context.statement) := by
  have hplace := place_setPointer (s := t.resumed) hle
  obtain ⟨hpos, hin⟩ := ResumeContext.mk.inj hplace
  refine ⟨_, by rw [resume_apply, hactive], ?_, ?_⟩
  · rw [skipped, moveTo_inProgram, hin]
  · have hretains := Retains.setPointer t.resumed context.inProgram (some context.statement)
    rw [rest_skipped, stream_rest, hin, hpos, code_congr hretains.lines hretains.direct]
    rfl

end Session

namespace Machine

open Session

/-- An error that is trapped is that of a statement, not of the end of the code. -/
theorem boundary_of_trapped {m m' : Machine} {e : BasicError} {s : Session}
    (hfail : statement m = .error (.error e) m') (htrap : trapError e m'.session = .ok () s) :
    ∃ b before, Parse.boundary m.session.stream.rest = .ok b before ∧ b ≠ .ended := by
  obtain ⟨b, before, hb, -⟩ := Parse.boundary_ok m.session.stream.rest
  refine ⟨b, before, hb, ?_⟩
  rintro rfl
  -- the end of the code fails only while a handler runs, and then nothing is trapped
  obtain ⟨line, offset, -, hactive, -, -⟩ := trapError_eq_ok_iff.1 htrap
  have hended := (statement_of_boundary hb).symm.trans hfail
  simp only [endOfCode, Effect.bind_apply, Effect.get_apply, Effect.ite_apply] at hended
  split at hended
  · rename_i hhandling
    cases hended
    simp [ErrorTrap.isHandling, hactive] at hhandling
  · cases hended

/-- After an error that was trapped, `RESUME NEXT` goes to the end of the statement that failed, so
that the one after it comes next; but if the statement opens a direct line it passes over that end,
and the one after it is skipped, too. -/
theorem resume_next_iff {m m' : Machine} {e : BasicError} {s : Session}
    (htext : m.session.FromText) (hplace : m.session.IsBoundary m.session.place)
    (hfail : statement m = .error (.error e) m') (htrap : trapError e m'.session = .ok () s) :
    ∃ b before separator, Parse.boundary m.session.stream.rest = .ok b before ∧ b ≠ .ended ∧
      (∀ other, EndsAt before other ↔ other = separator) ∧
      ∀ t : Session, t.trap.active = s.trap.active → t.program.lines = m.session.program.lines →
        t.direct.bytes = m.session.direct.bytes →
        ∃ t', resume .next t = .ok () t' ∧ t'.inProgram = m.session.inProgram ∧
          (t'.stream.rest = separator ↔ ¬ m.session.OpensLine) ∧
          (m.session.OpensLine → PassesOver separator t'.stream.rest) := by
  obtain ⟨b, before, hb, hmore⟩ := boundary_of_trapped hfail htrap
  have hrest : m.session.stream.rest ≠ [] := by
    intro hnone
    rw [hnone] at hb
    cases hb
    exact hmore rfl
  have hbounded := htext.bounded m.session.inProgram
  have hseparated := htext.separated_iff hplace hrest
  have hactive : s.trap.active = some m.session.place := by
    obtain ⟨hstatement, hin⟩ := place_of_statement_error hfail
    rw [active_of_trapError htrap, hstatement, hin]
    rfl
  rw [stream_rest] at hseparated hb
  obtain ⟨separator, hends, hfound, hpassed⟩ := hbounded.skips hplace hb hmore
  rw [stream_rest]
  have hend (other : List UInt8) : EndsAt before other ↔ other = separator :=
    ⟨fun hother => hother.unique hends, fun heq => heq ▸ hends⟩
  refine ⟨b, before, separator, hb, hmore, hend, fun t ht hlines hdirect => ?_⟩
  have hcode := code_congr hlines hdirect m.session.inProgram
  obtain ⟨t', hresume, hin, hskip⟩ := resume_next (ht.trans hactive)
    (by rw [place, hcode]; exact hbounded.le_length hplace)
  have hskip' : t'.stream.rest = Scan.skipTo statementEnds false false false
      ((m.session.code m.session.inProgram).drop m.session.stream.pos) := by
    rw [hskip, ← hcode]
    rfl
  rw [← hskip', hseparated] at hfound
  rw [← hskip', hseparated, not_not] at hpassed
  exact ⟨t', hresume, hin, ⟨fun heq hopens => (hpassed hopens).ne heq, hfound⟩, hpassed⟩

theorem erring_loaded : ∃ bytes p, Program.load bytes = .ok p ∧
    (∀ line ∈ Text.fileLines bytes, ∀ b ∈ line, isTyped b = true) ∧ erring.lines = p.lines := by
  have hlines : (Program.load (Text.utf8 "10 ERROR 5\n100 ERROR 6")).toOption.map Program.lines =
      some erring.lines := by decide +kernel
  cases hload : Program.load (Text.utf8 "10 ERROR 5\n100 ERROR 6") with
  | error e =>
    rw [hload] at hlines
    cases hlines
  | ok p =>
    rw [hload] at hlines
    exact ⟨_, p, hload, by decide +kernel, (Option.some.inj hlines).symm⟩

/-- After the error of line 10, `RESUME NEXT` goes to the end of line 10. -/
theorem resume_next_after_line :
    ∃ m' s t' b before, statement failing = .error (.raise ⟨5⟩) m' ∧
      trapError (.of ⟨5⟩) m'.session = .ok () s ∧ resume .next s = .ok () t' ∧
      Parse.boundary failing.session.stream.rest = .ok b before ∧ EndsAt before t'.stream.rest := by
  have htext : failing.session.FromText := ⟨erring_loaded, .inl rfl⟩
  have hplace : failing.session.IsBoundary failing.session.place := Program.isBoundary_start _
  have hfail : statement failing = .error (.raise ⟨5⟩) (failing.reading 8 failing.console) := rfl
  have htrap : trapError (.of ⟨5⟩) (failing.reading 8 failing.console).session =
      .ok () (((failing.reading 8 failing.console).session.noted (.of ⟨5⟩)).handling 8) := rfl
  obtain ⟨b, before, separator, hb, -, hends, hresume⟩ :=
    resume_next_iff htext hplace hfail htrap
  obtain ⟨t', ht', -, hiff, -⟩ := hresume _ rfl rfl rfl
  have hrest : t'.stream.rest = separator := hiff.2 fun hopens => Bool.noConfusion hopens.1
  exact ⟨_, _, t', b, before, hfail, htrap, ht', hb, (hends _).2 hrest⟩

/-- The direct line `ERROR 5:PRINT 1:PRINT 2`, with a handler at line 100. -/
def failingDirect : Machine where
  session :=
    { program := erring
      direct :=
        { bytes := [0xA7, 0x20, 0x16, colon, 0x91, 0x20, 0x12, colon, 0x91, 0x20, 0x13, endLine] }
      mode := .executing
      trap := { handler := some 100 } }

/-- `ERROR 5` ends at the first colon and `RESUME NEXT` goes to the second: `PRINT 1` is skipped. -/
theorem resume_next_passes_over :
    failingDirect.session.FromText ∧ ∃ m' s t' separator,
      statement failingDirect = .error (.raise ⟨5⟩) m' ∧
      trapError (.of ⟨5⟩) m'.session = .ok () s ∧ resume .next s = .ok () t' ∧
      EndsAt failingDirect.session.direct.bytes separator ∧
      separator = [colon, 0x91, 0x20, 0x12, colon, 0x91, 0x20, 0x13, endLine] ∧
      t'.stream.rest = [colon, 0x91, 0x20, 0x13, endLine] := by
  refine ⟨⟨erring_loaded,
    .inr ⟨"ERROR 5:PRINT 1:PRINT 2", by decide +kernel, by decide +kernel⟩⟩, ?_⟩
  have hends : EndsAt failingDirect.session.direct.bytes
      [colon, 0x91, 0x20, 0x12, colon, 0x91, 0x20, 0x13, endLine] :=
    @EndsAt.token 0xA7 [] _ _ (by decide) (by decide) rfl
      (@EndsAt.token 0x20 [] _ _ (by decide) (by decide) rfl
        (@EndsAt.token 0x16 [] _ _ (by decide) (by decide) rfl (.here (by decide))))
  have hfail : statement failingDirect =
      .error (.raise ⟨5⟩) (failingDirect.reading 3 failingDirect.console) := rfl
  have htrap : trapError (.of ⟨5⟩) (failingDirect.reading 3 failingDirect.console).session =
      .ok () (((failingDirect.reading 3 failingDirect.console).session.noted (.of ⟨5⟩)).handling 8) :=
    rfl
  obtain ⟨t', hresume, -, hskip⟩ := resume_next (active_of_trapError htrap) (Nat.zero_le _)
  refine ⟨_, _, t', _, hfail, htrap, hresume, hends, rfl, hskip.trans ?_⟩
  decide +kernel

end Machine

end LineBasic

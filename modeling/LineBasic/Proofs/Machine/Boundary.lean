import LineBasic.Proofs.Session.Boundary

/-!
# Execution from boundary to boundary

A machine whose cursor stands at a boundary of statements, and which has saved only boundaries to come back
to, is one after every statement.

* `Session.Retains`: what a session has saved, it has from another.
* `Session.OnBoundaries`: the cursor and all saved places are boundaries.
* `OnBoundaries.continued`, `SavesBoundaries.trapped`: so they are after a statement, and after an error.
* `statement_keeps_boundaries`: no statement goes astray, nor does an error that is trapped.
-/

namespace LineBasic

open Token Code

namespace Session

/-! ## Saved places -/

/-- A session has the code of another, and saves no places but those that the other saves. -/
structure Retains (s s' : Session) : Prop where
  lines : s'.program.lines = s.program.lines
  direct : s'.direct.bytes = s.direct.bytes
  stop : ∀ pos, s'.stop = some pos → s.stop = some pos
  frames : ∀ frame ∈ s'.gosub.items, frame ∈ s.gosub.items
  context : ∀ context, s'.trap.active = some context → s.trap.active = some context

/-- The code is typed, and `CONT`, `RETURN` and `RESUME` go to boundaries of statements. -/
structure SavesBoundaries (s : Session) : Prop extends FromText s where
  stop : ∀ pos, s.stop = some pos → s.IsBoundary ⟨pos, true⟩
  frames : ∀ frame ∈ s.gosub.items, s.IsBoundary ⟨frame.statement, frame.inProgram⟩
  context : ∀ context, s.trap.active = some context → s.IsBoundary context

/-- The cursor, too, stands at a boundary. -/
structure OnBoundaries (s : Session) : Prop extends SavesBoundaries s where
  cursor : s.IsBoundary s.place

namespace Retains

variable {s s' t : Session}

/-- The boundaries stay the same. -/
theorem isBoundary_iff (h : Retains s s') (place : ResumeContext) :
    s'.IsBoundary place ↔ s.IsBoundary place := by
  rw [IsBoundary, IsBoundary, h.lines, h.direct]

theorem moveTo (s : Session) (pos : Nat) : Retains s (s.moveTo pos) := by
  constructor <;> simp

theorem trans (h : Retains s s') (h' : Retains s' t) : Retains s t where
  lines := h'.lines.trans h.lines
  direct := h'.direct.trans h.direct
  stop pos hpos := h.stop pos (h'.stop pos hpos)
  frames frame hframe := h.frames frame (h'.frames frame hframe)
  context context hcontext := h.context context (h'.context context hcontext)

theorem setPointer (s : Session) (inProgram : Bool) (pos : Option Nat) :
    Retains s (s.setPointer inProgram pos) := by
  constructor <;> simp [Session.setPointer]

theorem clear (s : Session) : Retains s s.clear where
  lines := rfl
  direct := rfl
  stop _ h := by cases h
  frames _ h := by cases h
  context _ h := by cases h

theorem popped {frame : GosubFrame} {rest : List GosubFrame} (h : s.gosub.items = frame :: rest) :
    Retains s (s.popped frame rest) where
  lines := rfl
  direct := rfl
  stop _ hpos := hpos
  frames _ hframe := h ▸ List.mem_cons_of_mem _ hframe
  context _ hcontext := hcontext

theorem resumed (s : Session) : Retains s s.resumed where
  lines := rfl
  direct := rfl
  stop _ hpos := hpos
  frames _ hframe := hframe
  context _ h := by cases h

/-- A statement that is abandoned saves no new place. -/
theorem abandoned {st : Statement} (h : Abandoned s st s') : Retains s s' := by
  cases h with
  | kept files events => exact ⟨rfl, rfl, fun _ => id, fun _ => id, fun _ => id⟩
  | returned hitems _ => exact popped hitems
  | cleared _ => exact clear s
  | resumed _ _ => exact resumed s
  | unhandled _ => exact ⟨rfl, rfl, fun _ => id, fun _ => id, fun _ => id⟩

end Retains

namespace SavesBoundaries

variable {s s' : Session}

/-- Saved places stay boundaries. -/
theorem retained (h : s.SavesBoundaries) (hretains : Retains s s') : s'.SavesBoundaries where
  program := hretains.lines ▸ h.program
  direct := hretains.direct ▸ h.direct
  stop pos hpos := (hretains.isBoundary_iff _).2 (h.stop pos (hretains.stop pos hpos))
  frames frame hframe :=
    (hretains.isBoundary_iff _).2 (h.frames frame (hretains.frames frame hframe))
  context context hcontext :=
    (hretains.isBoundary_iff _).2 (h.context context (hretains.context context hcontext))

theorem moveTo (h : s.SavesBoundaries) {pos : Nat} (hpos : s.IsBoundary ⟨pos, s.inProgram⟩) :
    (s.moveTo pos).OnBoundaries where
  toSavesBoundaries := h.retained (.moveTo s pos)
  cursor := by
    have hplace : (s.moveTo pos).place = ⟨pos, s.inProgram⟩ := by simp [place]
    rw [hplace, (Retains.moveTo s pos).isBoundary_iff]
    exact hpos

/-- Execution may go on at any boundary. -/
theorem setPointer (h : s.SavesBoundaries) (place : ResumeContext) (hplace : s.IsBoundary place) :
    (s.setPointer place.inProgram (some place.statement)).OnBoundaries where
  toSavesBoundaries := h.retained (.setPointer s _ _)
  cursor := by
    have hle := (h.bounded place.inProgram).le_length hplace
    rw [place_setPointer hle, (Retains.setPointer s _ _).isBoundary_iff]
    exact hplace

/-- A jump to a line leads to a boundary. -/
theorem jump (h : s.SavesBoundaries) (line : Option UInt16) {pos : Nat}
    (hline : s.target? line = some pos) : (s.setPointer true (some pos)).OnBoundaries := by
  refine h.setPointer ⟨pos, true⟩ ?_
  cases line with
  | none =>
    cases hline
    exact Program.isBoundary_start _
  | some number => exact Program.isBoundary_of_offsetOf? hline

/-- An error that is trapped goes to a boundary, and saves one if its statement began there. -/
theorem trapped {e : BasicError} (h : s.SavesBoundaries)
    (hstatement : s.IsBoundary ⟨s.statement, s.inProgram⟩) (htrap : trapError e s = .ok () s') :
    s'.OnBoundaries := by
  obtain ⟨line, offset, -, -, hline, rfl⟩ := trapError_eq_ok_iff.1 htrap
  have hjump := h.jump (some line) hline
  exact { program := hjump.program, direct := hjump.direct, stop := hjump.stop, frames := hjump.frames,
          cursor := hjump.cursor, context := by rintro _ ⟨⟩; exact hstatement }

end SavesBoundaries

namespace OnBoundaries

variable {s s' : Session}

/-- The search for the next statement leads to a boundary. -/
theorem skipped (h : s.OnBoundaries) : s.skipped.OnBoundaries := by
  have hskip := (h.bounded s.inProgram).after_skip h.cursor
  rw [← stream_bytes] at hskip
  exact h.toSavesBoundaries.moveTo hskip

/-- A call saves a boundary. -/
theorem pushed (h : s.OnBoundaries) {handler : Option EventKind} {gosub : BoundedStack GosubFrame}
    (hpush : s.gosub.push ⟨s.stream.pos, s.inProgram, handler⟩ = .ok gosub) :
    SavesBoundaries { s with gosub } where
  program := h.program
  direct := h.direct
  stop := h.stop
  frames := by
    intro frame hframe
    unfold BoundedStack.push at hpush
    split at hpush
    · cases hpush
    · cases hpush
      obtain rfl | hframe := List.mem_cons.1 hframe
      · exact h.cursor
      · exact h.frames frame hframe
  context := h.context

/-- Whatever a statement does, execution goes on at a boundary if the statement has been read up to one. -/
theorem continued {st : Statement} (h : s.OnBoundaries) (hs : s.Continued st s') :
    s'.OnBoundaries := by
  have hsaved := h.toSavesBoundaries
  cases hs with
  | kept vars files events tron auto autoActive mode handler =>
    exact { program := h.program, direct := h.direct, stop := h.stop, frames := h.frames,
            context := h.context, cursor := h.cursor }
  | cleared =>
    exact { toSavesBoundaries := hsaved.retained (.clear s), cursor := h.cursor }
  | @jumped line pos hline => exact hsaved.jump (some line) hline
  | @called line pos gosub hpush hline => exact (h.pushed hpush).jump (some line) hline
  | @returned frame rest hitems =>
    refine (hsaved.retained (.popped hitems)).setPointer ⟨frame.statement, frame.inProgram⟩ ?_
    exact h.frames frame (by simp [hitems])
  | @returnedTo line pos frame rest hitems hline =>
    exact (hsaved.retained (.popped hitems)).jump (some line) hline
  | @continued pos hstop => exact hsaved.setPointer ⟨pos, true⟩ (h.stop pos hstop)
  | @ran line pos hline => exact (hsaved.retained (.clear s)).jump line hline
  | @resumed context hactive =>
    exact (hsaved.retained (.resumed s)).setPointer context (h.context context hactive)
  | @resumedNext context hactive =>
    exact ((hsaved.retained (.resumed s)).setPointer context (h.context context hactive)).skipped
  | @resumedAt line pos context hactive hline =>
    exact (hsaved.retained (.resumed s)).jump (some line) hline

end OnBoundaries

end Session

namespace Machine

open Session

/-! ## Statements -/

theorem onBoundaries_reading {m : Machine} (h : m.session.SavesBoundaries) {pos : Nat}
    (hpos : m.session.IsBoundary ⟨pos, m.session.inProgram⟩) (console : Console) :
    (m.reading pos console).session.OnBoundaries := by
  have hbegun : SavesBoundaries { m.session with statement := m.session.stream.pos } :=
    { program := h.program, direct := h.direct, stop := h.stop, frames := h.frames,
      context := h.context }
  exact hbegun.moveTo hpos

/-- A statement that fails saves no new places. -/
theorem retains_of_statement_error {m m' : Machine} {signal : Signal}
    (h : statement m = .error signal m') : Retains m.session m'.session := by
  obtain ⟨pos, console, hcases⟩ := statement_error_cases h
  have hreading : Retains m.session (m.reading pos console).session := by
    constructor <;> simp [reading]
  obtain ⟨rfl, -⟩ | ⟨st, -, hexecute⟩ := hcases
  · exact hreading
  · exact hreading.trans (.abandoned (Statement.abandoned_of_execute hexecute))

/-- A malformed statement fails. -/
theorem not_isMalformed_of_execute {st : Statement} {m m' : Machine}
    (h : st.execute m = .ok true m') : st.isMalformed = false := by
  cases st with
  | onTimer seconds line =>
    cases line with
    | ok number => rfl
    | error e => cases h
  | closeFiles numbers rest =>
    cases rest with
    | ok => rfl
    | error e => cases h
  | _ => rfl

/-- Execution goes from boundary to boundary, also if an error is trapped. -/
theorem statement_keeps_boundaries {m : Machine} (h : m.session.OnBoundaries) :
    (∀ m', statement m = .ok true m' → m'.session.OnBoundaries) ∧
      ∀ e m' s, statement m = .error (.error e) m' → trapError e m'.session = .ok () s →
        s.OnBoundaries := by
  constructor
  · intro m' hok
    obtain ⟨pos, console, signal, herror, -⟩ | ⟨pos, console, hfalse⟩ |
      ⟨st, before, after, console, ⟨b, hb, hmore, hst⟩, hexecute⟩ := statement_cases m
    · simp [hok] at herror
    · simp [hok] at hfalse
    · rw [hok] at hexecute
      rw [stream_rest] at hb hexecute
      have hread := (h.bounded m.session.inProgram).after_statement h.cursor hb hmore hst
        (not_isMalformed_of_execute hexecute.symm)
      exact (onBoundaries_reading h.toSavesBoundaries hread console).continued
        (Statement.continued_of_execute hexecute.symm)
  · intro e m' s herror htrap
    have hretains := retains_of_statement_error herror
    obtain ⟨hstatement, hinProgram⟩ := place_of_statement_error herror
    refine (h.toSavesBoundaries.retained hretains).trapped ?_ htrap
    rw [hstatement, hinProgram, hretains.isBoundary_iff]
    exact h.cursor

/-- The program `10 RETURN`. -/
def returning : Program where
  lines := [⟨10, [0x8E]⟩]
  pos := 0
  image := Program.render 0 [⟨10, [0x8E]⟩]
  ascending := List.pairwise_singleton _ _
  linked := rfl
  fits := by decide

/-- The direct line `A$=":":GOSUB 10:END`, about to call the subroutine. -/
def calling : Machine where
  session :=
    { program := returning
      direct :=
        { bytes := [0x41, 0x24, 0xE7, quote, colon, quote, colon, 0x8D, 0x20, 0x0E, 0x0A, 0x00, colon,
            0x81, endLine]
          pos := 6 }
      mode := .executing }

/-- The call saves the colon after it. -/
theorem call_keeps_boundaries :
    calling.session.OnBoundaries ∧ ∃ m', statement calling = .ok true m' ∧
      m'.session.gosub.items = [⟨12, false, none⟩] ∧ m'.session.OnBoundaries := by
  have hcalling : calling.session.OnBoundaries :=
    { program := by
        have hlines : (Program.load (Text.utf8 "10 RETURN")).toOption.map Program.lines =
            some returning.lines := by decide +kernel
        cases hload : Program.load (Text.utf8 "10 RETURN") with
        | error e =>
          rw [hload] at hlines
          cases hlines
        | ok p =>
          rw [hload] at hlines
          exact ⟨_, p, hload, by decide +kernel, (Option.some.inj hlines).symm⟩
      direct := .inr ⟨"A$=\":\":GOSUB 10:END", by decide +kernel, by decide +kernel⟩
      stop := fun _ h => by cases h
      frames := fun _ h => by cases h
      context := fun _ h => by cases h
      cursor := by
        have hname : Closed ([0x41] ++ ([0x24] ++ [0xE7])) :=
          (Closed.plain rfl).append ((Closed.plain rfl).append (.plain rfl))
        have hliteral : Closed (quote :: ([colon] ++ quote :: [])) := .literal (by decide) .nil
        exact @Crunch.IsBoundary.colon calling.session.direct.bytes _ _ rfl (hname.append hliteral) }
  exact ⟨hcalling, _, rfl, rfl, (statement_keeps_boundaries hcalling).1 _ rfl⟩

end Machine

end LineBasic

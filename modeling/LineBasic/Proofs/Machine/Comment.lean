import Mathlib
import LineBasic.Proofs.Session.Boundary

/-!
# Where comments end

The text of a comment is kept as it was typed.  Once `REM` has been read, the rest of the line is passed by
a scan that takes it for code: a control character in it may lead an operand, which the scan then takes
from beyond the end of the line.

* `Scan.owed`: the operand bytes that are missing at the end of a comment.
* `Scan.skipTo_owed`: where the scan goes from there.
* `Line.CommentAt`: a statement of a line that is a comment.
* `Machine.comment_ends_line_iff`: executing a comment leads to the end of its line exactly if no byte is
  missing.
-/

namespace LineBasic

open Token Code

namespace Scan

/-! ## Comments as code -/

/-- The operand bytes that are missing at the end of a text that is scanned as code.  At its start `n`
are missing already, or a string literal is open. -/
def owed (literal : Bool) : Nat → List UInt8 → Nat
  | n, [] => n
  | n + 1, _ :: text => owed literal n text
  | 0, b :: text =>
    if b = rem then 0
    else if b = quote then owed (!literal) 0 text
    else owed literal (if literal then 0 else operandLength b) text

/-- The scan for the end of a line stops at the end of a text if no operand byte is missing there.  If
some are, the first of them is the byte that ends the line, and the scan goes on behind the last. -/
theorem skipTo_owed {text : List UInt8} (hend : endLine ∉ text) (literal : Bool) (n : Nat)
    (hn : literal = true → n = 0) (rest : List UInt8) :
    skipTo [endLine] true literal false ((text ++ endLine :: rest).drop n) =
      if owed literal n text = 0 then endLine :: rest
      else skipTo [endLine] true false false (rest.drop (owed literal n text - 1)) := by
  induction text generalizing literal n with
  | nil =>
    cases n with
    | zero =>
      rw [owed, if_pos rfl]
      exact (skipTo_endLine literal false rest).trans (skipTo_endLine_self rest)
    | succ n =>
      obtain rfl : literal = false := by simpa using hn
      rfl
  | cons b text ih =>
    rw [List.mem_cons, not_or] at hend
    obtain ⟨hb, htext⟩ := hend
    cases n with
    | succ n =>
      obtain rfl : literal = false := by simpa using hn
      exact ih htext false n (by simp)
    | zero =>
      rw [List.drop_zero, List.cons_append, owed]
      by_cases hrem : b = rem
      · subst hrem
        rw [if_pos rfl, if_pos rfl, skipTo_rem, skipTo_comment literal rest htext]
        exact skipTo_endLine_self rest
      · rw [if_neg hrem]
        by_cases hquote : b = quote
        · subst hquote
          rw [if_pos rfl]
          cases literal with
          | false =>
            rw [skipTo_quote]
            exact ih htext true 0 fun _ => rfl
          | true =>
            rw [skipTo_closing _ (by decide)]
            exact ih htext false 0 fun _ => rfl
        · rw [if_neg hquote]
          cases literal with
          | false =>
            have hskip : skipTo [endLine] true false false (b :: (text ++ endLine :: rest)) =
                skipTo [endLine] true false false ((text ++ endLine :: rest).drop (operandLength b)) := by
              rw [skipTo.eq_def]
              simp [hrem, hquote, Ne.symm hb]
            rw [hskip]
            exact ih htext false (operandLength b) (by simp)
          | true =>
            have hskip : skipTo [endLine] true true false (b :: (text ++ endLine :: rest)) =
                skipTo [endLine] true true false (text ++ endLine :: rest) := by
              rw [skipTo.eq_def]
              simp [hrem, hquote, Ne.symm hb]
            rw [hskip]
            exact ih htext true 0 fun _ => rfl

/-- The scan that passes a comment, started after `REM`, is never before the end of the line. -/
theorem length_skipTo_text_le {text : List UInt8} (hend : endLine ∉ text) (rest : List UInt8) :
    (skipTo [endLine] true false false (text ++ endLine :: rest)).length ≤ (endLine :: rest).length := by
  have hskip := skipTo_owed hend false 0 (by simp) rest
  rw [List.drop_zero] at hskip
  rw [hskip]
  split
  · exact Nat.le_refl _
  · have hle := length_skipTo_le [endLine] true false false (rest.drop (owed false 0 text - 1))
    rw [List.length_drop] at hle
    rw [List.length_cons]
    omega

/-- It is there exactly if no operand byte is missing. -/
theorem length_skipTo_text_eq_iff {text : List UInt8} (hend : endLine ∉ text) (rest : List UInt8) :
    (skipTo [endLine] true false false (text ++ endLine :: rest)).length = (endLine :: rest).length ↔
      owed false 0 text = 0 := by
  have hskip := skipTo_owed hend false 0 (by simp) rest
  rw [List.drop_zero] at hskip
  rw [hskip]
  split
  · rename_i hzero
    exact iff_of_true rfl hzero
  · rename_i hsome
    refine iff_of_false (fun hlength => ?_) hsome
    have hle := length_skipTo_le [endLine] true false false (rest.drop (owed false 0 text - 1))
    rw [hlength, List.length_drop, List.length_cons] at hle
    omega

/-- The scan over a whole line is never behind its end. -/
theorem length_le_skipTo_line {code : List UInt8} (hcode : Lexical code) (rest : List UInt8) :
    (endLine :: rest).length ≤
      (skipTo [endLine] true false false (code ++ endLine :: rest)).length := by
  by_cases hearly : EndsEarly code
  · exact Nat.le_of_lt (length_lt_skipTo_of_endsEarly hearly (endLine :: rest))
  · rw [skipTo_endLine_of_lexical hcode hearly]

/-- It is there exactly if the line does not seem to end early. -/
theorem length_skipTo_line_eq_iff {code : List UInt8} (hcode : Lexical code) (rest : List UInt8) :
    (skipTo [endLine] true false false (code ++ endLine :: rest)).length = (endLine :: rest).length ↔
      ¬ EndsEarly code := by
  constructor
  · intro hlength hearly
    have hlt := length_lt_skipTo_of_endsEarly hearly (endLine :: rest)
    omega
  · intro hearly
    rw [skipTo_endLine_of_lexical hcode hearly]

end Scan

/-! ## Comments in lines -/

namespace Parse

open Scan

/-- A comment is read by passing its text. -/
theorem statement_comment (scope : Scope) {gap : List UInt8} (hgap : ∀ b ∈ gap, isBlank b = true)
    (rest : List UInt8) :
    statement scope (gap ++ rem :: rest) = .ok .comment (skipTo [endLine] true false false rest) := by
  have hdrop : (gap ++ rem :: rest).dropWhile isBlank = rem :: rest := by
    rw [List.dropWhile_append_of_pos hgap]
    rfl
  simp only [statement, Effect.bind_apply, next?_apply, hdrop]
  rfl

end Parse

/-- A statement of a line, begun at an offset from where the line starts, is a comment with some text.  A
comment that was typed as an apostrophe has a colon and `REM` before it, too. -/
inductive Line.CommentAt (l : Line) : Nat → List UInt8 → Prop where
  /-- The first statement begins with the marker of the line. -/
  | first {gap text : List UInt8} (hgap : ∀ b ∈ gap, isBlank b = true)
      (hbody : l.body = gap ++ rem :: text) : CommentAt l 0 text
  /-- The others begin with a colon. -/
  | later {code gap text : List UInt8} (hcode : Closed code) (hgap : ∀ b ∈ gap, isBlank b = true)
      (hbody : l.body = code ++ colon :: (gap ++ rem :: text)) : CommentAt l (5 + code.length) text

namespace Line.CommentAt

variable {l : Line} {offset : Nat} {text : List UInt8}

theorem closed_blanks {gap : List UInt8} (hgap : ∀ b ∈ gap, isBlank b = true) : Closed gap :=
  .plains fun b hb => Scan.isPlain_of_isBlank (hgap b hb)

/-- Before the text of a comment the code of its line is made of whole lexemes. -/
theorem exists_closed (h : l.CommentAt offset text) :
    ∃ code, Closed code ∧ l.body = code ++ rem :: text := by
  cases h with
  | @first gap _ hgap hbody => exact ⟨gap, closed_blanks hgap, hbody⟩
  | @later code gap _ hcode hgap hbody =>
    refine ⟨code ++ (colon :: gap), hcode.append ?_, by simp [hbody]⟩
    exact (Closed.plain (b := colon) (by decide)).append (closed_blanks hgap)

theorem endLine_not_mem (h : l.CommentAt offset text) (hlexical : Lexical l.body) :
    endLine ∉ text := by
  obtain ⟨code, hcode, hbody⟩ := h.exists_closed
  rw [hbody] at hlexical
  obtain ⟨hrem, -⟩ | ⟨hquote, -⟩ | ⟨hquote, -⟩ | ⟨-, htext⟩ :=
    (hlexical.of_closed_append hcode).cons_cases
  · simp at hrem
  · exact absurd hquote (by decide)
  · exact absurd hquote (by decide)
  · exact fun hend => htext endLine hend rfl

end Line.CommentAt

/-- From where a comment begins, the code of its line is read up to its text. -/
theorem Program.boundary_comment {p : Program} {before after : List Line} {l : Line} {offset : Nat}
    {text : List UInt8} (hlines : p.lines = before ++ l :: after) (hcomment : l.CommentAt offset text) :
    ∃ b gap t, (∀ c ∈ gap, isBlank c = true) ∧
      Parse.boundary (p.image.drop (extent before + offset)) =
        .ok b (gap ++ rem :: (text ++ endLine :: t)) ∧
      (b = .line l.number ∨ b = .inLine) ∧
      p.image.drop (extent before + 5) = l.body ++ endLine :: t := by
  obtain ⟨x, y, lo, hi, t, hdrop, hlink, hnumber⟩ := exists_marker hlines
  have hbody : p.image.drop (extent before + 5) = l.body ++ endLine :: t := by
    rw [← List.drop_drop, hdrop]
    rfl
  cases hcomment with
  | @first gap _ hgap hcode =>
    refine ⟨.line l.number, gap, t, hgap, ?_, .inl rfl, hbody⟩
    rw [Nat.add_zero, hdrop, Parse.boundary_marker hlink, hnumber, hcode]
    simp
  | @later code gap _ hclosed hgap hcode =>
    refine ⟨.inLine, gap, t, hgap, ?_, .inr rfl, hbody⟩
    have hcolon : p.image.drop (extent before + (5 + code.length)) =
        colon :: (gap ++ rem :: (text ++ endLine :: t)) := by
      rw [← Nat.add_assoc, ← List.drop_drop, hbody, hcode, List.append_assoc, List.drop_left]
      simp
    rw [hcolon]
    rfl

/-! ## Executing comments -/

namespace Machine

theorem write_of_succeeds {m : Machine} {text : String} (h : (m.console.write text).1 = true) :
    write text m = .ok () { m with console := (m.console.write text).2 } := by
  rw [write, output_apply, if_pos h]

/-- A statement is read and executed if the number of its line can be shown where that is asked for. -/
theorem statement_of_shown {m : Machine} {b : Parse.Boundary} {before : List UInt8}
    (hb : Parse.boundary m.session.stream.rest = .ok b before) (hmore : b ≠ .ended)
    (hshown : m.session.tron = true → ∀ n, b = .line n → (m.console.write s!"[{n}]").1 = true) :
    ∃ console, statement m = readAndExecute (m.reading
      (m.session.stream.pos + (m.session.stream.rest.length - before.length)) console) := by
  have hstatement := statement_of_boundary hb
  generalize m.session.stream.pos + (m.session.stream.rest.length - before.length) = pos at hstatement ⊢
  have htron : (m.reading pos m.console).session.tron = m.session.tron := by
    unfold reading Session.moveTo
    split <;> rfl
  cases b with
  | ended => exact absurd rfl hmore
  | inLine => exact ⟨m.console, hstatement⟩
  | line n =>
    dsimp only at hstatement
    rw [htron] at hstatement
    cases hon : m.session.tron with
    | false =>
      rw [hon] at hstatement
      exact ⟨m.console, hstatement⟩
    | true =>
      have hwrite := write_of_succeeds (m := m.reading pos m.console) (hshown hon n rfl)
      rw [hon, if_pos rfl, Effect.bind_apply, hwrite] at hstatement
      exact ⟨_, hstatement⟩

/-- Executing a comment changes nothing but the place, which is where the scan over its text ends. -/
theorem statement_comment {p : Program} {m : Machine} {before after : List Line} {l : Line}
    {offset : Nat} {text : List UInt8} (hlines : p.lines = before ++ l :: after)
    (hcomment : l.CommentAt offset text) (hrun : m.session.inProgram = true)
    (hprogram : m.session.program = { p with pos := Program.extent before + offset })
    (hshown : m.session.tron = true → (m.console.write s!"[{l.number}]").1 = true) :
    ∃ t console, p.image.drop (Program.extent before + 5) = l.body ++ endLine :: t ∧
      statement m = .ok true (m.reading (p.image.length -
        (Scan.skipTo [endLine] true false false (text ++ endLine :: t)).length) console) := by
  obtain ⟨b, gap, t, hgap, hb, hline, hbody⟩ := Program.boundary_comment hlines hcomment
  have hstream : m.session.stream = { bytes := p.image, pos := Program.extent before + offset } := by
    rw [Session.stream_of_inProgram hrun, hprogram]
    rfl
  have hrest : m.session.stream.rest = p.image.drop (Program.extent before + offset) := by
    rw [hstream]
    rfl
  rw [← hrest] at hb
  have hmore : b ≠ .ended := by
    obtain rfl | rfl := hline <;> simp
  obtain ⟨console, hread⟩ := statement_of_shown hb hmore fun htron n hn => by
    obtain rfl | rfl := hline <;> cases hn
    exact hshown htron
  obtain ⟨b', code, hb', hsuffix⟩ := Parse.boundary_ok m.session.stream.rest
  rw [hb] at hb'
  cases hb'
  have happly := readAndExecute_apply m _ console _ (rest_of_suffix console hsuffix)
  rw [← hread, Parse.statement_comment _ hgap] at happly
  have hle := Scan.length_skipTo_le [endLine] true false false (text ++ endLine :: t)
  have hcode := hsuffix.length_le
  have hpos : m.session.stream.pos + (m.session.stream.rest.length -
      (gap ++ rem :: (text ++ endLine :: t)).length) +
      ((gap ++ rem :: (text ++ endLine :: t)).length -
        (Scan.skipTo [endLine] true false false (text ++ endLine :: t)).length) =
      p.image.length - (Scan.skipTo [endLine] true false false (text ++ endLine :: t)).length := by
    rw [hrest, List.length_drop] at hcode
    rw [hrest, hstream, List.length_drop]
    simp only [List.length_append, List.length_cons] at hcode hle ⊢
    omega
  dsimp only at happly
  rw [hpos] at happly
  exact ⟨t, console, hbody, happly⟩

/-- In a program that was loaded from text without NUL characters, executing a comment changes nothing but
the place.  That is the end of the line exactly if no operand byte is missing at the end of the comment;
and the scan over the whole line, by which an image is read back, stops there, too, if besides the line
does not seem to end early. -/
theorem comment_ends_line_iff {bytes : List UInt8} {p : Program} {m : Machine} {before after : List Line}
    {l : Line} {offset : Nat} {text : List UInt8} (hnul : endLine ∉ bytes)
    (hload : Program.load bytes = .ok p) (hlines : p.lines = before ++ l :: after)
    (hcomment : l.CommentAt offset text) (hrun : m.session.inProgram = true)
    (hprogram : m.session.program = { p with pos := Program.extent before + offset })
    (hshown : m.session.tron = true → (m.console.write s!"[{l.number}]").1 = true) :
    ∃ pos console, statement m = .ok true (m.reading pos console) ∧
      (pos = Program.extent before + l.size ↔ Scan.owed false 0 text = 0) ∧
      (CodeStream.scan (Scan.forwardTo [endLine] true)
          { bytes := p.image, pos := Program.extent before + 5 } = .ok () { bytes := p.image, pos } ↔
        Scan.owed false 0 text = 0 ∧ ¬ EndsEarly l.body) := by
  obtain ⟨t, console, hbody, hstatement⟩ := statement_comment hlines hcomment hrun hprogram hshown
  refine ⟨_, console, hstatement, ?_⟩
  have hlexical : Lexical l.body := Program.lexical_of_load hnul hload (by simp [hlines])
  have hend := hcomment.endLine_not_mem hlexical
  have himage : p.image.length = Program.extent before + l.size + (endLine :: t).length := by
    have hlength := congrArg List.length hbody
    rw [List.length_drop, List.length_append] at hlength
    simp only [Line.size, List.length_cons] at hlength ⊢
    omega
  have hscan : CodeStream.scan (Scan.forwardTo [endLine] true)
      { bytes := p.image, pos := Program.extent before + 5 } =
      .ok () { bytes := p.image, pos := Program.extent before + 5 + ((l.body ++ endLine :: t).length -
        (Scan.skipTo [endLine] true false false (l.body ++ endLine :: t)).length) } := by
    rw [← hbody]
    rfl
  -- the one scan is never before the end of the line, the other never behind it
  have hle := Scan.length_skipTo_text_le hend t
  have hends := Scan.length_skipTo_text_eq_iff hend t
  have hwhole := Scan.length_le_skipTo_line hlexical t
  have hearly := Scan.length_skipTo_line_eq_iff hlexical t
  have hbound := Scan.length_skipTo_le [endLine] true false false (l.body ++ endLine :: t)
  rw [himage, hscan, ← hends, ← hearly]
  generalize Scan.skipTo [endLine] true false false (l.body ++ endLine :: t) = whole at hwhole hbound ⊢
  simp only [EStateM.Result.ok.injEq, CodeStream.mk.injEq, true_and]
  simp only [Line.size, List.length_append] at hbound ⊢
  exact ⟨by omega, by omega⟩

/-- A machine that runs a program from an offset on. -/
def runningAt (p : Program) (pos : Nat) : Machine where
  session := { program := { p with pos }, inProgram := true }

/-- A control character in quotes leads no operand. -/
theorem quoted_comment_ends_line :
    ∃ p, Program.load (Text.utf8 "10 A=1:REM \"\x0f\n20 END") = .ok p ∧
      ∃ console, statement (runningAt p 8) = .ok true ((runningAt p 8).reading 13 console) := by
  have hnul : endLine ∉ Text.utf8 "10 A=1:REM \"\x0f\n20 END" := by
    have : (Text.utf8 "10 A=1:REM \"\x0f\n20 END").contains endLine = false := by cbv
    simpa using this
  have hlines : Text.fileLines (Text.utf8 "10 A=1:REM \"\x0f\n20 END") =
      ["10 A=1:REM \"\x0f", "20 END"].map Text.utf8 := by cbv
  have hcodes : ["10 A=1:REM \"\x0f", "20 END"].map Crunch.line =
      [[0, 0xC0, 0xDE, 10, 0, 0x41, 0xE7, 0x12, 0x3A, 0x8F, 0x20, 0x22, 0x0F, 0],
        [0, 0xC0, 0xDE, 20, 0, 0x81, 0]] := by cbv
  have hload : ∃ p, Program.load (Text.utf8 "10 A=1:REM \"\x0f\n20 END") = .ok p ∧
      p.lines = [⟨10, [0x41, 0xE7, 0x12, 0x3A, 0x8F, 0x20, 0x22, 0x0F]⟩, ⟨20, [0x81]⟩] := by
    rw [Program.load_eq_foldlM hlines (by cbv), hcodes]
    exact ⟨_, rfl, rfl⟩
  obtain ⟨p, hp, hps⟩ := hload
  have hcomment : Line.CommentAt ⟨10, [0x41, 0xE7, 0x12, 0x3A, 0x8F, 0x20, 0x22, 0x0F]⟩ 8
      [0x20, 0x22, 0x0F] :=
    @Line.CommentAt.later _ [0x41, 0xE7, 0x12] [] _ (.plains (List.all_eq_true.1 rfl)) (by simp) rfl
  obtain ⟨pos, console, hstatement, hpos, -⟩ :=
    comment_ends_line_iff (m := runningAt p 8) hnul hp (show p.lines = [] ++ _ :: _ from hps) hcomment rfl
      rfl (by simp [runningAt])
  obtain rfl : pos = 13 := hpos.2 (by decide)
  exact ⟨p, hp, console, hstatement⟩

/-- Outside of quotes it does: the comment of line 10, which ends at offset 8, is passed up to offset 12, in
the middle of line 20. -/
theorem comment_runs_over :
    ∃ p, Program.load (Text.utf8 "10 REM \x0f\n20 END") = .ok p ∧ p.offsetOf? 20 = some 8 ∧
      ∃ console, statement (runningAt p 0) = .ok true ((runningAt p 0).reading 12 console) := by
  have hlines : Text.fileLines (Text.utf8 "10 REM \x0f\n20 END") =
      ["10 REM \x0f", "20 END"].map Text.utf8 := by cbv
  have hcodes : ["10 REM \x0f", "20 END"].map Crunch.line =
      [[0, 0xC0, 0xDE, 10, 0, 0x8F, 0x20, 0x0F, 0], [0, 0xC0, 0xDE, 20, 0, 0x81, 0]] := by cbv
  have hload : ∃ p, Program.load (Text.utf8 "10 REM \x0f\n20 END") = .ok p ∧
      p.lines = [⟨10, [0x8F, 0x20, 0x0F]⟩, ⟨20, [0x81]⟩] := by
    rw [Program.load_eq_foldlM hlines (by cbv), hcodes]
    exact ⟨_, rfl, rfl⟩
  obtain ⟨p, hp, hps⟩ := hload
  have hcomment : Line.CommentAt ⟨10, [0x8F, 0x20, 0x0F]⟩ 0 [0x20, 0x0F] :=
    @Line.CommentAt.first _ [] _ (by simp) rfl
  obtain ⟨t, console, hbody, hstatement⟩ :=
    statement_comment (m := runningAt p 0) (show p.lines = [] ++ _ :: _ from hps) hcomment rfl rfl
      (by simp [runningAt])
  have himage : p.image = [0, 9, 0, 10, 0, 0x8F, 0x20, 0x0F, 0, 15, 0, 20, 0, 0x81, 0, 0, 0] := by
    rw [p.linked, hps]
    rfl
  have hskip : Scan.skipTo [endLine] true false false
      ([0x20, 0x0F] ++ endLine :: [15, 0, 20, 0, 0x81, 0, 0, 0]) = [0, 0x81, 0, 0, 0] := by cbv
  rw [himage] at hbody hstatement
  obtain rfl : [15, 0, 20, 0, 0x81, 0, 0, 0] = t := by simpa [Program.extent, endLine] using hbody
  rw [hskip] at hstatement
  refine ⟨p, hp, ?_, console, hstatement⟩
  rw [Program.offsetOf?, hps]
  rfl

end Machine

end LineBasic

import LineBasic.Proofs.Program.Load
import LineBasic.Proofs.Session.Flow
import LineBasic.Proofs.Statement.Boundary

/-!
# Boundaries of statements in a session

* `Program.IsBoundary`: the boundaries of an image are the bytes that end lines, the colons between lexemes,
  and the end of the image.
* `Crunch.IsBoundary`: those of a direct line are its start, the colons between lexemes, the byte that ends
  it, and its end.
* `Session.FromText`: the code of a session was typed, or loaded from a text file.
* `FromText.bounded`: what stands at a boundary of such code.
-/

namespace LineBasic

open Token Code

namespace Program

/-! ## Images -/

/-- The boundaries of statements in the image of lines. -/
inductive IsBoundary (lines : List Line) : Nat → Prop where
  /-- The byte before the marker of a line, or the first of those that end the program. -/
  | terminator {before after : List Line} (hlines : lines = before ++ after) :
      IsBoundary lines (extent before)
  /-- A colon of a line that is a lexeme of its own. -/
  | colon {before after : List Line} {l : Line} {code rest : List UInt8}
      (hlines : lines = before ++ l :: after) (hbody : l.body = code ++ Token.colon :: rest)
      (hcode : Closed code) : IsBoundary lines (extent before + 5 + code.length)
  /-- The end of the image. -/
  | ended : IsBoundary lines (extent lines + 3)

theorem isBoundary_start (lines : List Line) : IsBoundary lines 0 :=
  .terminator (show lines = [] ++ lines from rfl)

theorem isBoundary_of_offsetOf? {p : Program} {line : UInt16} {offset : Nat}
    (h : p.offsetOf? line = some offset) : IsBoundary p.lines offset := by
  obtain ⟨before, l, after, hlines, -, -, rfl⟩ := offsetFrom_eq_some_iff.1 h
  rw [Nat.zero_add]
  exact .terminator hlines

theorem length_image (p : Program) : p.image.length = extent p.lines + 3 := by
  rw [p.linked, length_render]

/-- What stands in an image where a line begins. -/
theorem exists_marker {p : Program} {before after : List Line} {l : Line}
    (hlines : p.lines = before ++ l :: after) :
    ∃ a b lo hi t, p.image.drop (extent before) =
        endLine :: a :: b :: lo :: hi :: (l.body ++ endLine :: t) ∧
      ¬ (a = 0 ∧ b = 0) ∧ Endian.ofPair lo hi = l.number := by
  obtain ⟨lo, hi, hword, hnumber⟩ := Endian.ofPair_word l.number
  obtain ⟨t, ht⟩ := render_eq_cons (0 + extent before + l.size) after
  have hdrop : p.image.drop (extent before) =
      endLine :: UInt8.ofNat (0 + extent before + l.size + 1) ::
        UInt8.ofNat ((0 + extent before + l.size + 1) / 256) :: lo :: hi ::
          (l.body ++ endLine :: t) := by
    rw [p.linked, hlines, drop_render, render_cons, ht, entry, hword]
    simp [Endian.bytes]
  have hfits : extent before + l.size + 1 < 65536 := by
    have := p.fits
    rw [length_image, hlines, extent_append, extent_cons, maxImageSize] at this
    omega
  exact ⟨_, _, lo, hi, t, hdrop, link_ne_zero (Nat.succ_pos _) (by omega), hnumber⟩

/-- A line of an image: its marker and its text. -/
theorem exists_segment {p : Program} {before after : List Line} {l : Line}
    (hlines : p.lines = before ++ l :: after) (htyped : Typed l.body) :
    ∃ a b lo hi t, p.image.drop (extent before) =
        endLine :: a :: b :: lo :: hi :: (l.body ++ endLine :: t) ∧
      ¬ (a = 0 ∧ b = 0) ∧
      Segment p.image (IsBoundary p.lines) (extent before + 5) l.body t := by
  obtain ⟨a, b, lo, hi, t, hdrop, hlink, -⟩ := exists_marker hlines
  refine ⟨a, b, lo, hi, t, hdrop, hlink, ?_, htyped, ?_⟩
  · rw [← List.drop_drop, hdrop]
    rfl
  · rintro code left hbody (rfl | ⟨hcolon, hcode⟩)
    · have hextent : extent before + 5 + code.length = extent (before ++ [l]) := by
        rw [List.append_nil] at hbody
        simp only [extent_append, extent_cons, extent_nil, Line.size, hbody]
        omega
      rw [hextent]
      exact .terminator (hlines.trans (List.append_cons before l after))
    · obtain ⟨rest, rfl⟩ := List.head?_eq_some_iff.1 hcolon
      exact .colon hlines hbody hcode

/-- The lines of a program that was loaded from text of printable characters and tabs are typed code. -/
theorem typed_of_load {p : Program}
    (h : ∃ bytes p', load bytes = .ok p' ∧
      (∀ line ∈ Text.fileLines bytes, ∀ b ∈ line, isTyped b = true) ∧ p.lines = p'.lines) :
    ∀ l ∈ p.lines, Typed l.body := by
  obtain ⟨bytes, p', hload, hbytes, hlines⟩ := h
  intro l hl
  rw [hlines] at hl
  exact lexicalIn_of_load hload (fun line hline => not_mem_of_typed (by simp) (hbytes line hline))
    hbytes hl

theorem bounded_image {p : Program} (htyped : ∀ l ∈ p.lines, Typed l.body) :
    Bounded p.image (IsBoundary p.lines) where
  ended := by
    rw [length_image]
    exact .ended
  at_boundary := by
    intro pos hpos
    cases hpos with
    | ended =>
      rw [← length_image]
      exact .ended
    | @terminator before after hlines =>
      cases after with
      | nil =>
        refine .final (t := [0, 0]) ?_ (.inr rfl)
        rw [p.linked, hlines, drop_render]
        rfl
      | cons l after =>
        obtain ⟨a, b, lo, hi, t, hdrop, hlink, hsegment⟩ :=
          exists_segment hlines (htyped l (by simp [hlines]))
        exact .marker hdrop hlink hsegment
    | @colon before after l code rest hlines hbody hcode =>
      obtain ⟨a, b, lo, hi, t, -, -, hsegment⟩ := exists_segment hlines (htyped l (by simp [hlines]))
      rw [hbody] at hsegment
      exact .inLine hsegment hcode (.inl rfl)

end Program

namespace Crunch

/-! ## Direct lines -/

/-- Where the text of a line begins in its code: after the marker, if it has a number. -/
def textStart (code : List UInt8) : Nat :=
  if code.head? = some endLine ∧ 5 < code.length then 5 else 0

/-- The boundaries of statements in the code of a line. -/
inductive IsBoundary (code : List UInt8) : Nat → Prop where
  | start : IsBoundary code 0
  /-- A colon that is a lexeme of its own. -/
  | colon {before rest : List UInt8}
      (htext : code.drop (textStart code) = before ++ Token.colon :: rest) (hbefore : Closed before) :
      IsBoundary code (textStart code + before.length)
  /-- The byte that ends the line. -/
  | terminator : IsBoundary code (code.length - 1)
  | ended : IsBoundary code code.length

/-- The code of a line is its text, with a marker before it if it has a number. -/
theorem line_cases {text : String} (htyped : ∀ b ∈ Text.utf8 text, isTyped b = true) :
    ∃ body, Typed body ∧ (line text).drop (textStart (line text)) = body ++ [endLine] ∧
      (textStart (line text) = 0 ∨ textStart (line text) = 5 ∧
        ∃ lo hi, line text = endLine :: 0xC0 :: 0xDE :: lo :: hi :: (body ++ [endLine])) := by
  cases hnumber : Program.numberedText? (Text.utf8 text) with
  | some found =>
    obtain ⟨number, src⟩ := found
    obtain ⟨lo, hi, -, hline⟩ := Program.bytes_eq_of_numberedText? hnumber
    have hstart : textStart (line text) = 5 := by
      rw [line, hline]
      exact if_pos ⟨rfl, by simp⟩
    refine ⟨body false src, lexicalIn_body false fun b hb => ?_, ?_, .inr ⟨hstart, lo, hi, hline⟩⟩
    · exact htyped b (Program.mem_of_numberedText? hnumber hb)
    · rw [hstart, line, hline]
      rfl
  | none =>
    obtain ⟨src, hsrc, hline⟩ := Program.bytes_eq_of_numberedText?_eq_none hnumber
    have hbody : Typed (body false src) := lexicalIn_body false fun b hb => htyped b (hsrc b hb)
    have hstart : textStart (line text) = 0 := by
      rw [line, hline]
      refine if_neg ?_
      rintro ⟨hhead, hlength⟩
      cases hcode : body false src with
      | nil => simp [hcode] at hlength
      | cons b rest =>
        rw [hcode] at hbody hhead
        exact hbody.head_ne_endLine (Option.some.inj hhead)
    refine ⟨body false src, hbody, ?_, .inl hstart⟩
    rw [hstart, line, hline]
    rfl

theorem bounded_nil : Bounded [] (IsBoundary []) where
  ended := .ended
  at_boundary := by
    intro pos hpos
    cases hpos with
    | colon htext _ => simp at htext
    | start => exact .ended
    | terminator => exact .ended
    | ended => exact .ended

theorem segment_line {code body : List UInt8} (htyped : Typed body)
    (htext : code.drop (textStart code) = body ++ [endLine]) :
    Segment code (IsBoundary code) (textStart code) body [] where
  drop_eq := htext
  typed := htyped
  stops := by
    rintro before left rfl (rfl | ⟨hcolon, hbefore⟩)
    · have hlast : textStart code + before.length = code.length - 1 := by
        have hlength := congrArg List.length htext
        simp only [List.length_drop, List.append_nil, List.length_append, List.length_singleton] at hlength
        omega
      rw [hlast]
      exact .terminator
    · obtain ⟨rest, rfl⟩ := List.head?_eq_some_iff.1 hcolon
      rw [List.append_assoc, List.cons_append] at htext
      exact .colon htext hbefore

theorem bounded_line {text : String} (htyped : ∀ b ∈ Text.utf8 text, isTyped b = true) :
    Bounded (line text) (IsBoundary (line text)) where
  ended := .ended
  at_boundary := by
    obtain ⟨body, hbody, htext, hstart⟩ := line_cases htyped
    generalize line text = code at htext hstart
    have hsegment := segment_line hbody htext
    intro pos hpos
    cases hpos with
    | ended => exact .ended
    | start =>
      obtain hzero | ⟨hfive, lo, hi, hcode⟩ := hstart
      · rw [hzero] at hsegment
        exact @AtBoundary.inLine _ _ 0 [] body [] hsegment .nil (.inr rfl)
      · rw [hfive] at hsegment
        exact .marker hcode (by decide) hsegment
    | terminator =>
      have hlast : code.length - 1 = textStart code + body.length := by
        have hlength := congrArg List.length htext
        simp only [List.length_drop, List.length_append, List.length_singleton] at hlength
        omega
      refine .final (t := []) ?_ (.inl rfl)
      rw [hlast, ← List.drop_drop, htext, List.drop_left]
    | @colon before rest hcolon hbefore =>
      -- the colon is not the last byte, which ends the line
      obtain rfl | ⟨rest', last, rfl⟩ := List.eq_nil_or_concat rest
      · rw [htext] at hcolon
        exact absurd (List.append_inj' hcolon rfl).2 (by decide)
      · rw [htext, List.concat_eq_append, ← List.cons_append, ← List.append_assoc] at hcolon
        obtain ⟨rfl, -⟩ := List.append_inj' hcolon rfl
        exact .inLine hsegment hbefore (.inl rfl)

end Crunch

namespace Session

/-! ## Sessions -/

/-- The program was loaded from text of printable characters and tabs, and the direct line, if there is
one, was typed in such characters. -/
structure FromText (s : Session) : Prop where
  program : ∃ bytes p, Program.load bytes = .ok p ∧
    (∀ line ∈ Text.fileLines bytes, ∀ b ∈ line, isTyped b = true) ∧ s.program.lines = p.lines
  direct : s.direct.bytes = [] ∨
    ∃ text, (∀ b ∈ Text.utf8 text, isTyped b = true) ∧ s.direct.bytes = Crunch.line text

/-- A place is a boundary of statements in its code. -/
def IsBoundary (s : Session) (place : ResumeContext) : Prop :=
  if place.inProgram then Program.IsBoundary s.program.lines place.statement
  else Crunch.IsBoundary s.direct.bytes place.statement

theorem FromText.bounded {s : Session} (h : s.FromText) (inProgram : Bool) :
    Bounded (s.code inProgram) fun pos => s.IsBoundary ⟨pos, inProgram⟩ := by
  cases inProgram with
  | true => exact Program.bounded_image (Program.typed_of_load h.program)
  | false =>
    show Bounded s.direct.bytes (Crunch.IsBoundary s.direct.bytes)
    obtain hnone | ⟨text, htext, hline⟩ := h.direct
    · rw [hnone]
      exact Crunch.bounded_nil
    · rw [hline]
      exact Crunch.bounded_line htext

end Session

end LineBasic

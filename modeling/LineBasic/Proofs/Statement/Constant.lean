import Mathlib
import LineBasic.Proofs.Number.Rounding
import LineBasic.Proofs.Program.Entry
import LineBasic.Proofs.Source.Listing
import LineBasic.Proofs.Statement.Expression

/-!
# The values of constants

What a typed string or number comes to when the code of its line is evaluated.

A line is crunched from its UTF-8 bytes, and those of a string literal stay in the code as they are.  When
the literal is evaluated and when the line is listed, each byte is taken for a character.

Digits without a point are crunched to one of five forms, by their value and by whether a line number is
expected, and all of these are evaluated alike.  A number above the largest of 32 bits is taken for that
one.

* `Crunch.line_print`: the code of a line that prints something.
* `Expression.literal_kept_iff`: evaluation and listing keep a literal exactly if its text is ASCII.
* `Crunch.body_whole`: the code of digits in a text.
* `Expression.whole_kept_iff`: digits are evaluated to their value, if that is exact and not above 2 ^ 32.
-/

namespace LineBasic

open Token Code Scan

/-! ## Lines that print -/

namespace Crunch

open Source

theorem keyword?_print (rest : List UInt8) :
    keyword? (Text.utf8 Keyword.PRINT.word ++ space :: rest) = some .PRINT := by
  have hspace : isLetter space = false := by decide
  have hletters : letters (Text.utf8 Keyword.PRINT.word ++ space :: rest) =
      letters (Text.utf8 Keyword.PRINT.word ++ [space]) :=
    letters_append_congr rfl (by rw [letters_of_head hspace, letters_of_head hspace])
  rw [keyword?_congr hletters]
  decide

theorem body_print (rest : List UInt8) :
    body false (Text.utf8 Keyword.PRINT.word ++ space :: rest) =
      Keyword.PRINT.code ++ space :: body false rest := by
  have hblank : Starts (space :: rest) .blank rest := ⟨space, rest, rfl, by decide, by decide, rfl⟩
  rw [(Starts.keyword (by decide) (keyword?_print rest)).body, hblank.body]
  rfl

/-- The code of a line that prints what the rest of it says. -/
theorem line_print {t : String} (ht : trimEnd (Text.utf8 t) = Text.utf8 t) :
    line ("PRINT " ++ t) = Keyword.PRINT.code ++ space :: (body false (Text.utf8 t) ++ [endLine]) := by
  have hword : Text.utf8 Keyword.PRINT.word = [0x50, 0x52, 0x49, 0x4E, 0x54] := by decide
  have htext : Text.utf8 ("PRINT " ++ t) = Text.utf8 Keyword.PRINT.word ++ space :: Text.utf8 t := by
    have hprint : Text.utf8 "PRINT " = Text.utf8 Keyword.PRINT.word ++ [space] := by decide
    rw [Text.utf8_append, hprint, List.append_assoc, List.singleton_append]
  have hbody := body_print (Text.utf8 t)
  rw [line, bytes, htext, Program.trimEnd_append_cons (by decide), ht]
  rw [hword] at hbody ⊢
  -- the line begins with a letter, so that it has no number
  have hblanks : ([0x50, 0x52, 0x49, 0x4E, 0x54] ++ space :: Text.utf8 t).dropWhile
      (fun b => b = space || b = tab) = [0x50, 0x52, 0x49, 0x4E, 0x54] ++ space :: Text.utf8 t := rfl
  have hdirect : lineNumber? ([0x50, 0x52, 0x49, 0x4E, 0x54] ++ space :: Text.utf8 t) = none := rfl
  rw [hblanks]
  simp only [hdirect]
  rw [hbody, List.append_assoc, List.cons_append]

end Crunch

/-- A direct line that prints something, after `PRINT` was read. -/
def Session.printing (t : String) : Session where
  direct := { bytes := Crunch.line ("PRINT " ++ t), pos := Keyword.PRINT.code.length }

/-- What is left of the line after `PRINT`. -/
theorem Session.rest_printing {t : String} (ht : Crunch.trimEnd (Text.utf8 t) = Text.utf8 t) :
    (printing t).stream.rest = space :: (Crunch.body false (Text.utf8 t) ++ [endLine]) := by
  have hrest : (printing t).stream.rest = (Crunch.line ("PRINT " ++ t)).drop Keyword.PRINT.code.length := rfl
  rw [hrest, Crunch.line_print ht, List.drop_left]

/-! ## String literals -/

/-- A text in quotes. -/
def Source.inQuotes (t : String) : String :=
  "\"" ++ t ++ "\""

open Source

theorem Source.utf8_inQuotes (t : String) :
    Text.utf8 (inQuotes t) = quote :: (Text.utf8 t ++ [quote]) := by
  have hquote : Text.utf8 "\"" = [quote] := by decide
  rw [inQuotes, Text.utf8_append, Text.utf8_append, hquote, List.append_assoc, List.singleton_append]

theorem Source.trimEnd_inQuotes (t : String) :
    Crunch.trimEnd (Text.utf8 (inQuotes t)) = Text.utf8 (inQuotes t) := by
  rw [utf8_inQuotes, ← List.cons_append, Program.trimEnd_append_cons (by decide)]
  rfl

/-- A literal is kept as the bytes of its text. -/
theorem Crunch.body_literal {t : String} (hquote : quote ∉ Text.utf8 t) :
    body false (Text.utf8 (inQuotes t)) = quote :: (Text.utf8 t ++ [quote]) := by
  have hliteral : Starts (quote :: (Text.utf8 t ++ [quote])) (.text (Text.utf8 t) true) [] :=
    ⟨quote, _, rfl, by decide, by decide, lexeme_literal hquote []⟩
  rw [utf8_inQuotes, hliteral.body, body, List.append_nil]
  rfl

/-- The line is listed with one character for each byte of the literal. -/
theorem Listing.text_literal {t : String} (hquote : quote ∉ Text.utf8 t) (hend : endLine ∉ Text.utf8 t) :
    text (Crunch.line ("PRINT " ++ inQuotes t)) = Text.ofBytes (Text.utf8 ("PRINT " ++ inQuotes t)) := by
  have hprint : Text.utf8 "PRINT " = Text.utf8 Keyword.PRINT.word ++ [space] := by decide
  have hshows := (shows_keyword (k := .PRINT) (by decide)).append
    ((shows_byte (b := space) (by decide) (by decide)).append (shows_literal hquote hend))
  have hgo := hshows [] [endLine]
  rw [text, Crunch.line_print (trimEnd_inQuotes t), Crunch.body_literal hquote, Text.utf8_append, hprint,
    utf8_inQuotes, Text.ofBytes]
  simp only [List.append_assoc, List.cons_append, List.nil_append] at hgo ⊢
  rw [hgo, go]
  simp

theorem Source.isAscii_print {t : String} : Text.IsAscii ("PRINT " ++ inQuotes t) ↔ Text.IsAscii t := by
  have hprint : Text.IsAscii "PRINT " := by decide
  have hquote : Text.IsAscii "\"" := by decide
  rw [inQuotes, Text.isAscii_append, Text.isAscii_append, Text.isAscii_append]
  simp only [hprint, hquote, true_and, and_true]

namespace Expression

/-- The value of a literal has one character for each byte of it. -/
theorem scan_literal {t : String} {s : Session} (hquote : quote ∉ Text.utf8 t)
    (hend : endLine ∉ Text.utf8 t) (hcode : s.stream = (Session.printing (inQuotes t)).stream) :
    ∃ pos, Session.scan (value s.scope) s = .ok (.string (Text.ofBytes (Text.utf8 t))) (s.moveTo pos) ∧
      (s.moveTo pos).stream.rest = [endLine] := by
  have hinside : ∀ b ∈ Text.utf8 t, b ≠ quote ∧ b ≠ endLine := fun b hb =>
    ⟨ne_of_mem_of_not_mem hb hquote, ne_of_mem_of_not_mem hb hend⟩
  have hrest : s.stream.rest = (Tree.operand (.atom spaced (.text ⟨Text.utf8 t, hinside⟩))).code ++
      (tight.val ++ endLine :: []) := by
    rw [hcode, Session.rest_printing (trimEnd_inQuotes t), Crunch.body_literal hquote]
    simp [Tree.code, Atom.code, spaced, tight]
  obtain ⟨pos, hscan, -, hleft⟩ := scan_value_of_eval (by decide) hrest rfl
  exact ⟨pos, hscan, hleft⟩

/-- A text without quotes and NUL characters stands in quotes in a direct line that prints it.  The literal
comes to that text exactly if it is ASCII, and so does the listing of the line to the line. -/
theorem literal_kept_iff {t : String} {s : Session} (hquote : '"' ∉ t.toList) (hnul : '\x00' ∉ t.toList)
    (hcode : s.stream = (Session.printing (inQuotes t)).stream) :
    ∃ v pos, Session.scan (value s.scope) s = .ok v (s.moveTo pos) ∧
      (s.moveTo pos).stream.rest = [endLine] ∧ (v = .string t ↔ Text.IsAscii t) ∧
      (Listing.text (Crunch.line ("PRINT " ++ inQuotes t)) = "PRINT " ++ inQuotes t ↔ Text.IsAscii t) := by
  have hquote : quote ∉ Text.utf8 t := fun h => hquote (Text.byteChar_mem_of_mem_utf8 (by decide) h)
  have hend : endLine ∉ Text.utf8 t := fun h => hnul (Text.byteChar_mem_of_mem_utf8 (by decide) h)
  obtain ⟨pos, hscan, hstop⟩ := scan_literal hquote hend hcode
  refine ⟨_, pos, hscan, hstop, ?_, ?_⟩
  · rw [Value.string.injEq]
    exact Text.ofBytes_utf8_eq_iff t
  · rw [Listing.text_literal hquote hend, Text.ofBytes_utf8_eq_iff, isAscii_print]

/-- Nothing in a literal is taken for code. -/
theorem literal_kept_comment :
    (∃ pos, Session.scan (value (Session.printing "\"\x1f:REM 'x\"").scope)
        (Session.printing "\"\x1f:REM 'x\"") =
      .ok (.string "\x1f:REM 'x") ((Session.printing "\"\x1f:REM 'x\"").moveTo pos)) ∧
    Listing.text (Crunch.line "PRINT \"\x1f:REM 'x\"") = "PRINT \"\x1f:REM 'x\"" := by
  obtain ⟨v, pos, hscan, -, hvalue, htext⟩ :=
    literal_kept_iff (t := "\x1f:REM 'x") (s := .printing "\"\x1f:REM 'x\"") (by decide) (by decide) rfl
  obtain rfl := hvalue.2 (by decide)
  exact ⟨⟨pos, hscan⟩, htext.2 (by decide)⟩

/-- The two bytes of a letter with an accent become two characters. -/
theorem literal_changes :
    (∃ pos, Session.scan (value (Session.printing "\"é\"").scope) (Session.printing "\"é\"") =
      .ok (.string "Ã©") ((Session.printing "\"é\"").moveTo pos)) ∧
    Listing.text (Crunch.line "PRINT \"é\"") = "PRINT \"Ã©\"" := by
  have hquote : quote ∉ Text.utf8 "é" := by decide
  have hend : endLine ∉ Text.utf8 "é" := by decide
  have hvalue : Text.ofBytes (Text.utf8 "é") = "Ã©" := by decide
  have htext : Text.ofBytes (Text.utf8 ("PRINT " ++ inQuotes "é")) = "PRINT \"Ã©\"" := by decide
  obtain ⟨pos, hscan, -⟩ := scan_literal (s := Session.printing "\"é\"") hquote hend rfl
  rw [hvalue] at hscan
  exact ⟨⟨pos, hscan⟩, (Listing.text_literal hquote hend).trans htext⟩

end Expression

/-! ## Whole numbers -/

/-- Digits that are followed by neither a digit nor a point are a whole number, whose code is followed by
that of the text after it. -/
theorem Crunch.body_whole {digits rest : List UInt8} (hne : digits ≠ [])
    (hdigits : ∀ b ∈ digits, isDigit b = true)
    (hrest : rest.head?.any (fun b => isDigit b || b = point) = false) (expectsLine : Bool) :
    body expectsLine (digits ++ rest) = wholeNumber expectsLine digits ++ body expectsLine rest := by
  rw [(Starts.whole hne hdigits hrest).body]
  simp [Source.Lexeme.code, Source.Lexeme.keeps, Source.Lexeme.expects]

theorem Crunch.body_digits {digits : List UInt8} (hne : digits ≠ [])
    (hdigits : ∀ b ∈ digits, isDigit b = true) (expectsLine : Bool) :
    body expectsLine digits = wholeNumber expectsLine digits := by
  have hbody := @body_whole digits [] hne hdigits rfl expectsLine
  rwa [List.append_nil, body, List.append_nil] at hbody

namespace Single

/-- The bound itself is not exact.  It is rounded up to the next power of two. -/
theorem denotes_bound : (ofNat 4294967295).Denotes 4294967296 := by
  decide +kernel

/-- An exact number is kept under the bound, and the next power of two is. -/
theorem denotes_ofNat_min_iff {n : Nat} (h : IsExact n) :
    (ofNat (min n 4294967295)).Denotes n ↔ n ≤ 4294967296 := by
  by_cases hle : n ≤ 4294967295
  · rw [Nat.min_eq_left hle]
    exact iff_of_true (denotes_ofNat h) (Nat.le_succ_of_le hle)
  · rw [Nat.min_eq_right (by omega)]
    constructor
    · intro hn
      exact (hn.unique denotes_bound).le
    · intro hn
      obtain rfl : n = 4294967296 := by omega
      exact denotes_bound

end Single

namespace Expression

/-- What digits come to. -/
def wholeValue (digits : List UInt8) : Value :=
  .ofInt (min (Crunch.decimalValue digits) 4294967295 : Nat)

theorem dropWhile_wholeNumber (gap : Blanks) (expectsLine : Bool) (digits code : List UInt8) :
    (gap.val ++ (Crunch.wholeNumber expectsLine digits ++ code)).dropWhile isBlank =
      Crunch.wholeNumber expectsLine digits ++ code := by
  obtain ⟨b, operand, hcode, hlead⟩ := Source.Lexeme.leads_wholeNumber expectsLine digits
  have hblank : isBlank b = false := by
    grind [Source.Lexeme.isWholeLead, isBlank, lineNumber, byteConstant, integerConstant, singleConstant,
      zero, ten, space, tab, newline]
  rw [hcode, List.cons_append, gap.dropWhile hblank]

/-- A whole number is read with its value. -/
theorem term_wholeNumber (scope : Scope) (parenthesised : Scanner Value) (fuel : Nat) (gap : Blanks)
    (expectsLine : Bool) (digits code : List UInt8) :
    term scope parenthesised (fuel + 1) (gap.val ++ (Crunch.wholeNumber expectsLine digits ++ code)) =
      .ok (wholeValue digits) code :=
  Source.term_whole scope parenthesised fuel (dropWhile_wholeNumber gap expectsLine digits code)

/-- Digits that are all of an expression. -/
theorem scan_wholeNumber {s : Session} {expectsLine : Bool} {digits tail : List UInt8} {gap gap' : Blanks}
    {b : UInt8} (hb : b ∈ [endLine, colon, comma, semicolon, closeParen])
    (hcode : s.stream.rest = gap.val ++ (Crunch.wholeNumber expectsLine digits ++ (gap'.val ++ b :: tail))) :
    ∃ pos, Session.scan (value s.scope) s = .ok (wholeValue digits) (s.moveTo pos) ∧
      (s.moveTo pos).stream.rest = b :: tail := by
  have hvalue : value s.scope s.stream.rest = .ok (wholeValue digits) (b :: tail) := by
    rw [hcode]
    simp only [value, nested, Effect.bind_apply, Effect.get_apply, term_wholeNumber,
      sum_of_stop _ _ _ gap' hb]
  refine ⟨_, by rw [Session.scan_apply, hvalue], Session.rest_moveTo ?_⟩
  refine ⟨gap.val ++ Crunch.wholeNumber expectsLine digits ++ gap'.val, ?_⟩
  rw [hcode]
  simp

/-- Up to 32767 a number is an integer. -/
theorem wholeValue_of_le {digits : List UInt8} (h : Crunch.decimalValue digits ≤ 32767) :
    ∃ i : Int16, wholeValue digits = .integer i ∧ i.toInt = Crunch.decimalValue digits := by
  rw [wholeValue, Nat.min_eq_left (by omega), Source.ofInt_of_le h]
  refine ⟨_, rfl, ?_⟩
  rw [← Int16.ofInt_eq_ofNat, Int16.toInt_ofInt_of_le (by omega) (by omega)]

/-- Above that it is one of single precision, and 4294967295 at most. -/
theorem wholeValue_of_lt {digits : List UInt8} (h : 32767 < Crunch.decimalValue digits) :
    wholeValue digits = .single (.ofNat (min (Crunch.decimalValue digits) 4294967295)) := by
  rw [wholeValue, Source.ofInt_of_lt (by omega)]

/-- Digits have one value, wherever they stand in the text of an expression and whether or not a line
number is expected there: what they write as an integer, up to 32767, and above, if what they write is an
exact number, that number in single precision exactly if it is not above 4294967296. -/
theorem whole_kept_iff {digits : List UInt8} (hne : digits ≠ [])
    (hdigits : ∀ b ∈ digits, isDigit b = true) :
    ∃ v,
      (∀ (scope : Scope) (parenthesised : Scanner Value) (fuel : Nat) (gap : Blanks) (expectsLine : Bool)
        (rest tail : List UInt8), rest.head?.any (fun b => isDigit b || b = point) = false →
        term scope parenthesised (fuel + 1)
          (gap.val ++ (Crunch.body expectsLine (digits ++ rest) ++ tail)) =
            .ok v (Crunch.body expectsLine rest ++ tail)) ∧
      (∀ (s : Session) (gap gap' : Blanks) (expectsLine : Bool) (b : UInt8) (tail : List UInt8),
        b ∈ [endLine, colon, comma, semicolon, closeParen] →
        s.stream.rest = gap.val ++ (Crunch.body expectsLine digits ++ (gap'.val ++ b :: tail)) →
        ∃ pos, Session.scan (value s.scope) s = .ok v (s.moveTo pos) ∧
          (s.moveTo pos).stream.rest = b :: tail) ∧
      (Crunch.decimalValue digits ≤ 32767 →
        ∃ i : Int16, v = .integer i ∧ i.toInt = Crunch.decimalValue digits) ∧
      (32767 < Crunch.decimalValue digits → Single.IsExact (Crunch.decimalValue digits) →
        ((∃ x : Single, v = .single x ∧ x.Denotes (Crunch.decimalValue digits)) ↔
          Crunch.decimalValue digits ≤ 4294967296)) := by
  refine ⟨wholeValue digits, ?_, ?_, wholeValue_of_le, ?_⟩
  · intro scope parenthesised fuel gap expectsLine rest tail hrest
    rw [Crunch.body_whole hne hdigits hrest, List.append_assoc]
    exact term_wholeNumber scope parenthesised fuel gap expectsLine digits _
  · intro s gap gap' expectsLine b tail hb hcode
    rw [Crunch.body_digits hne hdigits] at hcode
    exact scan_wholeNumber hb hcode
  · intro hlt hexact
    rw [wholeValue_of_lt hlt, ← Single.denotes_ofNat_min_iff hexact]
    simp

/-- The smallest number above the bound is kept, though it does not have 32 bits. -/
theorem whole_kept_above_bound :
    ∃ x pos, Session.scan (value (Session.printing "4294967296").scope) (.printing "4294967296") =
      .ok (.single x) ((Session.printing "4294967296").moveTo pos) ∧ x.Denotes 4294967296 := by
  have hdigits : ∀ b ∈ Text.utf8 "4294967296", isDigit b = true := List.all_eq_true.1 (by decide)
  have hexact : Single.IsExact 4294967296 := ⟨⟨0x4F800000⟩, by decide +kernel⟩
  obtain ⟨v, -, hscan, -, hvalue⟩ := whole_kept_iff (by decide) hdigits
  obtain ⟨x, rfl, hx⟩ := (hvalue (by decide) hexact).2 (by decide)
  obtain ⟨pos, hread, -⟩ := hscan (.printing "4294967296") spaced tight false endLine [] (by decide)
    (Session.rest_printing (by decide))
  exact ⟨x, pos, hread, hx⟩

/-- The next power of two is exact, too, but is not kept. -/
theorem whole_changes :
    Single.IsExact 8589934592 ∧
    ∃ x pos, Session.scan (value (Session.printing "8589934592").scope) (.printing "8589934592") =
      .ok (.single x) ((Session.printing "8589934592").moveTo pos) ∧ x.Denotes 4294967296 := by
  have hdigits : ∀ b ∈ Text.utf8 "8589934592", isDigit b = true := List.all_eq_true.1 (by decide)
  have hrest := Session.rest_printing (t := "8589934592") (by decide)
  rw [Crunch.body_digits (by decide) hdigits] at hrest
  have hvalue : wholeValue (Text.utf8 "8589934592") = .single (.ofNat 4294967295) :=
    wholeValue_of_lt (by decide)
  obtain ⟨pos, hread, -⟩ := @scan_wholeNumber (.printing "8589934592") false
    (Text.utf8 "8589934592") [] spaced tight endLine (by decide) hrest
  rw [hvalue] at hread
  exact ⟨⟨⟨0x50000000⟩, by decide +kernel⟩, _, pos, hread, Single.denotes_bound⟩

end Expression

end LineBasic

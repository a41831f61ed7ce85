import LineBasic.Byte.Endian
import LineBasic.Number.Single
import LineBasic.Text.Bytes
import LineBasic.Token.Basic

/-!
# Crunching

From a line of text to its code.  A line that starts with a number up to 65535 becomes a numbered line:
the marker `00 C0 DE`, its number and its body.  Any other line is a direct line and has a body only.
Both end with the byte `00`.

* `Crunch.lexeme`: the code of the first lexeme of a text, and the text after it.
* `Crunch.body`: the code of a text.
* `Crunch.line`: the code of a whole line.
-/

namespace LineBasic.Crunch

open Token

/-- The link of a line that is not part of a program yet. -/
def unlinked : List UInt8 := [0xC0, 0xDE]

/-- The number written by a list of digits. -/
def decimalValue (digits : List UInt8) : Nat :=
  digits.foldl (fun n d => 10 * n + (d.toNat - 0x30)) 0

/-- A piece of text in its crunched form. -/
structure Lexeme where
  code : List UInt8
  /-- The text after the piece. -/
  rest : List UInt8
  /-- Whether a number that comes next is a line number. -/
  expectsLine : Bool
  deriving DecidableEq, Repr

/-- Cuts a text after its first quote. -/
def afterQuote (src : List UInt8) : List UInt8 × List UInt8 :=
  let inside := src.takeWhile (· ≠ quote)
  match src.dropWhile (· ≠ quote) with
  | [] => (inside, [])
  | b :: rest => (inside ++ [b], rest)

/-- The shortest code of a whole number.  A number from 32768 on is a single precision constant, unless
it is a line number. -/
def wholeNumber (expectsLine : Bool) (digits : List UInt8) : List UInt8 :=
  let n := min (decimalValue digits) 4294967295
  if expectsLine && n ≤ 65535 then lineNumber :: Endian.bytes 2 n
  else if n ≤ 9 then [zero + UInt8.ofNat n]
  else if n ≤ 255 then [byteConstant, UInt8.ofNat n]
  else if n ≤ 32767 then integerConstant :: Endian.bytes 2 n
  else singleConstant :: Endian.bytes 4 (Single.ofNat n).bits.toNat

/-- The code of a number with a decimal point. -/
def fraction (whole decimals : List UInt8) : List UInt8 :=
  let x := Single.ofRatio (decimalValue (whole ++ decimals)) (Nat.pow 10 decimals.length)
  singleConstant :: Endian.bytes 4 x.bits.toNat

/-- A number: digits, then perhaps a point and more digits. -/
def number (expectsLine : Bool) (src : List UInt8) : Lexeme :=
  let digits := src.takeWhile isDigit
  match src.dropWhile isDigit with
  | 0x2E :: rest =>
    ⟨fraction digits (rest.takeWhile isDigit), rest.dropWhile isDigit, expectsLine⟩
  | rest => ⟨wholeNumber expectsLine digits, rest, expectsLine⟩

/-- Whether a text starts with a word, in any case of letters. -/
def startsWith (src : List UInt8) (word : List UInt8) : Bool :=
  (src.take word.length).map upper == word

/-- The keyword at the start of a text. -/
def keyword? (src : List UInt8) : Option Keyword :=
  Keyword.all.find? fun k => startsWith src (Text.utf8 k.word)

/-- A keyword or, failing that, a name.  `REM` takes the rest of the line. -/
def word (expectsLine : Bool) (src : List UInt8) : Lexeme :=
  match keyword? src with
  | some .REM => ⟨rem :: src.drop 3, [], expectsLine⟩
  | some k => ⟨k.code, src.drop k.word.utf8ByteSize, expectsLine || k.expectsLine⟩
  | none => ⟨(splitName src).1, (splitName src).2, expectsLine⟩

/-- Whether a number may still be a line number after this byte, as in `LIST 10-20`. -/
def keepsExpecting (b : UInt8) : Bool :=
  b = space || b = comma || b = hyphen || isDigit b

/-- A byte that stands alone.  Bytes outside printable ASCII and tab are dropped. -/
def symbol (b : UInt8) : List UInt8 :=
  if b = question then Keyword.PRINT.code
  else match Operator.ofSymbol? b with
    | some o => [o.code]
    | none => if (0x20 ≤ b && b ≤ 0x7E) || b = tab then [b] else []

/-- The first lexeme of the text `c :: rest`. -/
def lexeme (expectsLine : Bool) (c : UInt8) (rest : List UInt8) : Lexeme :=
  let expectsLine := expectsLine && keepsExpecting c
  if c = quote then ⟨quote :: (afterQuote rest).1, (afterQuote rest).2, expectsLine⟩
  else if c = apostrophe then ⟨colon :: rem :: c :: rest, [], expectsLine⟩
  else if isDigit c || (c = point && rest.head?.any isDigit) then number expectsLine (c :: rest)
  else if isLetter c then word expectsLine (c :: rest)
  else ⟨symbol c, rest, expectsLine⟩

/-! ## Every lexeme shortens the text -/

theorem length_afterQuote_le (src : List UInt8) : (afterQuote src).2.length ≤ src.length := by
  have h := (List.dropWhile_sublist (l := src) (· ≠ quote)).length_le
  unfold afterQuote
  split
  · simp
  · rename_i b rest hr
    rw [hr, List.length_cons] at h
    simp only
    omega

theorem length_number_rest_lt {c : UInt8} {rest : List UInt8} (expectsLine : Bool)
    (h : isDigit c || c = point) :
    (number expectsLine (c :: rest)).rest.length < (c :: rest).length := by
  unfold number
  split
  · rename_i r hr
    have h₁ := (List.dropWhile_sublist (l := c :: rest) isDigit).length_le
    have h₂ := (List.dropWhile_sublist (l := r) isDigit).length_le
    rw [hr] at h₁
    simp only [List.length_cons] at h₁ ⊢
    omega
  · rename_i hr
    by_cases hc : isDigit c = true
    · have h₁ := (List.dropWhile_sublist (l := rest) isDigit).length_le
      simp only [List.dropWhile_cons, hc, if_true, List.length_cons]
      omega
    · have hp : c = point := by simpa [hc] using h
      subst hp
      exact absurd rfl (hr rest)

theorem length_splitName_lt {c : UInt8} {rest : List UInt8} (h : isLetter c = true) :
    (splitName (c :: rest)).2.length < (c :: rest).length := by
  have hn : isNameByte c = true := by simp [isNameByte, h]
  have h₁ := (List.dropWhile_sublist (l := rest) isNameByte).length_le
  unfold splitName
  simp only [List.dropWhile_cons, hn, if_true]
  split
  · simp
  · rename_i b r hr
    rw [hr] at h₁
    split <;> simp only [List.length_cons] at * <;> omega

theorem utf8ByteSize_word_pos (k : Keyword) : 0 < k.word.utf8ByteSize := by
  cases k <;> decide

theorem length_word_rest_lt {c : UInt8} {rest : List UInt8} (expectsLine : Bool)
    (h : isLetter c = true) :
    (word expectsLine (c :: rest)).rest.length < (c :: rest).length := by
  unfold word
  split
  · simp
  · rename_i k _ _
    have := utf8ByteSize_word_pos k
    simp only [List.length_drop, List.length_cons]
    omega
  · exact length_splitName_lt h

theorem length_lexeme_rest_lt (expectsLine : Bool) (c : UInt8) (rest : List UInt8) :
    (lexeme expectsLine c rest).rest.length < (c :: rest).length := by
  unfold lexeme
  simp only
  split
  · exact Nat.lt_succ_of_le (length_afterQuote_le rest)
  · split
    · simp
    · split
      · rename_i h
        apply length_number_rest_lt
        simp only [Bool.or_eq_true, Bool.and_eq_true, decide_eq_true_eq] at h ⊢
        exact h.imp id And.left
      · split
        · exact length_word_rest_lt _ ‹_›
        · simp

/-! ## Lines -/

/-- The code of a text. -/
def body (expectsLine : Bool) : List UInt8 → List UInt8
  | [] => []
  | c :: rest =>
    (lexeme expectsLine c rest).code ++
      body (lexeme expectsLine c rest).expectsLine (lexeme expectsLine c rest).rest
termination_by src => src.length
decreasing_by exact length_lexeme_rest_lt _ _ _

/-- The text of a line without the carriage returns and newlines at its end. -/
def trimEnd (src : List UInt8) : List UInt8 :=
  (src.reverse.dropWhile fun b => b = carriageReturn || b = newline).reverse

/-- The line number at the start of a text, and the text after it and its spaces. -/
def lineNumber? (src : List UInt8) : Option (UInt16 × List UInt8) :=
  let n := decimalValue (src.takeWhile isDigit)
  if (src.takeWhile isDigit).isEmpty || 65535 < n then none
  else some (UInt16.ofNat n, (src.dropWhile isDigit).dropWhile (· = space))

/-- The code of a line, given by its bytes. -/
def bytes (src : List UInt8) : List UInt8 :=
  let src := (trimEnd src).dropWhile fun b => b = space || b = tab
  match lineNumber? src with
  | some (n, rest) => endLine :: unlinked ++ Endian.word n ++ body false rest ++ [endLine]
  | none => body false src ++ [endLine]

/-- The code of a line. -/
def line (text : String) : List UInt8 :=
  bytes (Text.utf8 text)

end LineBasic.Crunch

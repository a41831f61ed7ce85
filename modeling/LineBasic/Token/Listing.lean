import LineBasic.Byte.Endian
import LineBasic.Number.Single
import LineBasic.Text.Bytes
import LineBasic.Token.Basic

/-!
# Listing

From the body of a crunched line back to its text.  Bytes of strings and comments become the characters
of the same code point; a code without a word is shown as `?`.
-/

namespace LineBasic.Listing

open Token

/-- A 16-bit number in two's complement. -/
def signed16 (n : Nat) : Int :=
  if n < 32768 then n else (n : Int) - 65536

/-- The digits of a number in a base up to 16, in upper case. -/
def digitsIn (base n : Nat) : String :=
  String.ofList ((Nat.toDigits base n).map Char.toUpper)

/-- The text of a numeric constant, given its leading byte and its operand; a constant cut short by
the end of the code has none. -/
def constant (lead : UInt8) (operand : List UInt8) : String :=
  let n := Endian.value operand
  if operand.length < operandLength lead then ""
  else if lead = integerConstant then toString (signed16 n)
  else if lead = octal then "&O" ++ digitsIn 8 n
  else if lead = hexadecimal then "&H" ++ digitsIn 16 n
  else if lead = singleConstant then BinaryFormat.single.text n
  else if lead = doubleConstant then BinaryFormat.double.text n
  else toString n

/-- The bytes of a string up to and including its closing quote, or up to the end of the line; and the
code after them. -/
def quoted (code : List UInt8) : List UInt8 × List UInt8 :=
  let inside := code.takeWhile fun b => b ≠ endLine && b ≠ quote
  match code.dropWhile fun b => b ≠ endLine && b ≠ quote with
  | [] => (inside, [])
  | b :: rest => if b = quote then (inside ++ [b], rest) else (inside, b :: rest)

/-- The text of a keyword code. -/
def keyword (code : List UInt8) : String :=
  ((Keyword.ofCode? code).map Keyword.word).getD "?"

theorem length_quoted_le (code : List UInt8) : (quoted code).2.length ≤ code.length := by
  have h := (List.dropWhile_sublist (l := code) fun b => b ≠ endLine && b ≠ quote).length_le
  unfold quoted
  split
  · simp
  · rename_i b rest hr
    rw [hr, List.length_cons] at h
    split
    · simp only
      omega
    · simpa using h

/-- The text of a comment, which fills the line.  After a colon, `REM '` is the short form `'`, which
replaces the colon too. -/
def comment (shown : List Char) (code : List UInt8) : List Char :=
  let text (bytes : List UInt8) := (bytes.takeWhile (· ≠ endLine)).map Text.byteChar
  match shown, code with
  | ':' :: before, 0x27 :: rest => before.reverse ++ '\'' :: text rest
  | shown, code => shown.reverse ++ "REM".toList ++ text code

/-- Lists code up to the end of its line; `shown` holds the text so far, last character first. -/
def go (shown : List Char) : List UInt8 → List Char
  | [] => shown.reverse
  | c :: rest =>
    if c = endLine then shown.reverse
    else if c = quote then
      go (((quoted rest).1.map Text.byteChar).reverse ++ '"' :: shown) (quoted rest).2
    else if c = rem then comment shown rest
    else if zero ≤ c && c ≤ ten then
      go ((toString (c - zero)).toList.reverse ++ shown) rest
    else if isNumber c then
      go ((constant c (rest.take (operandLength c))).toList.reverse ++ shown)
        (rest.drop (operandLength c))
    else if 0xFD ≤ c then
      go ((keyword (c :: rest.take 1)).toList.reverse ++ shown) (rest.drop 1)
    else if 0x80 ≤ c then
      match Operator.ofCode? c with
      | some o => go (Text.byteChar o.symbol :: shown) rest
      | none => go ((keyword [c]).toList.reverse ++ shown) rest
    else go (Text.byteChar c :: shown) rest
termination_by code => code.length
decreasing_by
  · exact Nat.lt_succ_of_le (length_quoted_le rest)
  all_goals simp only [List.length_drop, List.length_cons]; omega

/-- The text of a line's body. -/
def text (body : List UInt8) : String :=
  String.ofList (go [] body)

end LineBasic.Listing

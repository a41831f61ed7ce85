/-!
# Tokens

The bytes of crunched code.  A byte below `0x80` stands for itself, leads a numeric constant or ends a
line; a byte from `0x80` on is a keyword or an operator.

* `Token.operandLength`: how many operand bytes follow a leading byte.  They may hold any value, so a
  reader takes them as a unit.
* `Keyword`: the words of the language with their codes.
* `Operator`: the operator characters with their codes.
-/

namespace LineBasic

namespace Token

/-! ## Bytes that stand for themselves -/

/-- Ends a line, and leads the marker of the next one. -/
def endLine : UInt8 := 0x00
/-- A blank. -/
def tab : UInt8 := 0x09
/-- A blank, and the end of a line of text. -/
def newline : UInt8 := 0x0A
/-- Dropped at the end of a line of text. -/
def carriageReturn : UInt8 := 0x0D
/-- A blank, and the one that listings write. -/
def space : UInt8 := 0x20
/-- Opens and closes a string literal. -/
def quote : UInt8 := 0x22
/-- Stands before the number of a file. -/
def hash : UInt8 := 0x23
/-- Opens a comment in text; it is kept after the `REM` that it becomes. -/
def apostrophe : UInt8 := 0x27
/-- Opens an operand that is a whole expression. -/
def openParen : UInt8 := 0x28
/-- Closes such an operand. -/
def closeParen : UInt8 := 0x29
/-- Separates operands, and the zones of `PRINT`. -/
def comma : UInt8 := 0x2C
/-- Separates the ends of a range of lines in text. -/
def hyphen : UInt8 := 0x2D
/-- The point of a number. -/
def point : UInt8 := 0x2E
/-- Separates the statements of a line. -/
def colon : UInt8 := 0x3A
/-- Separates the items of `PRINT`. -/
def semicolon : UInt8 := 0x3B
/-- Short for `PRINT` in text. -/
def question : UInt8 := 0x3F

/-! ## Numeric constants -/

/-- An octal constant, two bytes. -/
def octal : UInt8 := 0x0B
/-- A hexadecimal constant, two bytes. -/
def hexadecimal : UInt8 := 0x0C
/-- A line given by its place, two bytes. -/
def linePointer : UInt8 := 0x0D
/-- A line number, two bytes. -/
def lineNumber : UInt8 := 0x0E
/-- A constant up to 255, one byte. -/
def byteConstant : UInt8 := 0x0F
/-- The constant 0; the constants up to 10 follow. -/
def zero : UInt8 := 0x11
/-- The constant 10, the last that is a byte of its own. -/
def ten : UInt8 := 0x1B
/-- An integer constant, two bytes. -/
def integerConstant : UInt8 := 0x1C
/-- A single precision constant, four bytes. -/
def singleConstant : UInt8 := 0x1D
/-- A double precision constant, eight bytes. -/
def doubleConstant : UInt8 := 0x1F

/-- The leading byte of the page that holds the second half of the keywords. -/
def page : UInt8 := 0xFE

/-- Number of operand bytes after a leading byte. -/
def operandLength (lead : UInt8) : Nat :=
  if lead ∈ [octal, hexadecimal, linePointer, lineNumber, integerConstant] then 2
  else if lead = byteConstant then 1
  else if lead = singleConstant then 4
  else if lead = doubleConstant then 8
  else if 0xFD ≤ lead then 1
  else 0

/-- Whether a byte leads a numeric constant. -/
def isNumber (lead : UInt8) : Bool :=
  (octal ≤ lead && lead ≤ byteConstant) || (zero ≤ lead && lead ≤ singleConstant) ||
    lead = doubleConstant

/-! ## Character classes -/

/-- The blanks between tokens. -/
def isBlank (b : UInt8) : Bool :=
  b = space || b = tab || b = newline

/-- The decimal digits. -/
def isDigit (b : UInt8) : Bool :=
  0x30 ≤ b && b ≤ 0x39

/-- The letters in upper case. -/
def isUpper (b : UInt8) : Bool :=
  0x41 ≤ b && b ≤ 0x5A

/-- The letters in lower case. -/
def isLower (b : UInt8) : Bool :=
  0x61 ≤ b && b ≤ 0x7A

/-- The letters, with which names begin. -/
def isLetter (b : UInt8) : Bool :=
  isUpper b || isLower b

/-- The upper case of a letter; any other byte as it is. -/
def upper (b : UInt8) : UInt8 :=
  if isLower b then b - 0x20 else b

/-- What may follow the first letter of a name. -/
def isNameByte (b : UInt8) : Bool :=
  isLetter b || isDigit b || b = point

/-- The type marks `$`, `%`, `!` and `#` at the end of a name. -/
def isSigil (b : UInt8) : Bool :=
  b = 0x24 || b = 0x25 || b = 0x21 || b = 0x23

/-- Cuts a name, in upper case and with its type mark, off the start of a text. -/
def splitName (src : List UInt8) : List UInt8 × List UInt8 :=
  let stem := (src.takeWhile isNameByte).map upper
  match src.dropWhile isNameByte with
  | [] => (stem, [])
  | b :: rest => if isSigil b then (stem ++ [b], rest) else (stem, b :: rest)

/-- The bytes that end a statement. -/
def statementEnds : List UInt8 :=
  [endLine, colon]

end Token

/-- The words of the language. -/
inductive Keyword where
  | APPEND | AS | AUTO | CLEAR | CLOSE | CONT | DATA | DELETE | EDIT | ELSE | END | ERL | ERROR
  | ERR | FOR | GOSUB | GOTO | IF | INPUT | KEY | LET | LIST | NEW | NEXT | OFF | ON | OPEN
  | OUTPUT | PRINT | RANDOM | REM | RESUME | RETURN | RUN | STOP | SYSTEM | THEN | TIMER | TO
  | TROFF | TRON
  deriving DecidableEq, Repr

namespace Keyword

/-- All words; one that extends another comes before it. -/
def all : List Keyword :=
  [APPEND, AS, AUTO, CLEAR, CLOSE, CONT, DATA, DELETE, EDIT, ELSE, END, ERL, ERROR, ERR, FOR,
   GOSUB, GOTO, IF, INPUT, KEY, LET, LIST, NEW, NEXT, OFF, ON, OPEN, OUTPUT, PRINT, RANDOM, REM,
   RESUME, RETURN, RUN, STOP, SYSTEM, THEN, TIMER, TO, TROFF, TRON]

/-- The word as it is typed and listed. -/
def word : Keyword → String
  | APPEND => "APPEND" | AS => "AS" | AUTO => "AUTO" | CLEAR => "CLEAR" | CLOSE => "CLOSE"
  | CONT => "CONT" | DATA => "DATA" | DELETE => "DELETE" | EDIT => "EDIT" | ELSE => "ELSE"
  | END => "END" | ERL => "ERL" | ERROR => "ERROR" | ERR => "ERR" | FOR => "FOR"
  | GOSUB => "GOSUB" | GOTO => "GOTO" | IF => "IF" | INPUT => "INPUT" | KEY => "KEY"
  | LET => "LET" | LIST => "LIST" | NEW => "NEW" | NEXT => "NEXT" | OFF => "OFF" | ON => "ON"
  | OPEN => "OPEN" | OUTPUT => "OUTPUT" | PRINT => "PRINT" | RANDOM => "RANDOM" | REM => "REM"
  | RESUME => "RESUME" | RETURN => "RETURN" | RUN => "RUN" | STOP => "STOP"
  | SYSTEM => "SYSTEM" | THEN => "THEN" | TIMER => "TIMER" | TO => "TO" | TROFF => "TROFF"
  | TRON => "TRON"

/-- The bytes of a word in crunched code. -/
def code : Keyword → List UInt8
  | END => [0x81] | FOR => [0x82] | NEXT => [0x83] | DATA => [0x84] | INPUT => [0x85]
  | LET => [0x88] | GOTO => [0x89] | RUN => [0x8A] | IF => [0x8B] | GOSUB => [0x8D]
  | RETURN => [0x8E] | REM => [0x8F] | STOP => [0x90] | PRINT => [0x91] | CLEAR => [0x92]
  | LIST => [0x93] | NEW => [0x94] | ON => [0x95] | CONT => [0x99] | ELSE => [0xA1]
  | TRON => [0xA2] | TROFF => [0xA3] | EDIT => [0xA6] | ERROR => [0xA7] | RESUME => [0xA8]
  | DELETE => [0xA9] | AUTO => [0xAA] | KEY => [0xC9] | TO => [0xCC] | THEN => [0xCD]
  | ERL => [0xD4] | ERR => [0xD5] | OFF => [0xDD]
  | OPEN => [Token.page, 0x81] | CLOSE => [Token.page, 0x82] | SYSTEM => [Token.page, 0x88]
  | TIMER => [Token.page, 0x94] | APPEND => [Token.page, 0x95] | OUTPUT => [Token.page, 0x96]
  | RANDOM => [Token.page, 0x97] | AS => [Token.page, 0x98]

/-- The word with these bytes. -/
def ofCode? (bytes : List UInt8) : Option Keyword :=
  all.find? fun k => k.code == bytes

/-- The words after which a number is a line number. -/
def expectsLine (k : Keyword) : Bool :=
  k ∈ [GOTO, GOSUB, THEN, ELSE, RUN, LIST, RESUME, AUTO, EDIT, DELETE]

end Keyword

namespace Token

/-- The code of `REM`: the rest of the line is a comment. -/
def rem : UInt8 := 0x8F

end Token

/-- The operator characters. -/
inductive Operator where
  | greater | equal | less | plus | minus | times | divide
  deriving DecidableEq, Repr

namespace Operator

/-- Every operator, in the order of the codes. -/
def all : List Operator :=
  [greater, equal, less, plus, minus, times, divide]

/-- The byte of the character as it is typed and listed. -/
def symbol : Operator → UInt8
  | greater => 0x3E | equal => 0x3D | less => 0x3C | plus => 0x2B | minus => 0x2D | times => 0x2A
  | divide => 0x2F

/-- The byte in crunched code. -/
def code : Operator → UInt8
  | greater => 0xE6 | equal => 0xE7 | less => 0xE8 | plus => 0xE9 | minus => 0xEA | times => 0xEB
  | divide => 0xEC

/-- The operator with this character. -/
def ofSymbol? (b : UInt8) : Option Operator :=
  all.find? fun o => o.symbol == b

/-- The operator with this byte in crunched code. -/
def ofCode? (b : UInt8) : Option Operator :=
  all.find? fun o => o.code == b

end Operator

end LineBasic

import LineBasic.Program.Basic
import LineBasic.Text.Blank
import LineBasic.Token.Crunch

/-!
# Programs as text

A program is saved as the text of its lines.  Reading it back stores the lines one after the other: a
line without a body deletes the line with its number, and a line without a number is refused.
-/

namespace LineBasic.Program

open Scan

/-- The number of a crunched line, read after the line's first byte, and whether its body is empty.
The number must be allowed, and the body must not start with another number. -/
def numbered : Scanner (Bool × UInt16) := do
  match ← lineMarker? with
  | none => throw (.of .syntaxError)
  | some number =>
    if maxLineNumber < number then throw (.of .syntaxError)
    match ← readNext? with
    | none => return (true, number)
    | some b =>
      if Token.isNumber b then throw (.of .syntaxError)
      return (b = Token.endLine, number)

/-- Checks a crunched line with a number: whether its body is empty, and its number. -/
def checkNumbered : EStateM BasicError CodeStream (Bool × UInt16) := do
  modify fun s => s.seek 1
  CodeStream.scan numbered

/-- Stores or deletes a line, given as crunched code.  Deleting a line that does not exist changes
nothing. -/
def enter (p : Program) (code : List UInt8) : Except BasicError Program :=
  if code.head? = some Token.endLine then
    match checkNumbered { bytes := code } with
    | .error e _ => .error e
    | .ok (isEmpty, number) _ =>
      if !isEmpty then p.store code
      else if p.contains number then p.delete number
      else .ok p
  else .error (.of .directStatementInFile)

/-- Reads one line of a saved program. -/
def loadLine (p : Program) (bytes : List UInt8) : Except BasicError Program :=
  match Text.ofUtf8? bytes with
  | none => .error (.of .deviceError)
  | some line => if Text.isBlank line then .ok p else p.enter (Crunch.line line)

/-- Reads a saved program. -/
def load (bytes : List UInt8) : Except BasicError Program :=
  (Text.fileLines bytes).foldlM loadLine empty

end LineBasic.Program

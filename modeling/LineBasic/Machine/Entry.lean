import LineBasic.Machine.Basic
import LineBasic.Program.Text

/-!
# Entering lines

What happens to a line of the operator.  A numbered line changes the program, which makes the session
forget what it knew of the old one; any other line is a command, to be executed next.
-/

namespace LineBasic.Machine

/-- Makes a text the direct line; true if it is a numbered line. -/
def takeLine (text : String) : MachineM Bool := do
  let code := Crunch.line text
  modifySession fun s => { s with direct := { bytes := code } }
  return code.head? = some Token.endLine

/-- Checks the direct line, which has a number: whether its body is empty, and its number. -/
def checkDirect : MachineM (Bool × UInt16) := fun m =>
  match Program.checkNumbered m.session.direct with
  | .ok a direct => .ok a { m with session := { m.session with direct } }
  | .error e direct => .error (.error e) { m with session := { m.session with direct } }

/-- Puts the direct line into the program, or deletes the line with its number if it has no body. -/
def editProgram (deleteMissing : Bool) : MachineM UInt16 := do
  let (isEmpty, number) ← checkDirect
  let s := (← get).session
  let program ← ofExcept <|
    if !isEmpty then s.program.store s.direct.bytes
    else if deleteMissing || s.program.contains number then s.program.delete number
    else .ok s.program
  modifySession fun s => { s with program }.clear
  return number

/-- Enters a line at the direct prompt: true if there is nothing to execute. -/
def storeLine (text : String) : MachineM Bool := do
  if Text.isBlank text then return true
  if ← takeLine text then
    let _ ← editProgram true
    return (← get).session.mode ≠ .executing
  else
    modifySession fun s => { s with mode := .executing }
    return false

/-- A line typed over a star after the offered number has the number without the star. -/
def dropStar (number line : String) : String :=
  if (number ++ "*").toList.isPrefixOf line.toList then
    String.ofList (number.toList ++ ' ' :: line.toList.drop (number.length + 1))
  else line

/-- Goes on to the next offered number, or leaves for direct mode after the last. -/
def offerNext (number : UInt16) : MachineM Unit :=
  modifySession fun s =>
    let next := number.toUInt32 + s.auto.increment.toUInt32
    let s := { s with auto := { s.auto with line := next } }
    if Program.maxLineNumber.toUInt32 < next then { s with autoActive := false, mode := .direct }
    else s

/-- Offers a line number, with a star if the line exists, and enters the line. -/
def autoStep : MachineM Unit := do
  let s := (← get).session
  let number := toString s.auto.line
  let isTaken := s.auto.line ≤ 65535 && s.program.contains s.auto.line.toUInt16
  let offered := number ++ if isTaken then "*" else " "
  let line := dropStar number (← readLine offered offered.utf8ByteSize)
  if ← takeLine line then
    offerNext (← editProgram false)
  else if !Text.isBlank line then
    modifySession fun s => { s with mode := .executing }

end LineBasic.Machine

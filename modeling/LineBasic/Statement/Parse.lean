import LineBasic.Statement.Basic
import LineBasic.Statement.Expression

/-!
# Reading statements

From the code of a statement to what it asks for.  A statement must be followed by a colon or by the end
of its line.
-/

namespace LineBasic.Parse

open Token Scan

/-- The width of the zones that a comma in `PRINT` moves to. -/
def zoneWidth : Nat := 14

/-- Takes a keyword if it comes next after blanks. -/
def acceptWord (k : Keyword) : Scanner Bool :=
  accept k.code

/-- Takes a keyword after blanks; anything else is a syntax error. -/
def expectWord (k : Keyword) : Scanner Unit :=
  expect k.code

/-- Reads operands up to the end of the statement. -/
def whole (p : Scanner Statement) : Scanner Statement := do
  let s ← p
  endOfStatement
  return s

/-- A range of lines: one number, or two with a minus sign between them, of which either may be left
out. -/
def lineRange : Scanner (Option UInt16 × Option UInt16) := do
  let first ← jumpTarget?
  if ← accept [Operator.minus.code] then return (first, ← jumpTarget?)
  return (first, first)

/-- The number of a file. -/
def fileNumber (scope : Scope) : Scanner UInt8 := do
  let n ← Expression.integer scope
  Expression.ofExcept (checkRangeOr .badFileNumber 1 255 (some n.toInt))
  return UInt8.ofNat n.toInt.toNat

/-- The number of a key, in parentheses. -/
def keyNumber (scope : Scope) : Scanner UInt8 := do
  expect [openParen]
  let n ← Expression.integer scope
  expect [closeParen]
  Expression.ofExcept (checkRange 1 EventKind.maxKey [some n.toInt])
  return UInt8.ofNat n.toInt.toNat

/-- `ON`, `OFF` or `STOP`. -/
def eventCommand : Scanner EventCommand := do
  if ← acceptWord .ON then return .on
  if ← acceptWord .OFF then return .off
  if ← acceptWord .STOP then return .stop
  throw (.of .syntaxError)

/-- An assignment, with or without its keyword. -/
def assignment (scope : Scope) : Scanner Statement := do
  let target ← name
  expect [Operator.equal.code]
  let v ← Expression.value scope
  endOfStatement
  return .assign target v

/-- The text of the items of `PRINT`.  A comma moves to the next zone; a comma or semicolon at the end
holds the newline back. -/
def printItems (scope : Scope) (newline : Bool) (out : String) : Nat → Scanner String
  | 0 => throw (.of .syntaxError)
  | fuel + 1 => do
    let b := (← next?).getD endLine
    if b = endLine || b = colon then return if newline then out ++ "\n" else out
    else if b = semicolon then
      let _ ← byte?
      printItems scope false out fuel
    else if b = comma then
      let _ ← byte?
      let pad := zoneWidth - out.utf8ByteSize % zoneWidth
      printItems scope false (out ++ String.ofList (List.replicate pad ' ')) fuel
    else
      let v ← Expression.value scope
      printItems scope true (out ++ v.text) fuel

/-- `PRINT`, perhaps to a file. -/
def print (scope : Scope) : Scanner Statement := do
  let file ← if ← accept [hash] then
      let n ← fileNumber scope
      expect [comma]
      pure (some n)
    else pure none
  return .print file (← printItems scope true "" ((← get).length + 1))

/-- `AUTO` with the first number and the step, either of which may be left out. -/
def auto : Scanner Statement := do
  let line := (← jumpTarget?).getD 10
  let increment ← if ← accept [comma] then jumpTarget? else pure none
  endOfStatement
  return .auto line increment

/-- `DELETE` with a range of lines. -/
def delete : Scanner Statement := do
  let (first, last) ← lineRange
  if first.isNone && last.isNone then throw (.of .illegalFunctionCall)
  endOfStatement
  return .delete first last

/-- The handler of an event, at the end of the statement. -/
def gosubLine : Scanner UInt16 := do
  expectWord .GOSUB
  let line ← jumpTarget
  endOfStatement
  return line

/-- The period of the timer, in whole seconds up to a day. -/
def timerSeconds (scope : Scope) : Scanner Nat := do
  expect [openParen]
  let v ← Expression.value scope
  expect [closeParen]
  let x ← Expression.ofExcept v.toSingle
  if !x.isBetween 1 86400 then throw (.of .illegalFunctionCall)
  return (x.round?.getD 0).toNat

/-- What a scanner gives, a failure included. -/
def attempt {α : Type} (p : Scanner α) : Scanner (Except BasicError α) := fun code =>
  match p code with
  | .ok a rest => .ok (.ok a) rest
  | .error e rest => .ok (.error e) rest

/-- `ON` with an error, a key or the timer. -/
def on (scope : Scope) : Scanner Statement := do
  if ← acceptWord .ERROR then
    expectWord .GOTO
    whole do return .onError (← jumpTarget)
  else if ← acceptWord .KEY then
    let key ← keyNumber scope
    return .onKey key (← gosubLine)
  else if ← acceptWord .TIMER then
    let seconds ← timerSeconds scope
    return .onTimer seconds (← attempt gosubLine)
  else throw (.of .syntaxError)

/-- `ERROR` with a number. -/
def raise (scope : Scope) : Scanner Statement := do
  let n ← Expression.integer scope
  Expression.ofExcept (checkRange 1 255 [some n.toInt])
  endOfStatement
  return .raise ⟨UInt16.ofNat n.toInt.toNat⟩

/-- `RESUME`, `RESUME NEXT` or `RESUME` with a line; line 0 means the statement. -/
def resume : Scanner Statement := whole do
  if ← acceptWord .NEXT then return .resume .next
  match ← jumpTarget? with
  | none => return .resume .statement
  | some line => return .resume (if line = 0 then .statement else .line line)

/-- What a file is opened for. -/
def fileMode : Scanner FileMode := do
  if ← acceptWord .INPUT then return .input
  if ← acceptWord .OUTPUT then return .output
  if ← acceptWord .APPEND then return .append
  if ← acceptWord .RANDOM then return .random
  throw (.of .syntaxError)

/-- `OPEN` with a name, a mode and a number. -/
def openFile (scope : Scope) : Scanner Statement := do
  let name ← Expression.string scope
  expectWord .FOR
  let mode ← fileMode
  expectWord .AS
  let _ ← accept [hash]
  let number ← fileNumber scope
  endOfStatement
  return .openFile name mode number

/-- The numbers of the files to close; `closed` holds those before, last first. -/
def closeNumbers (scope : Scope) (closed : List UInt8) :
    Nat → Scanner (List UInt8 × Except BasicError Unit)
  | 0 => return (closed.reverse, .error (.of .syntaxError))
  | fuel + 1 => do
    let _ ← accept [hash]
    match ← attempt (fileNumber scope) with
    | .error e => return (closed.reverse, .error e)
    | .ok n =>
      if ← accept [comma] then closeNumbers scope (n :: closed) fuel
      else return ((n :: closed).reverse, ← attempt endOfStatement)

/-- `CLOSE`, for all files or for those that are named. -/
def close (scope : Scope) : Scanner Statement := do
  match ← attempt endOfStatement with
  | .ok () => return .closeAll
  | .error _ =>
    let (numbers, rest) ← closeNumbers scope [] ((← get).length + 1)
    return .closeFiles numbers rest

/-- A statement after its keyword. -/
def afterWord (scope : Scope) : Keyword → Scanner Statement
  | .LET => assignment scope
  | .PRINT => print scope
  | .GOTO => whole do return .goto (← jumpTarget)
  | .GOSUB => whole do return .gosub (← jumpTarget)
  | .RETURN => whole do return .returnTo (← jumpTarget?)
  | .END => whole (pure .endProgram)
  | .STOP => whole (pure .stop)
  | .CONT => whole (pure .cont)
  | .RUN => whole do return .run (← jumpTarget?)
  | .NEW => whole (pure .new)
  | .CLEAR => do
    forwardTo statementEnds true
    return .clear
  | .LIST => whole do
    let (first, last) ← lineRange
    return .list first last
  | .REM | .ELSE => do
    forwardTo [endLine] true
    return .comment
  | .AUTO => auto
  | .EDIT => whole do return .edit (← jumpTarget)
  | .DELETE => delete
  | .ON => on scope
  | .KEY => whole do
    let key ← keyNumber scope
    return .trapCommand (.key key) (← eventCommand)
  | .ERROR => raise scope
  | .RESUME => resume
  | .TRON => whole (pure (.trace true))
  | .TROFF => whole (pure (.trace false))
  | .OPEN => openFile scope
  | .CLOSE => close scope
  | .SYSTEM => whole (pure .system)
  | .TIMER => whole do return .trapCommand .timer (← eventCommand)
  | _ => throw (.of .syntaxError)

/-- The keyword that comes next; any other byte is a syntax error. -/
def word : Scanner Keyword := do
  let first := (← byte?).getD endLine
  let code ← if first = page then pure [first, (← byte?).getD endLine] else pure [first]
  match Keyword.ofCode? code with
  | some k => return k
  | none => throw (.of .syntaxError)

/-- The statement that comes next.  One that starts with a letter is an assignment. -/
def statement (scope : Scope) : Scanner Statement := do
  match ← next? with
  | none => return .nothing
  | some b =>
    if b = endLine || b = colon then return .nothing
    else if isLetter b then assignment scope
    else afterWord scope (← word)

/-- What stands before a statement. -/
inductive Boundary where
  /-- The marker of a line. -/
  | line (number : UInt16)
  /-- The end of the code. -/
  | ended
  /-- A colon, or nothing. -/
  | inLine
  deriving DecidableEq, Repr

/-- Passes what stands before a statement. -/
def boundary : Scanner Boundary := do
  match ← next? with
  | none => return .ended
  | some b =>
    if b = endLine then
      let _ ← byte?
      match ← lineMarker? with
      | some number => return .line number
      | none => return .ended
    else if b = colon then
      let _ ← byte?
      return .inLine
    else return .inLine

end LineBasic.Parse

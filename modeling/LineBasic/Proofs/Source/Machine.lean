import LineBasic.Console
import LineBasic.Proofs.Program.Load
import LineBasic.Proofs.Source.Syntax

/-!
# Running source text

A machine that runs a program as its text has it.  Where it stands is told by the number of a line and the
index of a statement in that line; subroutines return to such positions.  There is no code here, and no
offset.

* `TextLine`, `ofText`: the numbered lines of a program's text.
* `State`, `step`, `run`: the machine.
-/

namespace LineBasic.Source

/-! ## Programs as text -/

/-- A numbered line of text. -/
structure TextLine where
  number : UInt16
  text : List UInt8
  deriving DecidableEq, Repr

namespace TextLine

/-- The lexemes of the statements of a line. -/
def pieces (l : TextLine) : List (List Lexeme) :=
  (split l.text).1 :: (split l.text).2

/-- The statements of a line. -/
def commands (l : TextLine) : List Command :=
  l.pieces.map fun piece => command (strip piece)

end TextLine

/-- Adds a line in its place; a line with the same number is replaced. -/
def insertText (l : TextLine) : List TextLine → List TextLine
  | [] => [l]
  | m :: rest =>
    if l.number < m.number then l :: m :: rest
    else if l.number = m.number then l :: rest
    else m :: insertText l rest

/-- Lines with one more line of text: its number alone deletes a line. -/
def enterText (lines : List TextLine) (bytes : List UInt8) : List TextLine :=
  match Program.numberedText? bytes with
  | none => lines
  | some (n, text) =>
    if text = [] then lines.filter fun l => l.number ≠ n else insertText ⟨n, text⟩ lines

/-- The lines of a program's text. -/
def ofText (bytes : List UInt8) : List TextLine :=
  (Text.fileLines bytes).foldl enterText []

/-! ## Positions -/

/-- The number of a line and the index of a statement in it; none after the last line. -/
abbrev Position := Option (UInt16 × Nat)

/-- The line with a number. -/
def line? (lines : List TextLine) (n : UInt16) : Option TextLine :=
  lines.find? fun l => l.number = n

/-- The statement at a position. -/
def commandAt? (lines : List TextLine) (n : UInt16) (i : Nat) : Option Command :=
  (line? lines n).bind fun l => l.commands[i]?

/-- Where a program starts. -/
def start (lines : List TextLine) : Position :=
  lines.head?.map fun l => (l.number, 0)

/-- The position after a statement: the next statement of the line, or the next line. -/
def next (lines : List TextLine) (n : UInt16) (i : Nat) : Position :=
  if (commandAt? lines n (i + 1)).isSome then some (n, i + 1)
  else (lines.find? fun l => n < l.number).map fun l => (l.number, 0)

/-- A position at which a statement stands, or the end. -/
def IsPosition (lines : List TextLine) : Position → Prop
  | none => True
  | some (n, i) => (commandAt? lines n i).isSome

/-! ## The machine -/

/-- The state of a machine that runs text. -/
structure State where
  position : Position
  /-- Where subroutines return to, the last one first. -/
  stack : List Position
  vars : Variables
  console : Console
  /-- The value of `ERR`. -/
  err : UInt16
  /-- The value of `ERL`. -/
  erl : UInt16

/-- What expressions may refer to. -/
def State.scope (s : State) : Scope where
  vars := s.vars
  err := s.err
  erl := s.erl

/-- What comes of a statement. -/
inductive Outcome where
  | running (s : State)
  | ended (s : State)
  | failed (signal : Signal) (s : State)

/-- The deepest nesting of subroutines. -/
def maxDepth : Nat := 256

/-- Performs a statement; `after` is the position after it. -/
def perform (lines : List TextLine) (s : State) (after : Position) : Command → Outcome
  | .nothing | .comment => .running { s with position := after }
  | .assign name e =>
    match (do s.vars.store name (← e.eval s.scope) : Except BasicError Variables) with
    | .ok vars => .running { s with vars, position := after }
    | .error e => .failed (.error e) s
  | .print items =>
    match printText s.scope true "" items with
    | .error e => .failed (.error e) s
    | .ok text =>
      let (succeeded, console) := s.console.write text
      if succeeded then .running { s with console, position := after }
      else .failed (.fault "write failed") { s with console }
  | .goto n =>
    if (line? lines n).isSome then .running { s with position := some (n, 0) }
    else .failed (.raise .undefinedLineNumber) s
  | .gosub n =>
    if (line? lines n).isNone then .failed (.raise .undefinedLineNumber) s
    else if maxDepth ≤ s.stack.length then .failed (.raise .outOfMemory) s
    else .running { s with position := some (n, 0), stack := after :: s.stack }
  | .returnTo line =>
    match s.stack, line with
    | [], _ => .failed (.raise .returnWithoutGosub) s
    | caller :: stack, none => .running { s with position := caller, stack }
    | _ :: stack, some n =>
      if (line? lines n).isSome then .running { s with position := some (n, 0), stack }
      else .failed (.raise .undefinedLineNumber) { s with stack }
  | .endProgram => .ended s
  | .broken none => .failed (.raise .syntaxError) s
  | .broken (some e) =>
    match e.eval s.scope with
    | .ok _ => .failed (.raise .syntaxError) s
    | .error e => .failed (.error e) s
  | .foreign => .failed (.raise .syntaxError) s

/-- Performs the statement at the machine's position. -/
def step (lines : List TextLine) (s : State) : Outcome :=
  match s.position with
  | none => .ended s
  | some (n, i) =>
    match commandAt? lines n i with
    | none => .ended s
    | some c => perform lines s (next lines n i) c

/-- Performs a number of statements, or fewer if that ends. -/
def run (lines : List TextLine) : Nat → State → Outcome
  | 0, s => .running s
  | k + 1, s =>
    match run lines k s with
    | .running s => step lines s
    | outcome => outcome

end LineBasic.Source

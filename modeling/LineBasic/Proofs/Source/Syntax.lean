import LineBasic.Proofs.Source.Lexeme
import LineBasic.Statement.Parse

/-!
# The syntax of statements

From the lexemes of a statement, without blanks, to what it says and what its expressions are worth.

* `Expr`, `expression`: expressions, and how they are read.
* `Command`, `command`: statements that calculate, print and jump, and how they are read.

What is malformed has its place in the syntax too: it fails when it is evaluated, after everything to its
left has been evaluated.
-/

namespace LineBasic.Source

open Token

/-! ## Expressions -/

/-- What is written as an expression, right or wrong. -/
inductive Expr where
  | literal (v : Value)
  | value (name : String)
  /-- The number of the last error. -/
  | errorNumber
  /-- The line of the last error. -/
  | errorLine
  | negate (e : Expr)
  | add (left right : Expr)
  | subtract (left right : Expr)
  /-- What cannot be an operand. -/
  | broken (code : ErrorCode)
  /-- An opening parenthesis without a closing one. -/
  | unclosed (e : Expr)
  deriving DecidableEq, Repr

/-- The value of an expression, its operands evaluated from left to right. -/
def Expr.eval (scope : Scope) : Expr → Except BasicError Value
  | literal v => .ok v
  | value name => .ok (scope.vars.fetch name)
  | errorNumber => .ok (.integer (Int16.ofNat scope.err.toNat))
  | errorLine => .ok (.ofInt scope.erl.toNat)
  | negate e => do (← e.eval scope).negate
  | add left right => do (← left.eval scope).add (← right.eval scope)
  | subtract left right => do (← left.eval scope).subtract (← right.eval scope)
  | broken code => .error (.of code)
  | unclosed e => do
    let _ ← e.eval scope
    .error (.of .syntaxError)

/-- A lexeme as an operand.  Whole numbers count up to 4294967295. -/
def operand : Lexeme → Expr
  | .name t => .value (Text.ofBytes t)
  | .whole digits => .literal (.ofInt (min (Crunch.decimalValue digits) 4294967295 : Nat))
  | .fraction digits decimals =>
    .literal (.single (.ofRatio (Crunch.decimalValue (digits ++ decimals)) (Nat.pow 10 decimals.length)))
  | .text inside _ => .literal (.string (Text.ofBytes inside))
  | .word .ERR => .errorNumber
  | .word .ERL => .errorLine
  | _ => .broken .syntaxError

/-- An expression at the start of `n` lexemes, and the lexemes after it. -/
structure Parsed (n : Nat) where
  expr : Expr
  rest : List Lexeme
  length_rest : rest.length ≤ n - 1

theorem Parsed.length_rest_le {n : Nat} (p : Parsed n) : p.rest.length ≤ n :=
  Nat.le_trans p.length_rest (Nat.sub_le _ _)

theorem Parsed.length_tail_le {n : Nat} (p : Parsed n) : p.rest.tail.length ≤ n :=
  Nat.le_trans (List.length_tail ▸ Nat.sub_le _ _) p.length_rest_le

mutual

/-- Signs, then an operand or an expression in parentheses. -/
def term (ls : List Lexeme) : Parsed ls.length :=
  match ls with
  | [] => ⟨.broken .missingOperand, [], Nat.le_refl _⟩
  | l :: after =>
    if l = .operator .minus then
      ⟨.negate (term after).expr, (term after).rest, (term after).length_rest_le⟩
    else if l = .operator .plus then
      ⟨(term after).expr, (term after).rest, (term after).length_rest_le⟩
    else if l = .symbol openParen then
      if (expression after).rest.head? = some (.symbol closeParen) then
        ⟨(expression after).expr, (expression after).rest.tail, (expression after).length_tail_le⟩
      else
        ⟨.unclosed (expression after).expr, (expression after).rest, (expression after).length_rest_le⟩
    else ⟨operand l, after, Nat.le_refl _⟩
termination_by (ls.length, 0)

/-- Terms added to and subtracted from `left`. -/
def sum (left : Expr) (ls : List Lexeme) : Parsed (ls.length + 1) :=
  match ls with
  | [] => ⟨left, [], Nat.le_refl _⟩
  | l :: after =>
    have h : (term after).rest.length ≤ after.length := (term after).length_rest_le
    if l = .operator .plus then
      let found := sum (.add left (term after).expr) (term after).rest
      ⟨found.expr, found.rest, Nat.le_trans found.length_rest (Nat.le_succ_of_le h)⟩
    else if l = .operator .minus then
      let found := sum (.subtract left (term after).expr) (term after).rest
      ⟨found.expr, found.rest, Nat.le_trans found.length_rest (Nat.le_succ_of_le h)⟩
    else ⟨left, l :: after, Nat.le_refl _⟩
termination_by (ls.length, 1)

/-- An expression: terms, added and subtracted. -/
def expression (ls : List Lexeme) : Parsed ls.length :=
  have _h : (term ls).rest.length ≤ ls.length := (term ls).length_rest_le
  let found := sum (term ls).expr (term ls).rest
  ⟨found.expr, found.rest, Nat.le_trans found.length_rest (term ls).length_rest⟩
termination_by (ls.length, 2)
decreasing_by
  · exact Prod.Lex.right _ (by decide)
  · rcases Nat.lt_or_eq_of_le _h with hlt | heq
    · exact Prod.Lex.left _ _ hlt
    · rw [heq]
      exact Prod.Lex.right _ (by decide)

end

/-! ## Statements -/

/-- What a `PRINT` statement lists. -/
inductive PrintItem where
  | semicolon
  | comma
  | value (e : Expr)
  deriving DecidableEq, Repr

/-- The items of a `PRINT` statement. -/
def printItems (ls : List Lexeme) : List PrintItem :=
  match ls with
  | [] => []
  | l :: after =>
    if l = .symbol Token.semicolon then .semicolon :: printItems after
    else if l = .symbol Token.comma then .comma :: printItems after
    else .value (expression (l :: after)).expr :: printItems (expression (l :: after)).rest
termination_by ls.length
decreasing_by
  · exact Nat.lt_succ_self _
  · exact Nat.lt_succ_self _
  · exact Nat.lt_succ_of_le (expression (l :: after)).length_rest

/-- The text that `PRINT` shows after `out`.  A comma moves to the next zone; a comma or semicolon at the
end holds the newline back. -/
def printText (scope : Scope) (newline : Bool) (out : String) :
    List PrintItem → Except BasicError String
  | [] => .ok (if newline then out ++ "\n" else out)
  | .semicolon :: rest => printText scope false out rest
  | .comma :: rest =>
    let pad := Parse.zoneWidth - out.utf8ByteSize % Parse.zoneWidth
    printText scope false (out ++ String.ofList (List.replicate pad ' ')) rest
  | .value e :: rest => do
    let v ← e.eval scope
    printText scope true (out ++ v.text) rest

/-- A statement. -/
inductive Command where
  /-- Nothing between two separators. -/
  | nothing
  | comment
  | assign (name : String) (e : Expr)
  | print (items : List PrintItem)
  | goto (line : UInt16)
  | gosub (line : UInt16)
  /-- Back to the caller, or to a line. -/
  | returnTo (line : Option UInt16)
  | endProgram
  /-- Malformed, perhaps after an expression. -/
  | broken (e : Option Expr)
  /-- A statement of another kind. -/
  | foreign
  deriving DecidableEq, Repr

/-- A line number that is all there is. -/
def target? : List Lexeme → Option UInt16
  | [.whole digits] =>
    if Crunch.decimalValue digits ≤ 65535 then some (UInt16.ofNat (Crunch.decimalValue digits))
    else none
  | _ => none

/-- A statement with a line number. -/
def jump (make : UInt16 → Command) (ls : List Lexeme) : Command :=
  ((target? ls).map make).getD (.broken none)

/-- A name, an equals sign and an expression. -/
def assignment : List Lexeme → Command
  | .name t :: .operator .equal :: rest =>
    if (expression rest).rest = [] then .assign (Text.ofBytes t) (expression rest).expr
    else .broken (some (expression rest).expr)
  | _ => .broken none

/-- An assignment is one, or is malformed. -/
theorem assignment_cases (ls : List Lexeme) :
    (∃ name e, assignment ls = .assign name e) ∨ ∃ e, assignment ls = .broken e := by
  unfold assignment
  split
  · split
    · exact .inl ⟨_, _, rfl⟩
    · exact .inr ⟨_, rfl⟩
  · exact .inr ⟨_, rfl⟩

/-- A statement after its keyword. -/
def afterWord (rest : List Lexeme) : Keyword → Command
  | .LET => assignment rest
  | .PRINT => if rest.head? = some (.symbol hash) then .foreign else .print (printItems rest)
  | .GOTO => jump .goto rest
  | .GOSUB => jump .gosub rest
  | .RETURN => if rest = [] then .returnTo none else jump (fun n => .returnTo (some n)) rest
  | .END => if rest = [] then .endProgram else .broken none
  | _ => .foreign

/-- The statement that a list of lexemes without blanks is. -/
def command : List Lexeme → Command
  | [] => .nothing
  | .remark _ :: _ => .comment
  | .name t :: rest => assignment (.name t :: rest)
  | .word k :: rest => afterWord rest k
  | _ => .broken none

end LineBasic.Source

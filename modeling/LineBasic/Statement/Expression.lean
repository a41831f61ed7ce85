import LineBasic.Code.Scan
import LineBasic.Variables

/-!
# Expressions

Sums and differences of strings, numbers, variables, `ERR`, `ERL` and parenthesised expressions.  An
expression is evaluated while it is read, so an error leaves the scanner right after its cause.
-/

namespace LineBasic

/-- What an expression may refer to. -/
structure Scope where
  vars : Variables
  err : UInt16
  erl : UInt16

namespace Expression

open Token Scan

/-- A result in a scanner. -/
def ofExcept {α : Type} : Except BasicError α → Scanner α
  | .ok a => pure a
  | .error e => throw e

/-- The bytes of a string after its opening quote, and the code after its closing quote.  The end of a
line ends a string too. -/
def splitString (code : List UInt8) : List UInt8 × List UInt8 :=
  let inside := code.takeWhile fun b => b ≠ endLine && b ≠ quote
  match code.dropWhile fun b => b ≠ endLine && b ≠ quote with
  | [] => (inside, [])
  | b :: rest => if b = quote then (inside, rest) else (inside, b :: rest)

/-- The value of a numeric constant with an operand. -/
def constant (lead : UInt8) (operand : List UInt8) : Value :=
  if lead = integerConstant then .integer (Int16.ofNat (Endian.value operand))
  else if lead = singleConstant then .single ⟨UInt32.ofNat (Endian.value operand)⟩
  else .ofInt (Endian.value operand)

/-- Signs before a term, then the term; `parenthesised` reads what follows an opening parenthesis. -/
def term (scope : Scope) (parenthesised : Scanner Value) : Nat → Scanner Value
  | 0 => throw (.of .syntaxError)
  | fuel + 1 => do
    match ← next? with
    | none => throw (.of .missingOperand)
    | some c =>
      if c = endLine || c = colon then throw (.of .missingOperand)
      else if isLetter c then return scope.vars.fetch (← name)
      else
        let _ ← byte?
        if c = quote then
          modifyGet fun code => (.string (Text.ofBytes (splitString code).1), (splitString code).2)
        else if zero ≤ c && c ≤ ten then return .integer (Int16.ofNat (c - zero).toNat)
        else if c ∈ [byteConstant, integerConstant, lineNumber, singleConstant] then
          let operand ← take (operandLength c)
          if operand.length < operandLength c then throw (.of .syntaxError)
          return constant c operand
        else if c = Operator.minus.code then
          ofExcept (← term scope parenthesised fuel).negate
        else if c = Operator.plus.code then term scope parenthesised fuel
        else if c = openParen then
          let v ← parenthesised
          expect [closeParen]
          return v
        else if [c] = Keyword.ERR.code then return .integer (Int16.ofNat scope.err.toNat)
        else if [c] = Keyword.ERL.code then return .ofInt scope.erl.toNat
        else throw (.of .syntaxError)

/-- Terms added to and subtracted from a value, from left to right. -/
def sum (operand : Scanner Value) : Nat → Value → Scanner Value
  | 0, v => return v
  | fuel + 1, v => do
    if ← accept [Operator.plus.code] then
      sum operand fuel (← ofExcept (v.add (← operand)))
    else if ← accept [Operator.minus.code] then
      sum operand fuel (← ofExcept (v.subtract (← operand)))
    else return v

/-- An expression with parentheses up to a depth. -/
def nested (scope : Scope) : Nat → Scanner Value
  | 0 => throw (.of .syntaxError)
  | depth + 1 => do
    let fuel := (← get).length + 1
    let operand := term scope (nested scope depth) fuel
    sum operand fuel (← operand)

/-- The value of an expression.  Parentheses cannot be deeper than the code is long. -/
def value (scope : Scope) : Scanner Value := do
  nested scope ((← get).length + 1)

/-- The value of an expression as an integer. -/
def integer (scope : Scope) : Scanner Int16 := do
  ofExcept (← value scope).toInteger

/-- The value of an expression that is a string. -/
def string (scope : Scope) : Scanner String := do
  match ← value scope with
  | .string s => return s
  | _ => throw (.of .typeMismatch)

end Expression

end LineBasic

import LineBasic.Byte.Endian
import LineBasic.Error
import LineBasic.Text.Bytes
import LineBasic.Token.Basic

/-!
# Scanning code

How statements read the code that follows them.  A `Scanner` works on the list of bytes still to come
and keeps its place when it fails, because the place of an error is part of its report.

* `Scan.lineMarker`: the link and number that follow the end of a line.
* `Scan.skipTo`: forward to a byte in code, past strings, comments, operands and line markers.
* `Scan.jumpTarget`, `Scan.name`: the operands of statements.
-/

namespace LineBasic

/-- A reader of the code to come. -/
abbrev Scanner := EStateM BasicError (List UInt8)

namespace Scan

open Token

/-! ## On the bytes to come -/

/-- The number of the line whose marker comes next.  The end of the program, two zero bytes, and a
marker cut short are not passed. -/
def lineMarker : List UInt8 → Option UInt16 × List UInt8
  | a :: b :: lo :: hi :: rest =>
    if a = 0 ∧ b = 0 then (none, a :: b :: lo :: hi :: rest) else (some (Endian.ofPair lo hi), rest)
  | code => (none, code)

/-- Forward to a byte of the set.  Bytes in strings, in comments and in operands do not count.  The end
of a line closes strings and comments and is followed by the marker of the next line; the scan ends
after the end of the program.  Unless `stop` is set, the first byte found is passed over. -/
def skipTo (set : List UInt8) (stop literal comment : Bool) : List UInt8 → List UInt8
  | [] => []
  | c :: rest =>
    let inLiteral := if c = quote then !literal else if c = endLine then false else literal
    let inComment := if c = rem then true else if c = endLine then false else comment
    if inLiteral || inComment then skipTo set stop inLiteral inComment rest
    else if set.contains c && stop then c :: rest
    else if c = endLine then
      match rest with
      | a :: b :: after =>
        if a = 0 ∧ b = 0 then after
        else skipTo set (stop || set.contains c) false false (after.drop 2)
      | _ => []
    else skipTo set (stop || set.contains c) false false (rest.drop (operandLength c))
termination_by code => code.length
decreasing_by all_goals simp only [List.length_drop, List.length_cons]; omega

/-- A scan ends somewhere in the code it started on. -/
theorem skipTo_suffix (set : List UInt8) (stop literal comment : Bool) (code : List UInt8) :
    skipTo set stop literal comment code <:+ code := by
  fun_induction skipTo set stop literal comment code with
  | case1 => exact List.suffix_refl _
  | case2 _ _ _ c rest _ _ _ ih => exact ih.trans (List.suffix_cons c rest)
  | case3 => exact List.suffix_refl _
  | case4 _ _ _ a b after =>
    exact (List.suffix_cons b after).trans ((List.suffix_cons a _).trans (List.suffix_cons _ _))
  | case5 _ _ _ a b after _ _ _ _ _ ih =>
    exact ih.trans ((List.drop_suffix 2 after).trans
      ((List.suffix_cons b after).trans ((List.suffix_cons a _).trans (List.suffix_cons _ _))))
  | case6 => exact List.nil_suffix
  | case7 _ _ _ c rest _ _ _ _ _ ih =>
    exact ih.trans ((List.drop_suffix _ rest).trans (List.suffix_cons c rest))

theorem length_skipTo_le (set : List UInt8) (stop literal comment : Bool) (code : List UInt8) :
    (skipTo set stop literal comment code).length ≤ code.length :=
  (skipTo_suffix set stop literal comment code).length_le

/-- A line marker is passed whole or not at all. -/
theorem length_lineMarker_le (code : List UInt8) : (lineMarker code).2.length ≤ code.length := by
  unfold lineMarker
  split
  · split
    · exact Nat.le_refl _
    · simp only [List.length_cons]
      omega
  · exact Nat.le_refl _

/-! ## Scanners -/

/-- The byte that comes next, left in place. -/
def peek? : Scanner (Option UInt8) := do
  return (← get).head?

/-- The next byte. -/
def byte? : Scanner (Option UInt8) :=
  modifyGet fun
    | [] => (none, [])
    | b :: rest => (some b, rest)

/-- Up to `n` bytes, fewer at the end. -/
def take (n : Nat) : Scanner (List UInt8) :=
  modifyGet fun code => (code.take n, code.drop n)

/-- Passes all bytes of a kind. -/
def skipWhile (p : UInt8 → Bool) : Scanner Unit :=
  modify fun code => code.dropWhile p

/-- The first byte that is not blank, left in place. -/
def next? : Scanner (Option UInt8) := do
  skipWhile isBlank
  peek?

/-- The next byte that is not blank. -/
def readNext? : Scanner (Option UInt8) := do
  skipWhile isBlank
  byte?

/-- Takes one of the tokens, all of one length, if it comes next. -/
def acceptAny (tokens : List (List UInt8)) : Scanner Bool := do
  let code ← get
  match tokens with
  | [] => return false
  | token :: _ =>
    let found := code.take token.length
    if found.length = token.length ∧ found ∈ tokens then
      set (code.drop token.length)
      return true
    else return false

/-- Takes a token if it comes next after blanks. -/
def accept (token : List UInt8) : Scanner Bool := do
  skipWhile isBlank
  acceptAny [token]

/-- Takes one of the tokens after blanks, or fails. -/
def expectAny (tokens : List (List UInt8)) (code : ErrorCode) : Scanner Unit := do
  skipWhile isBlank
  if ← acceptAny tokens then return ()
  throw (.of code)

/-- Takes a token after blanks; anything else is a syntax error. -/
def expect (token : List UInt8) : Scanner Unit :=
  expectAny [token] .syntaxError

/-- Fails unless the next byte after blanks is in the set.  The end of the code counts as the end of a
line. -/
def require (set : List UInt8) (code : ErrorCode) : Scanner Unit := do
  let b := (← next?).getD endLine
  if set.contains b then return ()
  throw (.of code)

/-- The end of the statement; anything else is a syntax error. -/
def endOfStatement : Scanner Unit :=
  require statementEnds .syntaxError

/-- The line number in the marker that comes next. -/
def lineMarker? : Scanner (Option UInt16) :=
  modifyGet lineMarker

/-- Forward to a byte of the set. -/
def forwardTo (set : List UInt8) (stop : Bool) : Scanner Unit :=
  modify (skipTo set stop false false)

/-- A line number, as after `GOTO`, or none. -/
def jumpTarget? : Scanner (Option UInt16) := do
  if ← accept [lineNumber] then
    match ← take 2 with
    | [lo, hi] => return some (Endian.ofPair lo hi)
    | _ => throw (.of .syntaxError)
  else return none

/-- A line number, as after `GOTO`. -/
def jumpTarget : Scanner UInt16 := do
  match ← jumpTarget? with
  | some line => return line
  | none => throw (.of .syntaxError)

/-- A variable name with its type mark, or the empty text. -/
def name? : Scanner String := do
  match ← next? with
  | some b =>
    if isLetter b then
      modifyGet fun code => (Text.ofBytes (splitName code).1, (splitName code).2)
    else return ""
  | none => return ""

/-- A variable name with its type mark. -/
def name : Scanner String := do
  let found ← name?
  if found.isEmpty then throw (.of .syntaxError)
  return found

end Scan

end LineBasic

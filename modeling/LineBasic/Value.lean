import LineBasic.Error
import LineBasic.Number.Single

/-!
# Values

Strings, 16-bit integers and single precision numbers.  Integer arithmetic that does not fit becomes
single precision; strings can only be joined.
-/

namespace LineBasic

/-- A string, an integer or a number of single precision. -/
inductive Value where
  | string (text : String)
  | integer (n : Int16)
  | single (x : Single)
  deriving DecidableEq, Repr

namespace Value

/-- The integer with this value, if there is one. -/
def fit? (n : Int) : Option Int16 :=
  if -32768 ≤ n && n ≤ 32767 then some (Int16.ofInt n) else none

/-- The value of a whole number: an integer if it fits, else single precision. -/
def ofInt (n : Int) : Value :=
  match fit? n with
  | some i => integer i
  | none => single (.ofInt n)

/-- The value as a single precision number; a string has none. -/
def toSingle : Value → Except BasicError Single
  | integer n => .ok (.ofInt n.toInt)
  | single x => .ok x
  | string _ => .error (.of .typeMismatch)

/-- The value as an integer, a half rounded away from zero; a string has none. -/
def toInteger : Value → Except BasicError Int16
  | integer n => .ok n
  | single x =>
    match x.round?.bind fit? with
    | some n => .ok n
    | none => .error (.of .overflow)
  | string _ => .error (.of .typeMismatch)

/-- The sum of two numbers, an integer if it can be one; two strings are joined. -/
def add : Value → Value → Except BasicError Value
  | string a, string b => .ok (string (a ++ b))
  | string _, _ => .error (.of .typeMismatch)
  | _, string _ => .error (.of .typeMismatch)
  | integer a, integer b =>
    match fit? (a.toInt + b.toInt) with
    | some n => .ok (integer n)
    | none => .ok (single ((Single.ofInt a.toInt).add (.ofInt b.toInt)))
  | integer a, single b => .ok (single ((Single.ofInt a.toInt).add b))
  | single a, integer b => .ok (single (a.add (.ofInt b.toInt)))
  | single a, single b => .ok (single (a.add b))

/-- The difference of two numbers, an integer if it can be one. -/
def subtract : Value → Value → Except BasicError Value
  | string _, _ => .error (.of .typeMismatch)
  | _, string _ => .error (.of .typeMismatch)
  | integer a, integer b =>
    match fit? (a.toInt - b.toInt) with
    | some n => .ok (integer n)
    | none => .ok (single ((Single.ofInt a.toInt).sub (.ofInt b.toInt)))
  | integer a, single b => .ok (single ((Single.ofInt a.toInt).sub b))
  | single a, integer b => .ok (single (a.sub (.ofInt b.toInt)))
  | single a, single b => .ok (single (a.sub b))

/-- The negative of a number, an integer if it can be one. -/
def negate : Value → Except BasicError Value
  | integer n =>
    match fit? (-n.toInt) with
    | some m => .ok (integer m)
    | none => .ok (single (Single.ofInt n.toInt).neg)
  | single x => .ok (single x.neg)
  | string _ => .error (.of .typeMismatch)

/-- The value as it is printed: a number has its minus sign or a space before it, and a space after
it. -/
def text : Value → String
  | string s => s
  | integer n => (if n < 0 then "" else " ") ++ toString n.toInt ++ " "
  | single x => (if x.isBelowZero then "" else " ") ++ x.text ++ " "

end Value

end LineBasic

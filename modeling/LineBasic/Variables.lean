import Std.Data.ExtTreeMap
import LineBasic.Value

/-!
# Variables

The type of a variable is given by the mark at the end of its name: `$` a string of at most 255
characters, `%` an integer, anything else a single precision number.
-/

namespace LineBasic

/-- What a name may hold. -/
inductive VariableKind where
  | string | integer | single
  deriving DecidableEq, Repr

/-- The kind of variable a name stands for. -/
def VariableKind.ofName (name : String) : VariableKind :=
  match name.toList.getLast? with
  | some '$' => .string
  | some '%' => .integer
  | _ => .single

namespace VariableKind

/-- The value of a variable that was never assigned. -/
def initial : VariableKind → Value
  | string => .string ""
  | integer => .integer 0
  | single => .single ⟨0⟩

/-- The value as a variable of this kind holds it. -/
def convert : VariableKind → Value → Except BasicError Value
  | string, .string s =>
    if 255 < s.length then .error (.of .stringTooLong) else .ok (.string s)
  | string, _ => .error (.of .typeMismatch)
  | integer, v => do return .integer (← v.toInteger)
  | single, v => do return .single (← v.toSingle)

end VariableKind

/-- The assigned variables. -/
structure Variables where
  values : Std.ExtTreeMap String Value

namespace Variables

/-- No variable is assigned. -/
def empty : Variables := ⟨∅⟩

instance : Inhabited Variables := ⟨empty⟩

/-- How many variables are assigned. -/
def size (v : Variables) : Nat :=
  v.values.size

/-- The value of a variable. -/
def fetch (v : Variables) (name : String) : Value :=
  v.values[name]?.getD (VariableKind.ofName name).initial

/-- No assignment succeeds once there are more variables than this. -/
def capacity : Nat := 65535

/-- Assigns a variable, converting the value to the variable's kind. -/
def store (v : Variables) (name : String) (value : Value) : Except BasicError Variables :=
  if capacity < v.size then .error (.of .outOfMemory)
  else do
    let value ← (VariableKind.ofName name).convert value
    return ⟨v.values.insert name value⟩

/-- The assigned variables with their values, by name. -/
def toList (v : Variables) : List (String × Value) :=
  v.values.toList

/-- The assigned variables with their values, each once, in any order. -/
structure Enumeration (v : Variables) where
  entries : List (String × Value)
  perm : entries.Perm v.toList

/-- The variables by name. -/
def Enumeration.byName (v : Variables) : v.Enumeration where
  entries := v.toList
  perm := .refl _

/-- The variables of a list; of two entries for one name the later one counts. -/
def ofList (entries : List (String × Value)) : Variables :=
  ⟨entries.foldl (fun m e => m.insert e.1 e.2) ∅⟩

end Variables

end LineBasic

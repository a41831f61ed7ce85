import LineBasic.Machine.Basic

/-!
# Command lines

From the arguments of the program to what it is asked to do.  Options are written in full (`--run`), with
a value after a blank or an equals sign, or as letters that may stand together (`-rq`).
-/

namespace LineBasic

/-- What the arguments ask for. -/
inductive CommandLine where
  | start (config : Config)
  | help
  | version
  deriving DecidableEq, Repr

/-- Why arguments cannot be understood. -/
inductive UsageError where
  | unexpected (argument : String)
  | missingValue (option : String)
  | badValue (option value : String)
  deriving DecidableEq, Repr

namespace UsageError

/-- What the operator is told. -/
def message : UsageError → String
  | unexpected argument => s!"error: unexpected argument '{argument}' found"
  | missingValue option => s!"error: a value is required for '{option}' but none was supplied"
  | badValue option value => s!"error: invalid value '{value}' for '{option}'"

end UsageError

namespace CommandLine

/-- The options that take a value. -/
inductive Valued where
  | exec | stateFile | autoIncrement
  deriving DecidableEq, Repr

namespace Valued

/-- How the option and its value are shown. -/
def label : Valued → String
  | exec => "--exec <COMMAND>"
  | stateFile => "--state-file <FILE>"
  | autoIncrement => "--auto-increment <AUTO_INCREMENT>"

/-- The option with this name, as it stands after the hyphens. -/
def ofName? : String → Option Valued
  | "exec" => some exec
  | "state-file" => some stateFile
  | "auto-increment" => some autoIncrement
  | _ => none

/-- Gives an option its value. -/
def apply (config : Config) (value : String) : Valued → Except UsageError Config
  | exec => .ok { config with exec := some value }
  | stateFile => .ok { config with stateFile := some value }
  | autoIncrement =>
    match value.toNat? with
    | some n =>
      if n ≤ 65535 then .ok { config with autoIncrement := UInt16.ofNat n }
      else .error (.badValue autoIncrement.label value)
    | none => .error (.badValue autoIncrement.label value)

end Valued

/-- The arguments understood so far. -/
structure Partial where
  config : Config := {}
  /-- An option that waits for its value. -/
  pending : Option Valued := none
  /-- What follows is not an option. -/
  optionsEnded : Bool := false
  /-- A request that needs no session. -/
  answer : Option CommandLine := none
  deriving DecidableEq, Repr

/-- An option without a value, by its full name. -/
def flag? (p : Partial) : String → Option Partial
  | "run" => some { p with config := { p.config with run := true } }
  | "resume" => some { p with config := { p.config with resume := true } }
  | "quit" => some { p with config := { p.config with quit := true } }
  | "wait" => some { p with config := { p.config with wait := true } }
  | "no-greeting" => some { p with config := { p.config with greeting := false } }
  | "help" => some { p with answer := p.answer.or (some .help) }
  | "version" => some { p with answer := p.answer.or (some .version) }
  | _ => none

/-- The full name of an option letter. -/
def letterName? : Char → Option String
  | 'r' => some "run"
  | 'q' => some "quit"
  | 'w' => some "wait"
  | 'h' => some "help"
  | 'V' => some "version"
  | _ => none

/-- Option letters that stand together; the letter with a value takes what follows it. -/
def letters (argument : String) (p : Partial) : List Char → Except UsageError Partial
  | [] => .ok p
  | 'e' :: [] => .ok { p with pending := some .exec }
  | 'e' :: '=' :: value | 'e' :: value => do
    return { p with config := ← Valued.exec.apply p.config (String.ofList value) }
  | c :: rest =>
    match (letterName? c).bind (flag? p) with
    | some p => letters argument p rest
    | none => .error (.unexpected argument)

/-- An option written in full. -/
def long (argument : String) (p : Partial) (option : String) : Except UsageError Partial :=
  match flag? p option with
  | some p => .ok p
  | none =>
    let name := String.ofList (option.toList.takeWhile (· ≠ '='))
    let value := option.toList.dropWhile (· ≠ '=')
    match Valued.ofName? name, value with
    | some v, [] => .ok { p with pending := some v }
    | some v, _ :: value => do
      return { p with config := ← v.apply p.config (String.ofList value) }
    | none, _ => .error (.unexpected argument)

/-- The program to load; there can be only one. -/
def positional (p : Partial) (argument : String) : Except UsageError Partial :=
  if p.config.program.isSome then .error (.unexpected argument)
  else .ok { p with config := { p.config with program := some argument } }

/-- Takes one more argument. -/
def take (p : Partial) (argument : String) : Except UsageError Partial :=
  match p.pending, p.optionsEnded, argument.toList with
  | some v, _, _ => do return { p with config := ← v.apply p.config argument, pending := none }
  | none, true, _ => positional p argument
  | none, false, ['-', '-'] => .ok { p with optionsEnded := true }
  | none, false, '-' :: '-' :: option => long argument p (String.ofList option)
  | none, false, '-' :: c :: rest => letters argument p (c :: rest)
  | none, false, _ => positional p argument

/-- What all arguments ask for. -/
def parse (arguments : List String) : Except UsageError CommandLine := do
  let p ← arguments.foldlM take {}
  match p.answer, p.pending with
  | some answer, _ => return answer
  | none, some v => throw (.missingValue v.label)
  | none, none => return .start p.config

end CommandLine

end LineBasic

/-!
# Errors and signals

What can interrupt a statement.

* `ErrorCode`: the numbered conditions of the language, with their texts.
* `BasicError`: a condition with the place where it arose; the only signal that a program can trap.
* `Signal`: everything that leaves a statement before its end.
* `DeviceFault`: why the disk refused an operation, and the condition a program sees for it.
-/

namespace LineBasic

/-- The number of a condition.  A program may raise any number from 1 to 255. -/
structure ErrorCode where
  /-- The value of `ERR` once the condition is trapped. -/
  number : UInt16
  deriving DecidableEq, Repr

namespace ErrorCode

/-- What stands in the code cannot be read. -/
def syntaxError : ErrorCode := ⟨2⟩
/-- There is no subroutine to return from. -/
def returnWithoutGosub : ErrorCode := ⟨3⟩
/-- A number is out of its range, or a range holds no line. -/
def illegalFunctionCall : ErrorCode := ⟨5⟩
/-- A number does not fit its type. -/
def overflow : ErrorCode := ⟨6⟩
/-- A program, the variables or the subroutines have reached their limit. -/
def outOfMemory : ErrorCode := ⟨7⟩
/-- No line has the number. -/
def undefinedLineNumber : ErrorCode := ⟨8⟩
/-- A string stands for a number, or a number for a string. -/
def typeMismatch : ErrorCode := ⟨13⟩
/-- A string has more characters than a variable holds. -/
def stringTooLong : ErrorCode := ⟨15⟩
/-- There is no place to go on at. -/
def cantContinue : ErrorCode := ⟨17⟩
/-- The program ends in an error handler. -/
def noResume : ErrorCode := ⟨19⟩
/-- No error handler runs. -/
def resumeWithoutError : ErrorCode := ⟨20⟩
/-- An expression ends where an operand should stand. -/
def missingOperand : ErrorCode := ⟨22⟩
/-- Bytes that should be a line or a program are none. -/
def internalError : ErrorCode := ⟨51⟩
/-- No file is open under the number, or none can be. -/
def badFileNumber : ErrorCode := ⟨52⟩
/-- No file has the name. -/
def fileNotFound : ErrorCode := ⟨53⟩
/-- The file is not open for this. -/
def badFileMode : ErrorCode := ⟨54⟩
/-- The number is taken. -/
def fileAlreadyOpen : ErrorCode := ⟨55⟩
/-- A file cannot be read or written. -/
def deviceError : ErrorCode := ⟨57⟩
/-- A line of a program file has no number. -/
def directStatementInFile : ErrorCode := ⟨66⟩
/-- The file may not be used. -/
def permissionDenied : ErrorCode := ⟨70⟩
/-- The name cannot be that of a file, or is taken. -/
def pathFileAccessError : ErrorCode := ⟨75⟩

/-- The conditions that have a text. -/
def texts : List (UInt16 × String) :=
  [(1, "NEXT without FOR"), (2, "Syntax error"), (3, "RETURN without GOSUB"), (4, "Out of DATA"),
   (5, "Illegal function call"), (6, "Overflow"), (7, "Out of memory"),
   (8, "Undefined line number"), (9, "Subscript out of range"), (10, "Duplicate Definition"),
   (11, "Division by zero"), (12, "Illegal direct"), (13, "Type mismatch"),
   (14, "Out of string space"), (15, "String too long"), (16, "String formula too complex"),
   (17, "Can't continue"), (18, "Undefined user function"), (19, "No RESUME"),
   (20, "RESUME without error"), (22, "Missing operand"), (23, "Line buffer overflow"),
   (24, "Device Timeout"), (25, "Device Fault"), (26, "FOR without NEXT"), (27, "Out of paper"),
   (29, "WHILE without WEND"), (30, "WEND without WHILE"), (50, "FIELD overflow"),
   (51, "Internal error"), (52, "Bad file number"), (53, "File not found"), (54, "Bad file mode"),
   (55, "File already open"), (57, "Device I/O error"), (58, "File already exists"),
   (61, "Disk full"), (62, "Input past end"), (63, "Bad record number"), (64, "Bad file name"),
   (66, "Direct statement in file"), (67, "Too many files"), (68, "Device Unavailable"),
   (70, "Permission Denied"), (71, "Disk not Ready"), (75, "Path/File access error"),
   (76, "Path not found")]

/-- The text of a condition; one without a text of its own is unprintable. -/
def text (code : ErrorCode) : String :=
  (texts.lookup code.number).getD "Unprintable error"

end ErrorCode

/-- A place in the running code. -/
inductive Location where
  /-- On the direct line. -/
  | direct
  /-- At an offset of the program image. -/
  | program (offset : Nat)
  deriving DecidableEq, Repr

namespace Location

/-- The place as it appears in the description of an error. -/
def describe : Option Location → String
  | none => "None"
  | some direct => "Some(Direct)"
  | some (program offset) => s!"Some(Program({offset}))"

end Location

/-- A condition of the language, raised by a statement. -/
structure BasicError where
  code : ErrorCode
  /-- The line it is reported for, where that is already known. -/
  line : Option UInt16 := none
  location : Option Location := none
  /-- A note on the cause, empty for most conditions. -/
  note : String := ""
  deriving DecidableEq, Repr

namespace BasicError

/-- A condition whose place is not known yet. -/
def of (code : ErrorCode) : BasicError :=
  { code }

/-- A condition with a note on its cause. -/
def noted (code : ErrorCode) (note : String) : BasicError :=
  { code, note }

/-- The condition, placed. -/
def located (e : BasicError) (location : Location) : BasicError :=
  { e with location := some location }

/-- The text of the condition without line and note. -/
def text (e : BasicError) : String :=
  e.code.text

/-- The whole message: text, line and note. -/
def message (e : BasicError) : String :=
  let line := match e.line with
    | some n => s!" in {n}"
    | none => ""
  let note := if e.note.isEmpty then "" else "; " ++ e.note
  e.text ++ line ++ note

/-- Message and place, for a log. -/
def describe (e : BasicError) : String :=
  "Error \x7b " ++ e.message ++ " (" ++ Location.describe e.location ++ ") \x7d"

/-- Whether the condition arose on the direct line. -/
def isDirect (e : BasicError) : Bool :=
  e.location = some .direct

/-- Whether the condition is a syntax error. -/
def isSyntax (e : BasicError) : Bool :=
  e.code = .syntaxError

end BasicError

/-- Everything that leaves a statement before its end. -/
inductive Signal where
  /-- A condition; a program may trap it. -/
  | error (e : BasicError)
  /-- The operator's break, or the statement `STOP`; never trapped. -/
  | interrupt (stop : Bool)
  /-- Leave the interpreter. -/
  | exit
  /-- Forget the saved session and start anew. -/
  | reset
  /-- A failure outside the language. -/
  | fault (message : String)
  deriving DecidableEq, Repr

namespace Signal

/-- A condition as a signal. -/
def raise (code : ErrorCode) : Signal :=
  .error (.of code)

end Signal

/-- Why the disk or a device refused an operation. -/
inductive DeviceFault where
  | notFound
  | permissionDenied
  | alreadyExists
  | invalidInput
  | other
  deriving DecidableEq, Repr

namespace DeviceFault

/-- The condition that a program sees. -/
def code : DeviceFault → ErrorCode
  | notFound => .fileNotFound
  | permissionDenied => .permissionDenied
  | alreadyExists => .pathFileAccessError
  | invalidInput => .pathFileAccessError
  | other => .deviceError

/-- The condition that a program sees, as an error. -/
def error (fault : DeviceFault) : BasicError :=
  .of fault.code

end DeviceFault

/-- Refuses, as an illegal function call, if a present value is outside the bounds. -/
def checkRange (lower upper : Int) (values : List (Option Int)) : Except BasicError Unit :=
  if values.all fun v => v.all fun n => lower ≤ n && n ≤ upper then .ok ()
  else .error (.of .illegalFunctionCall)

/-- Refuses, with the given condition, if a present value is outside the bounds. -/
def checkRangeOr (code : ErrorCode) (lower upper : Int) (value : Option Int) :
    Except BasicError Unit :=
  if value.all fun n => lower ≤ n && n ≤ upper then .ok () else .error (.of code)

end LineBasic

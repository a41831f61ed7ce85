import LineBasic.Disk.OpenFile
import LineBasic.Event.Basic
import LineBasic.Session.Trap
import LineBasic.Value

/-!
# Statements

What a statement asks for, with its expressions evaluated.
-/

namespace LineBasic

/-- The statements. -/
inductive Statement where
  /-- Nothing between two separators. -/
  | nothing
  | assign (name : String) (value : Value)
  /-- Text for the console or for a file. -/
  | print (file : Option UInt8) (text : String)
  | goto (line : UInt16)
  | gosub (line : UInt16)
  | returnTo (line : Option UInt16)
  | endProgram
  | stop
  | cont
  | run (line : Option UInt16)
  | new
  | clear
  | list (first last : Option UInt16)
  | comment
  | auto (line : UInt16) (increment : Option UInt16)
  | edit (line : UInt16)
  | delete (first last : Option UInt16)
  | onError (line : UInt16)
  | onKey (key : UInt8) (line : UInt16)
  /-- The period counts from here on, even if the rest of the statement is malformed. -/
  | onTimer (seconds : Nat) (line : Except BasicError UInt16)
  | trapCommand (kind : EventKind) (command : EventCommand)
  | raise (code : ErrorCode)
  | resume (target : ResumeTarget)
  | trace (on : Bool)
  | openFile (name : String) (mode : FileMode) (number : UInt8)
  /-- Files are closed as they are named, even if the rest of the statement is malformed. -/
  | closeFiles (numbers : List UInt8) (rest : Except BasicError Unit)
  | closeAll
  | system

end LineBasic

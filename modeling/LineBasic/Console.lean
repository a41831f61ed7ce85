import LineBasic.Error

/-!
# The console

The operator's side of a session, as data: what will be typed, and a transcript of what was shown and
asked.  A console may fail to write, and it may fail to start a line; which writes and which starts fail
is part of the data too.
-/

namespace LineBasic

/-- What the operator does at a prompt. -/
inductive Reply where
  /-- Text typed after the text that was offered. -/
  | typed (text : String)
  /-- Text typed over the text that was offered. -/
  | over (text : String)
  /-- The break key. -/
  | breakKey
  /-- The console gives up with a signal; the label names it in the transcript. -/
  | signal (label : String) (s : Signal)
  /-- The operator has gone. -/
  | ended
  deriving DecidableEq, Repr

/-- What a transcript records. -/
inductive ConsoleEvent where
  /-- Text was shown. -/
  | out (text : String)
  /-- A line was asked for, with text offered and the cursor at a byte of it. -/
  | read (offered : String) (cursor : Nat) (reply : Reply)
  | resetCursor
  | stopSound
  | waitKey
  | close
  /-- A statement was run: which code ran and where, before and after, and its outcome. -/
  | statement (before after : Bool × Nat) (outcome : Except Signal Bool)

/-- The screen and the keyboard, with all that the operator does still to come. -/
structure Console where
  /-- Whether the last character shown does not end a line. -/
  midLine : Bool := false
  /-- How many writes were tried. -/
  writes : Nat := 0
  /-- The numbers of the writes that fail, counted from 1. -/
  failing : List Nat := []
  /-- How many times a line was to be started. -/
  starts : Nat := 0
  /-- The numbers of the starts that fail, counted from 1. -/
  failingStarts : List Nat := []
  /-- What the operator will do, in order. -/
  input : List Reply := []
  /-- What happened, last event first. -/
  transcript : List ConsoleEvent := []

namespace Console

instance : Inhabited Console := ⟨{}⟩

/-- Records an event. -/
def note (c : Console) (e : ConsoleEvent) : Console :=
  { c with transcript := e :: c.transcript }

/-- Records text, joined to the text just before it. -/
def emit (c : Console) (text : String) : Console :=
  if text.isEmpty then c
  else match c.transcript with
    | .out shown :: rest => { c with transcript := .out (shown ++ text) :: rest }
    | _ => c.note (.out text)

/-- Shows text; false if the write fails. -/
def write (c : Console) (text : String) : Bool × Console :=
  let c := { c with writes := c.writes + 1 }
  if c.failing.contains c.writes then (false, c)
  else
    let midLine := match text.toList.getLast? with
      | some last => last ≠ '\n'
      | none => c.midLine
    (true, { c.emit text with midLine })

/-- Starts a new line unless one has just been started; false if that fails.  It is no write of its own. -/
def startLine (c : Console) : Bool × Console :=
  let c := { c with starts := c.starts + 1 }
  if c.failingStarts.contains c.starts then (false, c)
  else if c.midLine then (true, { c.emit "\n" with midLine := false })
  else (true, c)

/-- Asks for a line. -/
def readLine (c : Console) (offered : String) (cursor : Nat) : Except Signal String × Console :=
  let (reply, input) := match c.input with
    | [] => (.ended, [])
    | reply :: rest => (reply, rest)
  let c := { c.note (.read offered cursor reply) with input }
  match reply with
  | .typed text => (.ok (offered ++ text), { c with midLine := false })
  | .over text => (.ok text, { c with midLine := false })
  | .breakKey => (.error (.interrupt false), c)
  | .signal _ s => (.error s, c)
  | .ended => (.error .exit, c)

/-- Whether the operator has typed ahead. -/
def inputPending (c : Console) : Bool :=
  !c.input.isEmpty

end Console

end LineBasic

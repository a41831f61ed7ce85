import LineBasic.Event.Pump

/-!
# Event feeds

What happens outside a session, as data: for each poll, counted from 1, what has happened before it.
A feed lasts for a number of polls; after them every poll asks the interpreter to leave.
-/

namespace LineBasic

/-- What a poll may be told to do. -/
inductive FeedSignal where
  /-- The operator asks for a break. -/
  | interrupt
  /-- The poll ends with a signal. -/
  | raise (s : Signal)
  deriving DecidableEq, Repr

/-- What happens at which poll. -/
structure EventFeed where
  /-- How many polls the feed lasts. -/
  limit : Nat := 3000
  /-- How many polls there were. -/
  polls : Nat := 0
  /-- Events that trigger their traps at a poll. -/
  triggers : List (Nat × EventKind) := []
  /-- Events sent to the session before a poll. -/
  sent : List (Nat × EventKind) := []
  /-- Keys pressed before a poll. -/
  pressed : List (Nat × EventKind) := []
  /-- Times at which the timer is looked at. -/
  times : List (Nat × Int64) := []
  signals : List (Nat × FeedSignal) := []
  pump : EventPump := {}
  deriving DecidableEq, Repr

namespace EventFeed

instance : Inhabited EventFeed := ⟨{}⟩

/-- The entries for a poll. -/
def entriesAt {α : Type} (n : Nat) (entries : List (Nat × α)) : List α :=
  (entries.filter fun e => e.1 = n).map Prod.snd

/-- Hands on the signals of a poll; the first that ends the poll wins, and an interrupt does not. -/
def handOn (p : EventPump) : List FeedSignal → Option Signal × EventPump
  | [] => (none, p)
  | .interrupt :: rest => handOn { p with interrupted := true } rest
  | .raise s :: _ => (some s, p)

/-- One poll. -/
def poll (f : EventFeed) (t : EventTable) (now : Int64) :
    Except Signal Unit × EventFeed × EventTable :=
  let n := f.polls + 1
  let f := { f with polls := n }
  if f.limit < n then (.error .exit, f, t)
  else
    let t := (entriesAt n f.triggers).foldl EventTable.trigger t
    let t := (entriesAt n f.sent).foldl EventTable.send t
    let keys := (entriesAt n f.pressed).foldl Queue.push f.pump.keys
    let t := (entriesAt n f.times).foldl EventTable.checkTimer t
    let (signal, pump) := handOn { f.pump with keys } (entriesAt n f.signals)
    match signal with
    | some s => (.error s, { f with pump }, t)
    | none =>
      let (outcome, pump, t) := pump.poll t now
      (outcome, { f with pump }, t)

end EventFeed

end LineBasic

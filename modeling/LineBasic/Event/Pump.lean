import LineBasic.Error
import LineBasic.Event.Basic

/-!
# Polling for events

Between statements the interpreter looks for what happened meanwhile: the operator's break, pressed
keys, events sent to the session, and the timer.
-/

namespace LineBasic

/-- What came from outside since the last poll. -/
structure EventPump where
  /-- The operator asked for a break. -/
  interrupted : Bool := false
  /-- Keys pressed.  They belong to the pump and so outlive a session. -/
  keys : Queue EventKind := {}
  deriving DecidableEq, Repr

namespace EventPump

/-- Passes on what happened.  A break comes before everything else and leaves the rest for the next
poll. -/
def poll (p : EventPump) (t : EventTable) (now : Int64) :
    Except Signal Unit × EventPump × EventTable :=
  if p.interrupted then (.error (.interrupt false), { p with interrupted := false }, t)
  else
    let t := p.keys.items.foldl EventTable.trigger t
    (.ok (), { p with keys := {} }, t.drain.checkTimer now)

end EventPump

end LineBasic

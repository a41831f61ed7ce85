import LineBasic.Code.Scan

/-!
# Code streams

Code with a place in it: the program image or the direct line while it runs.  Reading never fails at the
end, it just finds fewer bytes.
-/

namespace LineBasic

/-- Code and the offset of the byte that comes next. -/
structure CodeStream where
  bytes : List UInt8
  pos : Nat := 0
  deriving DecidableEq, Repr

namespace CodeStream

instance : Inhabited CodeStream := ⟨{ bytes := [] }⟩

/-- The bytes to come. -/
def rest (s : CodeStream) : List UInt8 :=
  s.bytes.drop s.pos

/-- Moves to an offset, or to the end if that is nearer. -/
def seek (s : CodeStream) (pos : Nat) : CodeStream :=
  { s with pos := min pos s.bytes.length }

/-- Moves by a distance, stopping at either end. -/
def seekBy (s : CodeStream) (delta : Int) : CodeStream :=
  if delta < 0 then { s with pos := s.pos - delta.natAbs } else s.seek (s.pos + delta.natAbs)

/-- The place at which the given bytes are still to come. -/
def advance (s : CodeStream) (remaining : List UInt8) : CodeStream :=
  { s with pos := s.pos + (s.rest.length - remaining.length) }

/-- Runs a scanner from here. -/
def scan {α : Type} (p : Scanner α) : EStateM BasicError CodeStream α := fun s =>
  match p s.rest with
  | .ok a remaining => .ok a (s.advance remaining)
  | .error e remaining => .error e (s.advance remaining)

end CodeStream

end LineBasic

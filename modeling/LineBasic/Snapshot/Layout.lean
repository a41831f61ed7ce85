import LineBasic.Byte.Endian
import LineBasic.Text.Bytes

/-!
# Fixed-width layout

How the parts of a session are laid out as bytes: numbers of fixed width, low byte first; a tag before
an optional value and before a choice; a length before a list or a text.  For each kind of part there is
a function that writes it and a `Decoder` that reads it.
-/

namespace LineBasic

/-- A reader of laid out bytes; it fails at the first byte that does not fit. -/
abbrev Decoder := StateT (List UInt8) Option

namespace Layout

/-! ## Numbers -/

/-- A number of a given width. -/
def nat (width n : Nat) : List UInt8 :=
  Endian.bytes width n

/-- Lengths and positions. -/
def size (n : Nat) : List UInt8 :=
  nat 8 n

/-- One byte. -/
def byte (b : UInt8) : List UInt8 :=
  [b]

/-- A line number, or another number of two bytes. -/
def word (w : UInt16) : List UInt8 :=
  nat 2 w.toNat

/-- A time or a period. -/
def time (t : Int64) : List UInt8 :=
  nat 8 t.toUInt64.toNat

/-- The number of a choice. -/
def tag (n : Nat) : List UInt8 :=
  nat 4 n

/-- A truth value, one byte. -/
def bool (b : Bool) : List UInt8 :=
  [if b then 1 else 0]

/-! ## Parts of varying length -/

/-- A value that may be missing, after a byte that says whether it is there. -/
def option {α : Type} (write : α → List UInt8) : Option α → List UInt8
  | none => [0]
  | some a => 1 :: write a

/-- The length of a list, then its items. -/
def list {α : Type} (write : α → List UInt8) (l : List α) : List UInt8 :=
  size l.length ++ l.flatMap write

/-- The length of some bytes, then the bytes themselves. -/
def bytes (l : List UInt8) : List UInt8 :=
  size l.length ++ l

/-- A text, as the bytes of its UTF-8 form. -/
def text (s : String) : List UInt8 :=
  bytes (Text.utf8 s)

end Layout

namespace Decoder

/-- The next bytes, as many as are asked for. -/
def take (n : Nat) : Decoder (List UInt8) := fun code =>
  let taken := code.take n
  if taken.length < n then none else some (taken, code.drop n)

/-- Reads a number of a given width. -/
def nat (width : Nat) : Decoder Nat := do
  return Endian.value (← take width)

/-- Reads a length or a position. -/
def size : Decoder Nat :=
  nat 8

/-- Reads one byte. -/
def byte : Decoder UInt8 := do
  return UInt8.ofNat (← nat 1)

/-- Reads a number of two bytes. -/
def word : Decoder UInt16 := do
  return UInt16.ofNat (← nat 2)

/-- Reads a time or a period. -/
def time : Decoder Int64 := do
  return (UInt64.ofNat (← nat 8)).toInt64

/-- Reads the number of a choice. -/
def tag : Decoder Nat :=
  nat 4

/-- Reads a truth value; any byte but 0 and 1 is refused. -/
def bool : Decoder Bool := do
  match ← nat 1 with
  | 0 => return false
  | 1 => return true
  | _ => failure

/-- Reads a value that may be missing. -/
def option {α : Type} (read : Decoder α) : Decoder (Option α) := do
  if ← bool then return some (← read) else return none

/-- A number of items. -/
def items {α : Type} (read : Decoder α) : Nat → Decoder (List α)
  | 0 => return []
  | n + 1 => do
    let a ← read
    return a :: (← items read n)

/-- Reads a list, its length first. -/
def list {α : Type} (read : Decoder α) : Decoder (List α) := do
  items read (← size)

/-- Reads bytes, their number first. -/
def bytes : Decoder (List UInt8) := do
  take (← size)

/-- Reads a text; bytes that are no UTF-8 are refused. -/
def text : Decoder String := do
  StateT.lift (Text.ofUtf8? (← bytes))

end Decoder

end LineBasic

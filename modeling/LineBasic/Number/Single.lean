import LineBasic.Number.Decimal

/-!
# Single precision numbers

The numbers of the language, as 32-bit patterns.  Sums are computed exactly on whole units and then
rounded to the nearest number, a half going to the even one.
-/

namespace LineBasic

/-- A single precision number. -/
structure Single where
  /-- Sign, exponent and fraction, most significant bit first. -/
  bits : UInt32
  deriving DecidableEq, Repr

namespace Single

instance : Inhabited Single := ⟨⟨0⟩⟩

/-- Exponent and fraction. -/
def pattern (x : Single) : Nat :=
  x.bits.toNat % BinaryFormat.single.signBit

/-- Whether the sign bit is set. -/
def isNegative (x : Single) : Bool :=
  BinaryFormat.single.signBit ≤ x.bits.toNat

/-- Whether it is not a number. -/
def isNaN (x : Single) : Bool :=
  BinaryFormat.single.infinity < x.pattern

/-- Whether it is an infinity. -/
def isInfinite (x : Single) : Bool :=
  x.pattern = BinaryFormat.single.infinity

/-- Whether it is a number and no infinity. -/
def isFinite (x : Single) : Bool :=
  x.pattern < BinaryFormat.single.infinity

/-- The number with a sign and a pattern. -/
def ofPattern (negative : Bool) (pattern : Nat) : Single :=
  ⟨UInt32.ofNat ((if negative then BinaryFormat.single.signBit else 0) + pattern)⟩

/-- The value of a finite number in units of the smallest magnitude. -/
def units (x : Single) : Int :=
  if x.isNegative then -(BinaryFormat.single.units x.pattern : Int)
  else BinaryFormat.single.units x.pattern

/-- The number nearest to a nonzero whole number of units; zero units give a zero with the sign. -/
def ofUnits (zeroNegative : Bool) (u : Int) : Single :=
  if u = 0 then ofPattern zeroNegative 0
  else ofPattern (u < 0) (BinaryFormat.single.round u.natAbs 1)

/-- The number nearest to `num / den`. -/
def ofRatio (num den : Nat) : Single :=
  ofPattern false (BinaryFormat.single.ofRatio num den)

/-- The number nearest to a whole number. -/
def ofInt (n : Int) : Single :=
  ofUnits false (n <<< BinaryFormat.single.scale)

/-- The number nearest to a natural number. -/
def ofNat (n : Nat) : Single :=
  ofInt n

/-- A result that is not a number keeps its payload and is marked quiet. -/
def quiet (x : Single) : Single :=
  ⟨x.bits ||| 0x00400000⟩

/-- The result of an operation without one, such as the difference of two infinities. -/
def invalid : Single :=
  ⟨0xFFC00000⟩

/-- The number with the other sign. -/
def neg (x : Single) : Single :=
  ⟨x.bits ^^^ 0x80000000⟩

/-- The sum of two numbers of which neither is a NaN. -/
def addNumbers (x y : Single) : Single :=
  if x.isInfinite then
    if y.isInfinite && x.isNegative != y.isNegative then invalid else x
  else if y.isInfinite then y
  else ofUnits (x.isNegative && y.isNegative) (x.units + y.units)

/-- The sum, rounded to the nearest number; a NaN stays one. -/
def add (x y : Single) : Single :=
  if x.isNaN then x.quiet
  else if y.isNaN then y.quiet
  else addNumbers x y

/-- The difference, rounded to the nearest number; a NaN stays one. -/
def sub (x y : Single) : Single :=
  if x.isNaN then x.quiet
  else if y.isNaN then y.quiet
  else addNumbers x y.neg

/-- The nearest whole number, a half going away from zero; none for infinities and NaNs. -/
def round? (x : Single) : Option Int :=
  if x.isFinite then
    let one := 1 <<< BinaryFormat.single.scale
    let n : Int := (x.units.natAbs + one / 2) / one
    some (if x.isNegative then -n else n)
  else none

/-- Whether a number is less than zero. -/
def isBelowZero (x : Single) : Bool :=
  x.isNegative && !x.isNaN && x.pattern != 0

/-- Whether a number lies between two whole numbers, ends included. -/
def isBetween (lo hi : Int) (x : Single) : Bool :=
  let one : Int := Int.ofNat (1 <<< BinaryFormat.single.scale)
  x.isFinite && lo * one ≤ x.units && x.units ≤ hi * one

/-- The fewest digits that read back as the number. -/
def text (x : Single) : String :=
  BinaryFormat.single.text x.bits.toNat

end Single

end LineBasic

/-!
# Binary floating point

The magnitudes of a binary interchange format, in exact natural arithmetic.  Every finite magnitude is
a whole multiple of the smallest one, so a magnitude is described by its number of such *units*.

* `BinaryFormat.units`: the units of a bit pattern without its sign.
* `BinaryFormat.round`: the pattern nearest to a quotient of units, a half going to the even pattern.
-/

namespace LineBasic

/-- The quotient rounded to the nearest whole number, a half to the even one. -/
def divHalfEven (num den : Nat) : Nat :=
  let q := num / den
  let twice := 2 * (num % den)
  if twice < den then q else if den < twice then q + 1 else q + q % 2

/-- A binary interchange format: the widths of its fraction and its exponent field. -/
structure BinaryFormat where
  /-- Bits of the fraction. -/
  fraction : Nat
  /-- Bits of the exponent. -/
  exponent : Nat
  deriving DecidableEq, Repr

namespace BinaryFormat

/-- 32-bit numbers. -/
def single : BinaryFormat := ⟨23, 8⟩

/-- 64-bit numbers. -/
def double : BinaryFormat := ⟨52, 11⟩

/-- The smallest positive magnitude is `2 ^ -scale`. -/
def scale (f : BinaryFormat) : Nat :=
  1 <<< (f.exponent - 1) + f.fraction - 2

/-- The pattern of infinity; larger patterns are not numbers. -/
def infinity (f : BinaryFormat) : Nat :=
  (1 <<< f.exponent - 1) <<< f.fraction

/-- The pattern of the sign bit. -/
def signBit (f : BinaryFormat) : Nat :=
  1 <<< (f.exponent + f.fraction)

/-- A magnitude in units of the smallest one. -/
def units (f : BinaryFormat) (pattern : Nat) : Nat :=
  let e := pattern >>> f.fraction
  let m := pattern % (1 <<< f.fraction)
  if e = 0 then m else (1 <<< f.fraction + m) <<< (e - 1)

/-- The pattern nearest to `num / den` units; from half a step above the largest number on, infinity. -/
def round (f : BinaryFormat) (num den : Nat) : Nat :=
  let k := (num / den).log2 - f.fraction
  min (k <<< f.fraction + divHalfEven num (den <<< k)) f.infinity

/-- The pattern nearest to the number `num / den`. -/
def ofRatio (f : BinaryFormat) (num den : Nat) : Nat :=
  f.round (num <<< f.scale) den

end BinaryFormat

end LineBasic

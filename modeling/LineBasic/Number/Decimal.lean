import LineBasic.Number.Binary

/-!
# Decimal text of binary numbers

A number is written with the fewest decimal digits that read back as the same number, never with an
exponent.  The search runs on natural numbers: with `s` the format's scale, every magnitude and every
midpoint between neighbours is a whole multiple of `10 ^ -(s + 1)`.

* `Decimal.coarsest`: within an interval, the multiple of the largest power of ten.
* `Decimal.text`: a whole number of decimal places as text, without trailing zeros.
* `BinaryFormat.text`: the text of a bit pattern.
-/

namespace LineBasic

namespace Decimal

/-- Whether `n` lies between `lo` and `hi`, the ends belonging to the interval if it is closed. -/
def within (closed : Bool) (lo hi n : Nat) : Bool :=
  if closed then lo ≤ n && n ≤ hi else lo < n && n < hi

/-- The multiple of `10 ^ power` in the interval around `v` that is nearest to `v`, a tie going up, for
the largest `power` up to the given one that has a multiple there. -/
def coarsest (closed : Bool) (lo hi v : Nat) : (power : Nat) → Nat
  | 0 => v
  | power + 1 =>
    let step := Nat.pow 10 (power + 1)
    let below := v / step * step
    let above := below + step
    match within closed lo hi below, within closed lo hi above with
    | true, true => if v - below < above - v then below else above
    | true, false => below
    | false, true => above
    | false, false => coarsest closed lo hi v power

/-- The decimal digits of a number. -/
def digits (n : Nat) : List Char :=
  Nat.toDigits 10 n

/-- `n / 10 ^ places` as text: no point in a whole number, and no trailing zeros after the point. -/
def text (places n : Nat) : String :=
  let one := Nat.pow 10 places
  let tail := digits (n % one)
  let padded := List.replicate (places - tail.length) '0' ++ tail
  let shown := (padded.reverse.dropWhile (· = '0')).reverse
  let whole := digits (n / one)
  String.ofList (if n % one = 0 then whole else whole ++ '.' :: shown)

end Decimal

namespace BinaryFormat

/-- The text of a nonzero finite magnitude: the fewest digits that read back as it.  The interval of
numbers that round to a pattern includes its ends if the pattern is even. -/
def magnitudeText (f : BinaryFormat) (pattern : Nat) : String :=
  let step := Nat.pow 5 (f.scale + 1)
  let u := f.units pattern
  let lo := step * (f.units (pattern - 1) + u)
  let hi := step * (u + f.units (pattern + 1))
  Decimal.text (f.scale + 1)
    (Decimal.coarsest (pattern % 2 = 0) lo hi (step * (2 * u)) (hi.log2 / 3 + 1))

/-- The text of a bit pattern, sign included. -/
def text (f : BinaryFormat) (bits : Nat) : String :=
  let pattern := bits % f.signBit
  let sign := if bits / f.signBit % 2 = 1 then "-" else ""
  if f.infinity < pattern then "NaN"
  else if pattern = f.infinity then sign ++ "inf"
  else if pattern = 0 then sign ++ "0"
  else sign ++ f.magnitudeText pattern

end BinaryFormat

end LineBasic

/-!
# Inflate

The decompressed form of a deflate stream.  A stream is a sequence of blocks, each stored as it is or
written in prefix codes; bits are taken from the low end of each byte.

* `BitSource`: the bits of a byte list.
* `PrefixCode`: canonical prefix codes, given by the lengths of their words.
* `Inflate.stream`: the bytes of a deflate stream.
-/

namespace LineBasic

/-- Bytes of which the first has some of its bits taken. -/
structure BitSource where
  bytes : List UInt8
  /-- How many bits of the first byte are taken. -/
  used : Nat := 0
  deriving DecidableEq, Repr

/-- A reader of bits. -/
abbrev BitReader := StateT BitSource Option

namespace BitReader

/-- The next bit. -/
def bit : BitReader Nat := fun s =>
  match s.bytes with
  | [] => none
  | b :: rest =>
    some ((b.toNat >>> s.used) % 2, if s.used = 7 then ⟨rest, 0⟩ else { s with used := s.used + 1 })

/-- A number of bits, lowest first. -/
def bits : Nat → BitReader Nat
  | 0 => return 0
  | n + 1 => do
    let low ← bit
    return low + 2 * (← bits n)

/-- Drops the bits left of a byte of which some are taken. -/
def align : BitReader Unit :=
  modify fun s => if s.used = 0 then s else ⟨s.bytes.drop 1, 0⟩

/-- A whole byte, where none of its bits is taken. -/
def byte : BitReader UInt8 := fun s =>
  match s.bytes with
  | [] => none
  | b :: rest => some (b, ⟨rest, 0⟩)

/-- Whole bytes. -/
def takeBytes (n : Nat) : BitReader (List UInt8) := fun s =>
  let taken := s.bytes.take n
  if taken.length < n then none else some (taken, ⟨s.bytes.drop n, 0⟩)

end BitReader

/-- A canonical prefix code: for each length of words, from 1 on, the symbols with such words. -/
structure PrefixCode where
  levels : List (Array Nat)
  deriving DecidableEq, Repr

namespace PrefixCode

/-- The longest word. -/
def maxLength : Nat := 15

/-- The code whose symbols, counted from 0, have words of the given lengths; 0 for none. -/
def ofLengths (lengths : List Nat) : PrefixCode where
  levels := (List.range maxLength).map fun n =>
    (lengths.zipIdx.filterMap fun (l, symbol) => if l = n + 1 then some symbol else none).toArray

/-- The number of symbols with a word. -/
def size (c : PrefixCode) : Nat :=
  c.levels.foldl (fun total level => total + level.size) 0

/-- The share of all bit sequences that start with a word, in parts of `2 ^ maxLength`. -/
def share (c : PrefixCode) : Nat :=
  c.levels.zipIdx.foldl (fun total (level, n) => total + level.size <<< (maxLength - 1 - n)) 0

/-- Whether every bit sequence starts with exactly one word. -/
def isComplete (c : PrefixCode) : Bool :=
  c.share = 1 <<< maxLength

/-- A code must be complete, unless it has one word or none. -/
def isUsable (c : PrefixCode) : Bool :=
  c.isComplete || c.size ≤ 1

/-- Reads a word: `code` holds the bits so far and `first` the first word of their length, both
doubled. -/
def readWord : List (Array Nat) → (code first : Nat) → BitReader Nat
  | [], _, _ => failure
  | level :: longer, code, first => do
    let code := code + (← BitReader.bit)
    match level[code - first]? with
    | some symbol => return symbol
    | none => readWord longer (2 * code) (2 * (first + level.size))

/-- Reads a symbol. -/
def read (c : PrefixCode) : BitReader Nat :=
  readWord c.levels 0 0

end PrefixCode

namespace Inflate

/-- The base and the number of extra bits of each length code, from 257 on. -/
def lengthCodes : List (Nat × Nat) :=
  [(3, 0), (4, 0), (5, 0), (6, 0), (7, 0), (8, 0), (9, 0), (10, 0), (11, 1), (13, 1), (15, 1),
   (17, 1), (19, 2), (23, 2), (27, 2), (31, 2), (35, 3), (43, 3), (51, 3), (59, 3), (67, 4),
   (83, 4), (99, 4), (115, 4), (131, 5), (163, 5), (195, 5), (227, 5), (258, 0)]

/-- The base and the number of extra bits of each distance code. -/
def distanceCodes : List (Nat × Nat) :=
  [(1, 0), (2, 0), (3, 0), (4, 0), (5, 1), (7, 1), (9, 2), (13, 2), (17, 3), (25, 3), (33, 4),
   (49, 4), (65, 5), (97, 5), (129, 6), (193, 6), (257, 7), (385, 7), (513, 8), (769, 8),
   (1025, 9), (1537, 9), (2049, 10), (3073, 10), (4097, 11), (6145, 11), (8193, 12), (12289, 12),
   (16385, 13), (24577, 13)]

/-- A number written as a base and extra bits. -/
def extended (codes : List (Nat × Nat)) (symbol : Nat) : BitReader Nat := do
  let (base, extra) ← StateT.lift codes[symbol]?
  return base + (← BitReader.bits extra)

/-- Repeats bytes that stand a distance back; the copy may reach into itself. -/
def copy (distance : Nat) : Nat → Array UInt8 → Option (Array UInt8)
  | 0, out => some out
  | n + 1, out =>
    if distance ≤ out.size then
      (out[out.size - distance]?).bind fun b => copy distance n (out.push b)
    else none

/-- The symbols of a block up to its end. -/
def symbols (literals distances : PrefixCode) : Nat → Array UInt8 → BitReader (Array UInt8)
  | 0, _ => failure
  | fuel + 1, out => do
    let symbol ← literals.read
    if symbol < 256 then symbols literals distances fuel (out.push (UInt8.ofNat symbol))
    else if symbol = 256 then return out
    else
      let length ← extended lengthCodes (symbol - 257)
      let distance ← extended distanceCodes (← distances.read)
      symbols literals distances fuel (← StateT.lift (copy distance length out))

/-- A stored block: its length, the complement of its length, its bytes. -/
def storedBlock (out : Array UInt8) : BitReader (Array UInt8) := do
  BitReader.align
  let lo ← BitReader.byte
  let hi ← BitReader.byte
  let nlo ← BitReader.byte
  let nhi ← BitReader.byte
  if nlo ≠ ~~~lo || nhi ≠ ~~~hi then failure
  return out ++ (← BitReader.takeBytes (lo.toNat + 256 * hi.toNat))

/-- The lengths of the fixed codes. -/
def fixedLiterals : PrefixCode :=
  .ofLengths (List.replicate 144 8 ++ List.replicate 112 9 ++ List.replicate 24 7 ++
    List.replicate 8 8)

/-- The fixed code of distances: five bits each. -/
def fixedDistances : PrefixCode :=
  .ofLengths (List.replicate 32 5)

/-- The order in which the lengths of the code of lengths are written. -/
def lengthOrder : List Nat :=
  [16, 17, 18, 0, 8, 7, 9, 6, 10, 5, 11, 4, 12, 3, 13, 2, 14, 1, 15]

/-- The lengths of a block's codes, written in a code of their own; `done` holds those before, last
first. -/
def codeLengths (c : PrefixCode) (total : Nat) : Nat → List Nat → BitReader (List Nat)
  | 0, _ => failure
  | fuel + 1, done =>
    if total ≤ done.length then if done.length = total then return done.reverse else failure
    else do
      let symbol ← c.read
      if symbol < 16 then codeLengths c total fuel (symbol :: done)
      else if symbol = 16 then
        match done with
        | [] => failure
        | last :: _ =>
          let n := 3 + (← BitReader.bits 2)
          codeLengths c total fuel (List.replicate n last ++ done)
      else
        let n ← if symbol = 17 then (3 + ·) <$> BitReader.bits 3 else (11 + ·) <$> BitReader.bits 7
        codeLengths c total fuel (List.replicate n 0 ++ done)

/-- Numbers of three bits each. -/
def threeBitNumbers : Nat → BitReader (List Nat)
  | 0 => return []
  | n + 1 => do
    let first ← BitReader.bits 3
    return first :: (← threeBitNumbers n)

/-- The codes of a block that brings its own. -/
def blockCodes : BitReader (PrefixCode × PrefixCode) := do
  let literals := 257 + (← BitReader.bits 5)
  let distances := 1 + (← BitReader.bits 5)
  let count := 4 + (← BitReader.bits 4)
  if 286 < literals || 30 < distances then failure
  let written := lengthOrder.zip (← threeBitNumbers count)
  let lengthCode := PrefixCode.ofLengths ((List.range 19).map fun n => (written.lookup n).getD 0)
  if !lengthCode.isComplete then failure
  let lengths ← codeLengths lengthCode (literals + distances) (literals + distances + 1) []
  let literalCode := PrefixCode.ofLengths (lengths.take literals)
  let distanceCode := PrefixCode.ofLengths (lengths.drop literals)
  if !literalCode.isUsable || !distanceCode.isUsable then failure
  return (literalCode, distanceCode)

/-- One block: whether it is the last, and the bytes so far. -/
def block (fuel : Nat) (out : Array UInt8) : BitReader (Bool × Array UInt8) := do
  let final ← BitReader.bit
  let kind ← BitReader.bits 2
  let out ← match kind with
    | 0 => storedBlock out
    | 1 => symbols fixedLiterals fixedDistances fuel out
    | 2 => do
      let (literals, distances) ← blockCodes
      symbols literals distances fuel out
    | _ => failure
  return (final = 1, out)

/-- The blocks of a stream up to the last. -/
def blocks (symbolFuel : Nat) : Nat → Array UInt8 → BitReader (Array UInt8)
  | 0, _ => failure
  | fuel + 1, out => do
    let (final, out) ← block symbolFuel out
    if final then return out else blocks symbolFuel fuel out

/-- The bytes of a deflate stream.  Every symbol and every block takes a bit at least. -/
def stream : BitReader (Array UInt8) := do
  let fuel := 8 * (← get).bytes.length + 1
  blocks fuel fuel #[]

end Inflate

end LineBasic

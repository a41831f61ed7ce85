/-!
# Checksums

The two checksums of a saved session: CRC-32, over the compressed payload, and Adler-32, inside the
compressed format.
-/

namespace LineBasic.Checksum

/-- The polynomial of CRC-32, lowest power in the highest bit. -/
def polynomial : UInt32 := 0xEDB88320

/-- Shifts one bit out of the remainder. -/
def crcBit (crc : UInt32) : UInt32 :=
  if crc &&& 1 = 1 then (crc >>> 1) ^^^ polynomial else crc >>> 1

/-- Shifts a number of bits out of the remainder. -/
def crcBits : Nat → UInt32 → UInt32
  | 0, crc => crc
  | n + 1, crc => crcBits n (crcBit crc)

/-- Takes one more byte into the remainder. -/
def crcByte (crc : UInt32) (b : UInt8) : UInt32 :=
  crcBits 8 (crc ^^^ b.toUInt32)

/-- The CRC-32 of a list of bytes. -/
def crc32 (bytes : List UInt8) : UInt32 :=
  bytes.foldl crcByte 0xFFFFFFFF ^^^ 0xFFFFFFFF

/-- The modulus of Adler-32. -/
def adlerModulus : Nat := 65521

/-- The Adler-32 of a list of bytes. -/
def adler32 (bytes : List UInt8) : Nat :=
  let (a, b) := bytes.foldl
    (fun (a, b) byte =>
      let a := (a + byte.toNat) % adlerModulus
      (a, (b + a) % adlerModulus))
    (1, 0)
  b * 65536 + a

end LineBasic.Checksum

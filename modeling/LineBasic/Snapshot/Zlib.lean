import LineBasic.Byte.Endian
import LineBasic.Snapshot.Checksum
import LineBasic.Snapshot.Inflate

/-!
# The zlib format

A deflate stream between a header of two bytes and the Adler-32 of what it holds.  Writing stores the
bytes as they are; reading takes any stream and ignores what follows it.
-/

namespace LineBasic.Zlib

/-- The largest stored block. -/
def maxStored : Nat := 65535

/-- Stored blocks that hold the given bytes, the last one marked. -/
def storedBlocks (bytes : List UInt8) : List UInt8 :=
  let size := min bytes.length maxStored
  let lengths := Endian.bytes 2 size ++ Endian.bytes 2 (65535 - size)
  if _h : bytes.length ≤ maxStored then 1 :: lengths ++ bytes
  else 0 :: lengths ++ bytes.take maxStored ++ storedBlocks (bytes.drop maxStored)
termination_by bytes.length
decreasing_by
  simp only [List.length_drop, maxStored] at *
  omega

/-- A stream that holds the given bytes. -/
def compress (bytes : List UInt8) : List UInt8 :=
  [0x78, 0x01] ++ storedBlocks bytes ++ (Endian.bytes 4 (Checksum.adler32 bytes)).reverse

/-- Whether two bytes are the header of a stream: deflate, a window of at most 32768 bytes, no
dictionary, and a multiple of 31. -/
def isHeader (method flags : UInt8) : Bool :=
  method % 16 = 8 && method / 16 ≤ 7 && flags &&& 0x20 = 0 &&
    (256 * method.toNat + flags.toNat) % 31 = 0

/-- What a stream holds, or none if it is damaged. -/
def decompress? : List UInt8 → Option (List UInt8)
  | method :: flags :: rest => do
    if !isHeader method flags then none
    let (out, source) ← (Inflate.stream <* BitReader.align).run { bytes := rest }
    let out := out.toList
    if Endian.value (source.bytes.take 4).reverse = Checksum.adler32 out &&
        4 ≤ source.bytes.length then some out else none
  | _ => none

end LineBasic.Zlib

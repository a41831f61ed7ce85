import LineBasic.Snapshot.Zlib

/-!
# Decompressing what was compressed

A stream of stored blocks holds the bytes it was written for.

* `block_stored`: one stored block.
* `blocks_storedBlocks`: a sequence of them.
* `decompress?_compress`: a whole stream.
-/

namespace LineBasic

namespace BitReader

variable {α β : Type}

theorem bind_apply (x : BitReader α) (f : α → BitReader β) (s : BitSource) :
    (x >>= f) s = (x s).bind fun r => f r.1 r.2 := rfl

theorem pure_apply (a : α) (s : BitSource) : (pure a : BitReader α) s = some (a, s) := rfl

theorem align_apply (b : UInt8) (rest : List UInt8) {used : Nat} (h : used ≠ 0) :
    align ⟨b :: rest, used⟩ = some ((), ⟨rest, 0⟩) := by
  show some ((), if used = 0 then _ else _) = _
  rw [if_neg h]
  rfl

theorem byte_cons (b : UInt8) (rest : List UInt8) (used : Nat) :
    byte ⟨b :: rest, used⟩ = some (b, ⟨rest, 0⟩) := rfl

/-- At the start of a byte whole bytes are taken. -/
theorem takeBytes_append (chunk rest : List UInt8) :
    takeBytes chunk.length ⟨chunk ++ rest, 0⟩ = some (chunk, ⟨rest, 0⟩) := by
  simp [takeBytes]

end BitReader

namespace Inflate

open BitReader

/-! ## One block -/

/-- The length of a stored block and its complement, as they are written. -/
def lengths (n : Nat) : List UInt8 :=
  Endian.bytes 2 n ++ Endian.bytes 2 (65535 - n)

theorem complement_low {n : Nat} (h : n ≤ 65535) :
    UInt8.ofNat (65535 - n) = ~~~UInt8.ofNat n := by
  apply UInt8.toNat_inj.1
  rw [UInt8.toNat_not, UInt8.toNat_ofNat', UInt8.toNat_ofNat', UInt8.size]
  omega

theorem complement_high {n : Nat} (h : n ≤ 65535) :
    UInt8.ofNat ((65535 - n) / 256) = ~~~UInt8.ofNat (n / 256) := by
  apply UInt8.toNat_inj.1
  rw [UInt8.toNat_not, UInt8.toNat_ofNat', UInt8.toNat_ofNat', UInt8.size]
  omega

/-- A stored block is read, once the bits of its kind are taken. -/
theorem storedBlock_lengths (kind : UInt8) {chunk : List UInt8} (rest : List UInt8)
    (out : Array UInt8) (h : chunk.length ≤ 65535) :
    storedBlock out ⟨kind :: (lengths chunk.length ++ (chunk ++ rest)), 3⟩ =
      some (out ++ chunk, ⟨rest, 0⟩) := by
  have hsize : (UInt8.ofNat chunk.length).toNat + 256 * (UInt8.ofNat (chunk.length / 256)).toNat =
      chunk.length := by
    rw [UInt8.toNat_ofNat', UInt8.toNat_ofNat']
    omega
  have hlengths : lengths chunk.length ++ (chunk ++ rest) =
      UInt8.ofNat chunk.length :: UInt8.ofNat (chunk.length / 256) ::
        ~~~UInt8.ofNat chunk.length :: ~~~UInt8.ofNat (chunk.length / 256) :: (chunk ++ rest) := by
    rw [← complement_low h, ← complement_high h]
    rfl
  rw [hlengths, storedBlock]
  simp only [bind_apply, align_apply _ _ (by decide : 3 ≠ 0), byte_cons, Option.bind_some, hsize,
    ne_eq, not_true, decide_false, Bool.or_false, Bool.false_eq_true, if_false, pure_apply,
    takeBytes_append]

theorem bits_kind (final : Bool) (rest : List UInt8) :
    bits 2 ⟨(if final then 1 else 0) :: rest, 1⟩ =
      some (0, ⟨(if final then 1 else 0) :: rest, 3⟩) := by
  cases final <;> simp only [bits, bind_apply, bit, pure_apply] <;> rfl

/-- One block of a stream of stored blocks. -/
theorem block_stored (final : Bool) {chunk : List UInt8} (rest : List UInt8) (fuel : Nat)
    (out : Array UInt8) (h : chunk.length ≤ 65535) :
    block fuel out ⟨(if final then 1 else 0) :: (lengths chunk.length ++ (chunk ++ rest)), 0⟩ =
      some ((final, out ++ chunk), ⟨rest, 0⟩) := by
  have hbit : bit ⟨(if final then 1 else 0) :: (lengths chunk.length ++ (chunk ++ rest)), 0⟩ =
      some (if final then 1 else 0, ⟨(if final then 1 else 0) ::
        (lengths chunk.length ++ (chunk ++ rest)), 1⟩) := by
    cases final <;> rfl
  rw [block]
  simp only [bind_apply, hbit, Option.bind_some, bits_kind, storedBlock_lengths _ _ _ h, pure_apply]
  cases final <;> rfl

/-! ## A stream -/

theorem storedBlocks_of_le {bytes : List UInt8} (h : bytes.length ≤ 65535) :
    Zlib.storedBlocks bytes = 1 :: (lengths bytes.length ++ bytes) := by
  rw [Zlib.storedBlocks]
  simp [Zlib.maxStored, h, lengths]

/-- What is too long for one block goes on in another. -/
theorem storedBlocks_of_gt {bytes : List UInt8} (h : 65535 < bytes.length) :
    Zlib.storedBlocks bytes =
      0 :: (lengths 65535 ++ (bytes.take 65535 ++ Zlib.storedBlocks (bytes.drop 65535))) := by
  rw [Zlib.storedBlocks]
  simp [Zlib.maxStored, Nat.not_le.2 h, lengths, Nat.min_eq_right (Nat.le_of_lt h)]

theorem length_le_storedBlocks (bytes : List UInt8) :
    bytes.length ≤ (Zlib.storedBlocks bytes).length := by
  induction hn : bytes.length using Nat.strongRecOn generalizing bytes with
  | ind n ih =>
    subst hn
    by_cases h : bytes.length ≤ 65535
    · rw [storedBlocks_of_le h, List.length_cons, List.length_append]
      omega
    · have hdrop : (bytes.drop 65535).length < bytes.length := by
        rw [List.length_drop]
        omega
      have hrest := ih _ hdrop _ rfl
      rw [List.length_drop] at hrest
      rw [storedBlocks_of_gt (Nat.not_le.1 h)]
      simp only [List.length_cons, List.length_append, List.length_take]
      omega

/-- Blocks that store bytes are read back, if there is fuel for them. -/
theorem blocks_storedBlocks {bytes : List UInt8} (rest : List UInt8) (symbolFuel : Nat) {fuel : Nat}
    (out : Array UInt8) (h : bytes.length < fuel) :
    blocks symbolFuel fuel out ⟨Zlib.storedBlocks bytes ++ rest, 0⟩ =
      some (out ++ bytes, ⟨rest, 0⟩) := by
  induction fuel generalizing bytes out with
  | zero => exact absurd h (Nat.not_lt_zero _)
  | succ fuel ih =>
    by_cases hle : bytes.length ≤ 65535
    · have hblock := block_stored true rest symbolFuel out hle
      rw [if_pos rfl] at hblock
      rw [storedBlocks_of_le hle, List.cons_append, List.append_assoc, blocks, bind_apply, hblock]
      rfl
    · have hlength : (bytes.take 65535).length = 65535 := by
        rw [List.length_take]
        omega
      have hblock := block_stored false (Zlib.storedBlocks (bytes.drop 65535) ++ rest) symbolFuel out
        (Nat.le_of_eq hlength)
      rw [if_neg Bool.false_ne_true, hlength] at hblock
      have hdrop : (bytes.drop 65535).length < fuel := by
        rw [List.length_drop]
        omega
      rw [storedBlocks_of_gt (Nat.not_le.1 hle), List.cons_append, List.append_assoc,
        List.append_assoc, blocks, bind_apply, hblock]
      simp only [Option.bind_some, Bool.false_eq_true, if_false]
      rw [ih (out ++ bytes.take 65535) hdrop]
      have hout : out ++ bytes.take 65535 ++ bytes.drop 65535 = out ++ bytes := by
        apply Array.ext'
        simp
      rw [hout]

/-- Stored blocks are read back. -/
theorem stream_storedBlocks (bytes rest : List UInt8) :
    stream ⟨Zlib.storedBlocks bytes ++ rest, 0⟩ = some (bytes.toArray, ⟨rest, 0⟩) := by
  have hlength := length_le_storedBlocks bytes
  have hfuel : bytes.length < 8 * (Zlib.storedBlocks bytes ++ rest).length + 1 := by
    rw [List.length_append]
    omega
  have hblocks := blocks_storedBlocks rest (8 * (Zlib.storedBlocks bytes ++ rest).length + 1) #[] hfuel
  have hout : (#[] : Array UInt8) ++ bytes = bytes.toArray := by
    apply Array.ext'
    simp
  rw [hout] at hblocks
  exact hblocks

end Inflate

namespace Zlib

theorem adler32_lt (bytes : List UInt8) : Checksum.adler32 bytes < Nat.pow 256 4 := by
  have hpow : Nat.pow 256 4 = 4294967296 := by decide
  rw [hpow]
  unfold Checksum.adler32
  generalize hs : bytes.foldl _ (1, 0) = sums
  have hsums : sums.1 < 65521 ∧ sums.2 < 65521 := by
    rw [← hs]
    refine List.foldlRecOn (motive := fun s : Nat × Nat => s.1 < 65521 ∧ s.2 < 65521) bytes _
      (by decide) ?_
    intro s _ b _
    exact ⟨Nat.mod_lt _ (by decide), Nat.mod_lt _ (by decide)⟩
  simp only
  omega

/-- A stream holds the bytes it was written for. -/
theorem decompress?_compress (bytes : List UInt8) : decompress? (compress bytes) = some bytes := by
  have hheader : isHeader 0x78 0x01 = true := by decide
  have hstream := Inflate.stream_storedBlocks bytes
    (Endian.bytes 4 (Checksum.adler32 bytes)).reverse
  have hadler : Endian.value (Endian.bytes 4 (Checksum.adler32 bytes)) = Checksum.adler32 bytes := by
    rw [Endian.value_bytes, Nat.mod_eq_of_lt (adler32_lt bytes)]
  have hread : (Inflate.stream <* BitReader.align).run
      { bytes := storedBlocks bytes ++ (Endian.bytes 4 (Checksum.adler32 bytes)).reverse } =
      some (bytes.toArray, ⟨(Endian.bytes 4 (Checksum.adler32 bytes)).reverse, 0⟩) := by
    show ((Inflate.stream >>= fun out => BitReader.align >>= fun _ => pure out) : BitReader _) _ = _
    rw [BitReader.bind_apply, hstream]
    rfl
  have htake : ((Endian.bytes 4 (Checksum.adler32 bytes)).reverse).take 4 =
      (Endian.bytes 4 (Checksum.adler32 bytes)).reverse :=
    List.take_of_length_le (by simp)
  have hcompress : compress bytes = 0x78 :: 0x01 ::
      (storedBlocks bytes ++ (Endian.bytes 4 (Checksum.adler32 bytes)).reverse) := rfl
  rw [hcompress]
  simp [decompress?, hread, hheader, htake, hadler]

end Zlib

end LineBasic

/-!
# Little-endian words

Fixed-width numbers as byte lists, low byte first.  Code images, saved sessions and checksums all
write their numbers this way.

* `Endian.bytes` writes the low `width` bytes of a number.
* `Endian.value` reads a byte list of any length back as a number.
* `Endian.value_bytes`: reading what was written gives the number modulo its width.
* `Endian.bytes_value`: writing what was read gives the bytes.
-/

namespace LineBasic.Endian

/-- The low `width` bytes of `n`, low byte first. -/
def bytes : (width : Nat) → (n : Nat) → List UInt8
  | 0, _ => []
  | width + 1, n => UInt8.ofNat n :: bytes width (n / 256)

/-- The number whose bytes, low byte first, are given. -/
def value : List UInt8 → Nat
  | [] => 0
  | b :: rest => b.toNat + 256 * value rest

/-- A 16-bit word, low byte first. -/
def word (w : UInt16) : List UInt8 :=
  bytes 2 w.toNat

/-- The 16-bit word with the given low and high byte. -/
def ofPair (lo hi : UInt8) : UInt16 :=
  UInt16.ofNat (value [lo, hi])

@[simp] theorem length_bytes (width n : Nat) : (bytes width n).length = width := by
  induction width generalizing n with
  | zero => rfl
  | succ width ih => simp [bytes, ih]

@[simp] theorem length_word (w : UInt16) : (word w).length = 2 :=
  length_bytes 2 _

/-- Reading what was written gives the number modulo its width. -/
theorem value_bytes (width n : Nat) : value (bytes width n) = n % Nat.pow 256 width := by
  induction width generalizing n with
  | zero => simp [bytes, value, Nat.mod_one]
  | succ width ih =>
    have h : n % (256 * Nat.pow 256 width) = n % 256 + 256 * (n / 256 % Nat.pow 256 width) :=
      Nat.mod_mul
    have hp : Nat.pow 256 (width + 1) = 256 * Nat.pow 256 width := Nat.mul_comm _ 256
    rw [hp, h, bytes, value, ih, UInt8.toNat_ofNat']

theorem value_lt (l : List UInt8) : value l < Nat.pow 256 l.length := by
  induction l with
  | nil => exact Nat.one_pos
  | cons b rest ih =>
    have hpow : Nat.pow 256 (b :: rest).length = Nat.pow 256 rest.length * 256 := rfl
    have hb := UInt8.toNat_lt b
    rw [hpow, value]
    omega

/-- Writing what was read gives the bytes. -/
theorem bytes_value (l : List UInt8) : bytes l.length (value l) = l := by
  induction l with
  | nil => rfl
  | cons b rest ih =>
    have hb := UInt8.toNat_lt b
    have hlow : UInt8.ofNat (b.toNat + 256 * value rest) = b := by
      rw [← UInt8.toNat_inj, UInt8.toNat_ofNat']
      omega
    have hhigh : (b.toNat + 256 * value rest) / 256 = value rest := by omega
    rw [value, List.length_cons, bytes, hlow, hhigh, ih]

/-- A word is written as its low and its high byte. -/
theorem word_eq (w : UInt16) :
    word w = [UInt8.ofNat w.toNat, UInt8.ofNat (w.toNat / 256)] := rfl

end LineBasic.Endian

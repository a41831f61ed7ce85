import LineBasic.Proofs.Snapshot.RoundTrip

/-!
# Corrupted snapshots

A saved session with wrong bytes in one place is refused.  A wrong magic number or a wrong checksum is seen
at once.  For a wrong payload it takes what CRC-32 is known for: the remainder is linear in the bytes and no
shift loses a bit of it, so two payloads that differ within four bytes have different checksums.

* `Checksum.crcBits_xor`, `Checksum.crcBits_injective`: the two facts about shifts.
* `Checksum.foldl_crcByte`: up to four bytes are taken in like one number.
* `Checksum.crc32_ne`: a wrong stretch of up to four bytes changes the checksum.
* `Snapshot.corruption_detected`: a corrupted file is refused.
-/

namespace LineBasic

namespace Checksum

/-! ## Shifts -/

theorem and_one_eq_iff (x : UInt32) : x &&& 1 = 1 ↔ x.toNat % 2 = 1 := by
  rw [← UInt32.toNat_inj, UInt32.toNat_and, show (1 : UInt32).toNat = 1 from rfl,
    Nat.and_one_is_mod]

/-- What the lowest bit of the remainder adds to it when it is shifted out. -/
def carry (x : UInt32) : UInt32 :=
  if x &&& 1 = 1 then polynomial else 0

theorem crcBit_eq (x : UInt32) : crcBit x = (x >>> 1) ^^^ carry x := by
  unfold crcBit carry
  split
  · rfl
  · rw [UInt32.xor_zero]

theorem carry_xor (x y : UInt32) : carry (x ^^^ y) = carry x ^^^ carry y := by
  have hlow : (x ^^^ y) &&& 1 = (x &&& 1) ^^^ (y &&& 1) := by
    rw [← UInt32.toNat_inj]
    simp only [UInt32.toNat_and, UInt32.toNat_xor]
    exact Nat.and_xor_distrib_right
  have hbit : ∀ z : UInt32, z &&& 1 = 0 ∨ z &&& 1 = 1 := by
    intro z
    have hmod : (z &&& 1).toNat = z.toNat % 2 := Nat.and_one_is_mod _
    have hzero : (0 : UInt32).toNat = 0 := rfl
    rw [and_one_eq_iff, ← UInt32.toNat_inj, hmod, hzero]
    omega
  unfold carry
  rw [hlow]
  rcases hbit x with hx | hx <;> rcases hbit y with hy | hy <;> rw [hx, hy] <;> decide

/-- A step of the checksum is linear. -/
theorem crcBit_xor (x y : UInt32) : crcBit (x ^^^ y) = crcBit x ^^^ crcBit y := by
  have hshift : (x ^^^ y) >>> 1 = (x >>> 1) ^^^ (y >>> 1) := UInt32.shiftRight_xor
  rw [crcBit_eq, crcBit_eq, crcBit_eq, hshift, carry_xor]
  ac_rfl

/-- Shifting is linear. -/
theorem crcBits_xor (n : Nat) (x y : UInt32) :
    crcBits n (x ^^^ y) = crcBits n x ^^^ crcBits n y := by
  induction n generalizing x y with
  | zero => rfl
  | succ n ih => rw [crcBits, crcBit_xor, ih, crcBits, crcBits]

theorem crcBits_add (n k : Nat) (x : UInt32) : crcBits (n + k) x = crcBits k (crcBits n x) := by
  induction n generalizing x with
  | zero => rw [Nat.zero_add, crcBits]
  | succ n ih => rw [Nat.succ_add, crcBits, ih, crcBits]

theorem toNat_shiftRight_one (x : UInt32) : (x >>> 1).toNat = x.toNat / 2 := by
  rw [UInt32.toNat_shiftRight]
  rfl

/-- Only zero becomes zero in a step. -/
theorem eq_zero_of_crcBit {x : UInt32} (h : crcBit x = 0) : x = 0 := by
  have hlt := UInt32.toNat_lt x
  rw [crcBit_eq, UInt32.xor_eq_zero_iff, ← UInt32.toNat_inj, toNat_shiftRight_one] at h
  unfold carry at h
  split at h
  · -- the highest bit of the polynomial is set, and that of a shifted number is not
    have hpolynomial : polynomial.toNat = 3988292384 := rfl
    omega
  · rename_i hlow
    rw [and_one_eq_iff] at hlow
    have hzero : (0 : UInt32).toNat = 0 := rfl
    rw [← UInt32.toNat_inj]
    omega

/-- Only zero becomes zero in any number of steps. -/
theorem eq_zero_of_crcBits {n : Nat} {x : UInt32} (h : crcBits n x = 0) : x = 0 := by
  induction n generalizing x with
  | zero => exact h
  | succ n ih => exact eq_zero_of_crcBit (ih h)

/-- Shifting loses nothing. -/
theorem crcBits_injective {n : Nat} {x y : UInt32} (h : crcBits n x = crcBits n y) : x = y := by
  rw [← UInt32.xor_eq_zero_iff, ← crcBits_xor] at h
  exact UInt32.xor_eq_zero_iff.1 (eq_zero_of_crcBits h)

theorem toNat_ofNat_of_lt {n : Nat} (h : n < 4294967296) : (UInt32.ofNat n).toNat = n := by
  rw [UInt32.toNat_ofNat']
  exact Nat.mod_eq_of_lt h

/-- An even number is halved by a step. -/
theorem crcBit_double {n : Nat} (h : n < 2147483648) :
    crcBit (UInt32.ofNat (2 * n)) = UInt32.ofNat n := by
  have hdouble : (UInt32.ofNat (2 * n)).toNat = 2 * n := toNat_ofNat_of_lt (by omega)
  have hcarry : carry (UInt32.ofNat (2 * n)) = 0 := by
    rw [carry, if_neg]
    rw [and_one_eq_iff, hdouble]
    omega
  rw [crcBit_eq, hcarry, UInt32.xor_zero, ← UInt32.toNat_inj, toNat_shiftRight_one, hdouble,
    toNat_ofNat_of_lt (Nat.lt_trans h (by decide))]
  omega

/-- Zero bits below a number are shifted out and leave the number. -/
theorem crcBits_shifted (k : Nat) {n : Nat} (h : Nat.pow 2 k * n < 4294967296) :
    crcBits k (UInt32.ofNat (Nat.pow 2 k * n)) = UInt32.ofNat n := by
  induction k with
  | zero => rw [show Nat.pow 2 0 * n = n from Nat.one_mul n, crcBits]
  | succ k ih =>
    have hpow : Nat.pow 2 (k + 1) * n = 2 * (Nat.pow 2 k * n) := by
      rw [show Nat.pow 2 (k + 1) = 2 * Nat.pow 2 k from Nat.mul_comm _ 2, Nat.mul_assoc]
    rw [hpow] at h ⊢
    rw [crcBits, crcBit_double (by omega), ih (by omega)]

/-! ## Bytes -/

/-- A byte and a number above it have no bit in common. -/
theorem toNat_xor_mul (b : UInt8) (n : Nat) : b.toNat ^^^ 256 * n = b.toNat + 256 * n := by
  have hsum (i : Nat) : (256 * n + b.toNat).testBit i =
      if i < 8 then b.toNat.testBit i else n.testBit (i - 8) :=
    Nat.testBit_two_pow_mul_add n (UInt8.toNat_lt b) i
  have habove (i : Nat) : (256 * n).testBit i = (decide (8 ≤ i) && n.testBit (i - 8)) :=
    Nat.testBit_two_pow_mul (i := 8)
  apply Nat.eq_of_testBit_eq
  intro i
  rw [Nat.testBit_xor, Nat.add_comm, hsum, habove]
  by_cases hi : i < 8
  · simp [hi, Nat.not_le.2 hi]
  · have hle : 8 ≤ i := Nat.not_lt.1 hi
    have hbyte : b.toNat.testBit i = false := Nat.testBit_lt_two_pow
      (Nat.lt_of_lt_of_le (UInt8.toNat_lt b) (Nat.pow_le_pow_right (by decide) hle))
    simp [hi, hle, hbyte]

theorem ofNat_value_cons (b : UInt8) (rest : List UInt8) :
    UInt32.ofNat (Endian.value (b :: rest)) =
      b.toUInt32 ^^^ UInt32.ofNat (256 * Endian.value rest) := by
  rw [Endian.value, ← toNat_xor_mul, UInt32.ofNat_xor, UInt32.ofNat_uInt8ToNat]

/-- Up to four bytes are taken in like the number that they write. -/
theorem foldl_crcByte {bytes : List UInt8} (h : bytes.length ≤ 4) (crc : UInt32) :
    bytes.foldl crcByte crc =
      crcBits (8 * bytes.length) (crc ^^^ UInt32.ofNat (Endian.value bytes)) := by
  induction bytes generalizing crc with
  | nil => exact UInt32.xor_zero.symm
  | cons b rest ih =>
    have hrest : rest.length ≤ 3 := Nat.le_of_succ_le_succ h
    have hlt : Endian.value rest < 16777216 :=
      Nat.lt_of_lt_of_le (Endian.value_lt rest) (Nat.pow_le_pow_right (by decide) hrest)
    -- the bytes after the first pass through its eight shifts as if these were not there
    have hshifted : crcBits 8 (UInt32.ofNat (256 * Endian.value rest)) =
        UInt32.ofNat (Endian.value rest) :=
      crcBits_shifted 8 (show 256 * Endian.value rest < 4294967296 by omega)
    calc (b :: rest).foldl crcByte crc
        = rest.foldl crcByte (crcBits 8 (crc ^^^ b.toUInt32)) := rfl
      _ = crcBits (8 * rest.length)
            (crcBits 8 (crc ^^^ b.toUInt32) ^^^ UInt32.ofNat (Endian.value rest)) :=
          ih (by omega) _
      _ = crcBits (8 * rest.length)
            (crcBits 8 (crc ^^^ UInt32.ofNat (Endian.value (b :: rest)))) := by
          rw [← hshifted, ← crcBits_xor, UInt32.xor_assoc, ofNat_value_cons]
      _ = crcBits (8 * (b :: rest).length)
            (crc ^^^ UInt32.ofNat (Endian.value (b :: rest))) := by
          rw [← crcBits_add, List.length_cons, Nat.mul_succ, Nat.add_comm]

/-- The checksum before a byte can be told from the one after it. -/
theorem crcByte_injective {x y : UInt32} {b : UInt8} (h : crcByte x b = crcByte y b) : x = y :=
  (UInt32.xor_left_inj _).1 (crcBits_injective h)

/-- So can the one before any number of bytes. -/
theorem foldl_crcByte_injective {bytes : List UInt8} {x y : UInt32}
    (h : bytes.foldl crcByte x = bytes.foldl crcByte y) : x = y := by
  induction bytes generalizing x y with
  | nil => exact h
  | cons b rest ih => exact crcByte_injective (ih h)

/-- Two lists of bytes that differ in a stretch of up to four bytes have different checksums. -/
theorem crc32_ne {before stretch stretch' after : List UInt8} (h : stretch.length ≤ 4)
    (hlength : stretch'.length = stretch.length) (hne : stretch' ≠ stretch) :
    crc32 (before ++ (stretch' ++ after)) ≠ crc32 (before ++ (stretch ++ after)) := by
  intro heq
  simp only [crc32, List.foldl_append] at heq
  have hword := foldl_crcByte_injective ((UInt32.xor_left_inj _).1 heq)
  rw [foldl_crcByte h, foldl_crcByte (hlength ▸ h), hlength] at hword
  have hvalue := UInt32.toNat_inj.2 ((UInt32.xor_right_inj _).1 (crcBits_injective hword))
  have hlt : ∀ l : List UInt8, l.length ≤ 4 → Endian.value l < 4294967296 := fun l hl =>
    Nat.lt_of_lt_of_le (Endian.value_lt l) (Nat.pow_le_pow_right (by decide) hl)
  rw [toNat_ofNat_of_lt (hlt _ h), toNat_ofNat_of_lt (hlt _ (hlength ▸ h))] at hvalue
  apply hne
  rw [← Endian.bytes_value stretch', hvalue, hlength, Endian.bytes_value]

end Checksum

namespace Snapshot

/-! ## Files -/

/-- The second list of bytes is as long as the first and differs from it, but only inside the `width`
bytes from `start` on. -/
structure DiffersWithin (start width : Nat) (b b' : List UInt8) : Prop where
  ne : b' ≠ b
  length : b'.length = b.length
  outside : ∀ i, i < start ∨ start + width ≤ i → b'[i]? = b[i]?

/-- A file is changed in its magic number, in its checksum, or in up to four bytes of its payload that
follow each other. -/
def Corrupts (b b' : List UInt8) : Prop :=
  DiffersWithin 0 4 b b' ∨ DiffersWithin 4 4 b b' ∨
    ∃ start width, 8 ≤ start ∧ width ≤ 4 ∧ DiffersWithin start width b b'

/-- A file is refused for its magic number or its checksum, and nothing is opened. -/
def Refused (disk : Disk) (b : List UInt8) : Prop :=
  ofBytes disk b = (.error .badMagic, disk) ∨ ofBytes disk b = (.error .checksum, disk)

section Differs

variable {start width n : Nat} {b b' : List UInt8}

/-- What comes before the change is the same. -/
theorem DiffersWithin.take_eq (h : DiffersWithin start width b b') (hn : n ≤ start) :
    b'.take n = b.take n := by
  apply List.ext_getElem?
  intro i
  by_cases hi : i < n
  · rw [List.getElem?_take_of_lt hi, List.getElem?_take_of_lt hi, h.outside i (.inl (by omega))]
  · rw [List.getElem?_take_eq_none (by omega), List.getElem?_take_eq_none (by omega)]

/-- So is what comes after it. -/
theorem DiffersWithin.drop_eq (h : DiffersWithin start width b b') (hn : start + width ≤ n) :
    b'.drop n = b.drop n := by
  apply List.ext_getElem?
  intro i
  rw [List.getElem?_drop, List.getElem?_drop, h.outside (n + i) (.inr (by omega))]

/-- What is left of two such lists after the same number of bytes. -/
theorem DiffersWithin.drop (h : DiffersWithin start width b b') (hn : n ≤ start) :
    DiffersWithin (start - n) width (b.drop n) (b'.drop n) where
  ne := by
    intro heq
    apply h.ne
    rw [← List.take_append_drop n b', h.take_eq hn, heq, List.take_append_drop]
  length := by rw [List.length_drop, List.length_drop, h.length]
  outside := by
    intro i hi
    rw [List.getElem?_drop, List.getElem?_drop, h.outside (n + i) (by omega)]

/-- One byte is changed. -/
theorem differsWithin_set {i : Nat} {x : UInt8} (h : i < b.length) (hne : b[i]? ≠ some x) :
    DiffersWithin i 1 b (b.set i x) where
  ne := by
    intro heq
    apply hne
    rw [← heq, List.getElem?_set_self h]
  length := List.length_set
  outside := fun j hj => List.getElem?_set_ne (by omega)

/-- Such lists have the same bytes before and after a stretch in which they differ. -/
theorem DiffersWithin.split (h : DiffersWithin start width b b') :
    ∃ before stretch stretch' after, b = before ++ (stretch ++ after) ∧
      b' = before ++ (stretch' ++ after) ∧ stretch.length ≤ width ∧
      stretch'.length = stretch.length ∧ stretch' ≠ stretch := by
  have hsplit : ∀ l : List UInt8,
      l = l.take start ++ ((l.drop start).take width ++ l.drop (start + width)) := by
    intro l
    rw [← List.drop_drop, List.take_append_drop, List.take_append_drop]
  have hb' : b' = b.take start ++ ((b'.drop start).take width ++ b.drop (start + width)) := by
    rw [← h.take_eq (Nat.le_refl start), ← h.drop_eq (Nat.le_refl (start + width))]
    exact hsplit b'
  refine ⟨_, _, _, _, hsplit b, hb', ?_, ?_, ?_⟩
  · rw [List.length_take]
    exact Nat.min_le_left _ _
  · simp [h.length]
  · intro heq
    apply h.ne
    rw [hb', heq]
    exact (hsplit b).symm

end Differs

variable {payload b' : List UInt8}

/-- A file with a wrong magic number. -/
theorem ofBytes_badMagic (disk : Disk) (h : b'.take 4 ≠ magic) :
    ofBytes disk b' = (.error .badMagic, disk) := by
  have hunwrap : unwrap b' = .error .badMagic := by
    rw [unwrap, if_pos (by simp [h])]
  rw [ofBytes, hunwrap]

/-- A file whose checksum is not that of its payload. -/
theorem ofBytes_checksum (disk : Disk) (hlength : 8 ≤ b'.length) (hmagic : b'.take 4 = magic)
    (h : (Checksum.crc32 (b'.drop 8)).toNat ≠ Endian.value ((b'.drop 4).take 4)) :
    ofBytes disk b' = (.error .checksum, disk) := by
  have hunwrap : unwrap b' = .error .checksum := by
    rw [unwrap, if_neg (by simp [hmagic, hlength]), if_pos h]
  rw [ofBytes, hunwrap]

theorem length_of_differs {start width : Nat} (h : DiffersWithin start width (wrap payload) b') :
    8 ≤ b'.length := by
  rw [h.length]
  exact length_wrap payload

/-- A change of the mark is found. -/
theorem refused_of_magic (disk : Disk) (h : DiffersWithin 0 4 (wrap payload) b') :
    Refused disk b' := by
  refine .inl (ofBytes_badMagic disk fun heq => h.ne ?_)
  rw [← List.take_append_drop 4 b', heq, h.drop_eq (Nat.le_refl 4), ← wrap_take payload,
    List.take_append_drop]

/-- A change of the checksum is found. -/
theorem refused_of_sum (disk : Disk) (h : DiffersWithin 4 4 (wrap payload) b') :
    Refused disk b' := by
  refine .inr (ofBytes_checksum disk (length_of_differs h) (h.take_eq (Nat.le_refl 4)) ?_)
  rw [h.drop_eq (Nat.le_refl 8), wrap_drop, ← value_sum payload]
  intro heq
  -- four bytes with the same value are the same, and then nothing differs
  have hwide : ((b'.drop 4).take 4).length = (((wrap payload).drop 4).take 4).length := by
    simp [h.length]
  have hbytes : (b'.drop 4).take 4 = ((wrap payload).drop 4).take 4 := by
    rw [← Endian.bytes_value ((b'.drop 4).take 4), ← heq, hwide, Endian.bytes_value]
  apply h.ne
  rw [← List.take_append_drop 4 b', h.take_eq (Nat.le_refl 4),
    ← List.take_append_drop 4 (b'.drop 4), hbytes, List.drop_drop, h.drop_eq (Nat.le_refl 8)]
  rfl

/-- A change within four bytes of the payload is found. -/
theorem refused_of_payload (disk : Disk) {start width : Nat} (hstart : 8 ≤ start)
    (hwidth : width ≤ 4) (h : DiffersWithin start width (wrap payload) b') : Refused disk b' := by
  have hsum : (b'.drop 4).take 4 = ((wrap payload).drop 4).take 4 := by
    rw [List.take_drop, List.take_drop, h.take_eq hstart]
  have hrest : DiffersWithin (start - 8) width payload (b'.drop 8) := h.drop hstart
  obtain ⟨before, stretch, stretch', after, hb, hb', hshort, hlength, hne⟩ := hrest.split
  refine .inr (ofBytes_checksum disk (length_of_differs h) (h.take_eq (by omega)) ?_)
  rw [hsum, value_sum, hb', hb]
  intro heq
  exact Checksum.crc32_ne (Nat.le_trans hshort hwidth) hlength hne (UInt32.toNat_inj.1 heq)

/-- Every corruption is found. -/
theorem refused_of_corrupts (disk : Disk) (h : Corrupts (wrap payload) b') : Refused disk b' := by
  obtain hmagic | hsum | ⟨start, width, hstart, hwidth, hpayload⟩ := h
  · exact refused_of_magic disk hmagic
  · exact refused_of_sum disk hsum
  · exact refused_of_payload disk hstart hwidth hpayload

/-- A file that is left as it is may be refused for what it holds, but not for magic number or checksum. -/
theorem not_refused_wrap (disk : Disk) (payload : List UInt8) : ¬ Refused disk (wrap payload) := by
  unfold Refused ofBytes
  rw [unwrap_wrap]
  dsimp only
  cases Zlib.decompress? payload with
  | none => simp
  | some code =>
    dsimp only
    obtain ⟨_ | s, disk'⟩ := Decoder.session disk code
    · simp
    · simp

/-- A saved session that is changed in its magic number, in its checksum or in up to four bytes of its
payload that follow each other is refused, in whatever order its variables were written.  The same holds
of any payload, and so of any way to compress a session; as long as it is not changed, it is not refused. -/
theorem corruption_detected (disk : Disk) :
    (∀ (s : Session) (order : s.vars.Enumeration) b', Corrupts (toBytes s order) b' →
      Refused disk b') ∧
    ∀ payload, ¬ Refused disk (wrap payload) ∧ ∀ b', Corrupts (wrap payload) b' → Refused disk b' :=
  ⟨fun _ _ _ h => refused_of_corrupts disk h,
    fun payload => ⟨not_refused_wrap disk payload, fun _ h => refused_of_corrupts disk h⟩⟩

/-- The file of a stopped session, with one byte of the place on its direct line changed. -/
theorem corruption_detected_place : Refused {} ((toBytes stoppedSession stoppedOrder).set 54 5) := by
  have hbyte : (toBytes stoppedSession stoppedOrder)[54]? = some 1 := by decide +kernel
  obtain ⟨hlt, -⟩ := List.getElem?_eq_some_iff.1 hbyte
  have hdiffers : DiffersWithin 54 1 (toBytes stoppedSession stoppedOrder)
      ((toBytes stoppedSession stoppedOrder).set 54 5) :=
    differsWithin_set hlt (by rw [hbyte]; decide)
  exact (corruption_detected {}).1 _ _ _ (.inr (.inr ⟨54, 1, by decide, by decide, hdiffers⟩))

end Snapshot

end LineBasic

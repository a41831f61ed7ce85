import Mathlib
import LineBasic.Number.Single

/-!
# Exact numbers

Rounding changes nothing about a quantity that a number stands for already.

* `BinaryFormat.round_units`: the units of a finite pattern are rounded to that pattern.
* `Single.Denotes`, `Single.IsExact`: a single precision number is exactly a natural number.
* `Single.denotes_ofNat`: the nearest number to a natural number is that number, if any is.
* `Single.units_ofInt`: whole numbers of up to 24 bits are kept exactly.
* `Single.RoundsTo`, `Single.round?_eq_some_iff`: the whole number nearest to a number, a half going away
  from zero.
-/

namespace LineBasic

theorem divHalfEven_mul_right (a : Nat) {d : Nat} (hd : 0 < d) : divHalfEven (a * d) d = a := by
  have hmod : a * d % d = 0 := Nat.mul_mod_left a d
  have hdiv : a * d / d = a := Nat.mul_div_left a hd
  unfold divHalfEven
  rw [hmod, hdiv]
  exact if_pos hd

namespace BinaryFormat

variable (f : BinaryFormat)

theorem log2_sub_of_lt {m : Nat} (hm : m < 1 <<< f.fraction) : m.log2 - f.fraction = 0 := by
  rw [Nat.one_shiftLeft] at hm
  by_cases hzero : m = 0
  · simp [hzero]
  · have hlog : m.log2 < f.fraction := (Nat.log2_lt hzero).2 hm
    omega

/-- A normal magnitude has as many bits behind its leading one as the fraction has, and its exponent
more. -/
theorem log2_normal {m : Nat} (hm : m < 1 <<< f.fraction) (k : Nat) :
    ((1 <<< f.fraction + m) <<< k).log2 = f.fraction + k := by
  rw [Nat.one_shiftLeft] at hm ⊢
  rw [Nat.shiftLeft_eq]
  have hpos : 0 < 2 ^ k := Nat.two_pow_pos k
  have hne : (2 ^ f.fraction + m) * 2 ^ k ≠ 0 := by
    have := Nat.two_pow_pos f.fraction
    exact (Nat.mul_pos (by omega) hpos).ne'
  rw [Nat.log2_eq_iff hne, Nat.pow_add, Nat.pow_succ, Nat.pow_add, Nat.mul_right_comm]
  exact ⟨Nat.mul_le_mul_right _ (by omega), Nat.mul_lt_mul_of_pos_right (by omega) hpos⟩

/-- The units of a finite pattern are rounded to that pattern. -/
theorem round_units {p : Nat} (hp : p < f.infinity) : f.round (f.units p) 1 = p := by
  have hm : p % 1 <<< f.fraction < 1 <<< f.fraction := by
    rw [Nat.one_shiftLeft]
    exact Nat.mod_lt _ (Nat.two_pow_pos _)
  have hsplit : (p >>> f.fraction) <<< f.fraction + p % 1 <<< f.fraction = p := by
    rw [Nat.shiftRight_eq_div_pow, Nat.shiftLeft_eq, Nat.one_shiftLeft, Nat.mul_comm, Nat.div_add_mod]
  unfold round units
  generalize p % 1 <<< f.fraction = m at hm hsplit
  generalize p >>> f.fraction = e at hsplit
  dsimp only
  rw [Nat.div_one]
  by_cases he : e = 0
  · rw [if_pos he, log2_sub_of_lt f hm]
    subst he
    have hdiv : divHalfEven (m * 1) 1 = m := divHalfEven_mul_right m (by decide)
    rw [Nat.mul_one] at hdiv
    rw [Nat.shiftLeft_zero, hdiv, hsplit]
    exact Nat.min_eq_left hp.le
  · obtain ⟨k, rfl⟩ := Nat.exists_eq_succ_of_ne_zero he
    rw [if_neg he, Nat.succ_sub_one, log2_normal f hm, Nat.add_sub_cancel_left]
    have hdiv : divHalfEven ((1 <<< f.fraction + m) <<< k) (1 <<< k) = 1 <<< f.fraction + m := by
      rw [Nat.shiftLeft_eq _ k, Nat.one_shiftLeft k]
      exact divHalfEven_mul_right _ (Nat.two_pow_pos k)
    have hsum : k <<< f.fraction + (1 <<< f.fraction + m) = p := by
      rw [← hsplit, Nat.one_shiftLeft, Nat.shiftLeft_eq, Nat.shiftLeft_eq, Nat.succ_mul, Nat.add_assoc]
    rw [hdiv, hsum]
    exact Nat.min_eq_left hp.le

end BinaryFormat

namespace Single

/-- A number is exactly a natural number. -/
def Denotes (x : Single) (n : Nat) : Prop :=
  x.isFinite = true ∧ x.units = (n <<< BinaryFormat.single.scale : Nat)

instance (x : Single) (n : Nat) : Decidable (x.Denotes n) :=
  inferInstanceAs (Decidable (_ ∧ _))

/-- A natural number that single precision represents exactly. -/
def IsExact (n : Nat) : Prop :=
  ∃ x : Single, x.Denotes n

theorem Denotes.unique {x : Single} {n k : Nat} (hn : x.Denotes n) (hk : x.Denotes k) : n = k := by
  have h : (n <<< BinaryFormat.single.scale : Nat) = k <<< BinaryFormat.single.scale :=
    Int.ofNat_inj.1 (hn.2.symm.trans hk.2)
  rw [Nat.shiftLeft_eq, Nat.shiftLeft_eq] at h
  exact Nat.eq_of_mul_eq_mul_right (Nat.two_pow_pos _) h

/-- The magnitude of a number that is exactly a natural number. -/
theorem Denotes.units_pattern {x : Single} {n : Nat} (h : x.Denotes n) :
    BinaryFormat.single.units x.pattern = n <<< BinaryFormat.single.scale := by
  have hunits := h.2
  generalize n <<< BinaryFormat.single.scale = u at hunits ⊢
  unfold units at hunits
  split at hunits <;> omega

theorem pattern_ofPattern (negative : Bool) {p : Nat} (hp : p < BinaryFormat.single.infinity) :
    (ofPattern negative p).pattern = p ∧ (ofPattern negative p).isNegative = negative := by
  have hinfinity : BinaryFormat.single.infinity < BinaryFormat.single.signBit := by decide
  have hsign : 2 * BinaryFormat.single.signBit = 4294967296 := by decide
  have hbits : (ofPattern negative p).bits.toNat =
      (if negative then BinaryFormat.single.signBit else 0) + p := by
    rw [ofPattern, UInt32.toNat_ofNat']
    exact Nat.mod_eq_of_lt (by split <;> omega)
  rw [pattern, isNegative, hbits]
  cases negative with
  | false =>
    rw [if_neg Bool.false_ne_true, Nat.zero_add]
    exact ⟨Nat.mod_eq_of_lt (hp.trans hinfinity), decide_eq_false (by omega)⟩
  | true =>
    rw [if_pos rfl, Nat.add_mod_left]
    exact ⟨Nat.mod_eq_of_lt (hp.trans hinfinity), decide_eq_true (by omega)⟩

/-- A whole number whose magnitude is that of a pattern is the number with the pattern and its sign. -/
theorem ofInt_eq_ofPattern {n : Int} (hn : n ≠ 0) {p : Nat} (hp : p < BinaryFormat.single.infinity)
    (hunits : BinaryFormat.single.units p = n.natAbs <<< BinaryFormat.single.scale) :
    ofInt n = ofPattern (n < 0) p := by
  have hpos : (0 : Int) < 2 ^ BinaryFormat.single.scale := Int.pow_pos (by decide)
  have hshift : n <<< BinaryFormat.single.scale = n * 2 ^ BinaryFormat.single.scale := Int.shiftLeft_eq _ _
  have habs : (n * 2 ^ BinaryFormat.single.scale).natAbs = n.natAbs <<< BinaryFormat.single.scale := by
    rw [Int.natAbs_mul, Int.natAbs_pow, Nat.shiftLeft_eq]
    rfl
  have hsign : n * 2 ^ BinaryFormat.single.scale < 0 ↔ n < 0 :=
    ⟨fun h => neg_of_mul_neg_left h hpos.le, fun h => mul_neg_of_neg_of_pos h hpos⟩
  rw [ofInt, ofUnits, hshift, if_neg (mul_ne_zero hn hpos.ne'), habs, ← hunits,
    BinaryFormat.single.round_units hp]
  simp only [hsign]

/-- If some number is exactly a natural number, the nearest number to it is. -/
theorem denotes_ofNat {n : Nat} (h : IsExact n) : (ofNat n).Denotes n := by
  obtain ⟨x, hx⟩ := h
  have hp : x.pattern < BinaryFormat.single.infinity := of_decide_eq_true hx.1
  by_cases hn : n = 0
  · subst hn
    decide
  · have hn' : (n : Int) ≠ 0 := by omega
    obtain ⟨hpattern, hsign⟩ := pattern_ofPattern false hp
    rw [ofNat, ofInt_eq_ofPattern hn' hp hx.units_pattern, decide_eq_false (by omega), Denotes, isFinite,
      units, hpattern, hsign, hx.units_pattern]
    exact ⟨hx.1, rfl⟩

/-! ## Whole numbers -/

/-- The number one, in units. -/
def one : Nat := 1 <<< BinaryFormat.single.scale

/-- A natural number of up to 24 bits is exact: its bits fit into the fraction. -/
theorem isExact_of_lt {n : Nat} (hn : n < 16777216) : IsExact n := by
  by_cases hzero : n = 0
  · subst hzero
    exact ⟨⟨0⟩, by decide⟩
  -- the fraction is `n` moved up to 24 bits, and the exponent makes up for that
  have hlog : n.log2 < 24 := (Nat.log2_lt hzero).2 hn
  obtain ⟨j, hj⟩ : ∃ j, n.log2 + j = 23 := ⟨23 - n.log2, by omega⟩
  have hlow : 2 ^ n.log2 ≤ n := Nat.log2_self_le hzero
  have hhigh : n < 2 ^ (n.log2 + 1) := Nat.lt_log2_self
  have hfraction : 8388608 ≤ n * 2 ^ j ∧ n * 2 ^ j < 16777216 := by
    have hle := Nat.mul_le_mul_right (2 ^ j) hlow
    have hlt := Nat.mul_lt_mul_of_pos_right hhigh (Nat.two_pow_pos j)
    rw [← Nat.pow_add, hj] at hle
    rw [← Nat.pow_add, Nat.add_right_comm, hj] at hlt
    exact ⟨hle, hlt⟩
  have hunits : n * 2 ^ j * 2 ^ (n.log2 + 126) = n * 2 ^ 149 := by
    rw [Nat.mul_assoc, ← Nat.pow_add, show j + (n.log2 + 126) = 149 by omega]
  generalize n.log2 = k at hlog hunits
  generalize n * 2 ^ j = f at hfraction hunits
  have hexponent : ((k + 126) * 8388608 + f) / 8388608 = k + 127 := by omega
  have hrest : 8388608 + ((k + 126) * 8388608 + f) % 8388608 = f := by omega
  have hfinite : (k + 126) * 8388608 + f < BinaryFormat.single.infinity := by
    have hinfinity : BinaryFormat.single.infinity = 2139095040 := by decide
    omega
  obtain ⟨hpattern, hsign⟩ := pattern_ofPattern false hfinite
  refine ⟨ofPattern false ((k + 126) * 8388608 + f), ?_, ?_⟩
  · rw [isFinite, hpattern]
    exact decide_eq_true hfinite
  · rw [units, hsign, hpattern, if_neg Bool.false_ne_true, Int.ofNat_inj, Nat.shiftLeft_eq]
    unfold BinaryFormat.units
    simp only [show BinaryFormat.single.fraction = 23 from rfl, Nat.shiftRight_eq_div_pow,
      Nat.one_shiftLeft]
    norm_num only
    rw [hexponent, if_neg (by omega), hrest, Nat.shiftLeft_eq]
    exact hunits

/-- Whole numbers of up to 24 bits are kept exactly, with their sign. -/
theorem units_ofInt {n : Int} (hn : n.natAbs < 16777216) :
    (ofInt n).isFinite = true ∧ (ofInt n).units = n * one ∧ (ofInt n).isNegative = decide (n < 0) := by
  by_cases hzero : n = 0
  · subst hzero
    decide
  obtain ⟨x, hx⟩ := isExact_of_lt hn
  have hp : x.pattern < BinaryFormat.single.infinity := of_decide_eq_true hx.1
  obtain ⟨hpattern, hsign⟩ := pattern_ofPattern (n < 0) hp
  rw [ofInt_eq_ofPattern hzero hp hx.units_pattern, isFinite, units, hpattern, hsign, hx.units_pattern]
  refine ⟨hx.1, ?_, rfl⟩
  rw [one, Nat.shiftLeft_eq, Nat.one_shiftLeft, Int.natCast_mul]
  by_cases hneg : n < 0
  · rw [if_pos (decide_eq_true hneg), ← Int.neg_mul]
    congr 1
    omega
  · rw [if_neg (by simpa using hneg)]
    congr 1
    omega

/-- The whole number nearest to a finite number; of two that are as near, the one farther from zero. -/
structure RoundsTo (x : Single) (n : Int) : Prop where
  finite : x.isFinite = true
  near : 2 * (x.units - n * one).natAbs ≤ one
  half : 2 * (x.units - n * one).natAbs = one → x.units.natAbs < (n * one).natAbs

theorem round?_eq_some_iff {x : Single} {n : Int} : x.round? = some n ↔ x.RoundsTo n := by
  have hround : x.round? =
      if x.isFinite then
        some (if x.isNegative then -(((x.units.natAbs : Int) + (one : Int) / 2) / one)
          else ((x.units.natAbs : Int) + (one : Int) / 2) / one)
      else none := rfl
  have hsign : x.isNegative = true ∧ x.units ≤ 0 ∨ x.isNegative = false ∧ 0 ≤ x.units := by
    unfold units
    cases x.isNegative with
    | true => exact .inl ⟨rfl, by simp⟩
    | false => exact .inr ⟨rfl, by simp⟩
  by_cases hfinite : x.isFinite = true
  · have hiff : x.RoundsTo n ↔ 2 * (x.units - n * one).natAbs ≤ one ∧
        (2 * (x.units - n * one).natAbs = one → x.units.natAbs < (n * one).natAbs) :=
      ⟨fun h => ⟨h.near, h.half⟩, fun h => ⟨hfinite, h.1, h.2⟩⟩
    rw [hround, if_pos hfinite, Option.some_inj, hiff,
      show one = 713623846352979940529142984724747568191373312 by decide]
    rcases hsign with ⟨hneg, hunits⟩ | ⟨hneg, hunits⟩
    · rw [if_pos hneg]
      omega
    · rw [hneg, if_neg Bool.false_ne_true]
      omega
  · rw [hround, if_neg hfinite]
    constructor
    · intro h
      cases h
    · intro h
      exact absurd h.finite hfinite

end Single

end LineBasic

import LineBasic.Proofs.Text.Bytes
import LineBasic.Snapshot.Layout

/-!
# Reading what was laid out

A decoder reads a value from its layout if it gives the value and leaves what follows.  The rules here
follow the structure of decoders, so that a record is read if its parts are.

* `Reads`: a decoder reads a value from bytes.
* `Reads.bind`: one part after the other.
* `reads_nat`, `reads_option`, `reads_list`, `reads_text`: the parts that records are made of.
-/

namespace LineBasic

/-- Numbers from here on do not fit in 64 bits, the width of lengths and positions. -/
def wordBound : Nat := 18446744073709551616

/-- The decoder gives the value and leaves the bytes that follow the code. -/
def Reads {α : Type} (read : Decoder α) (a : α) (code : List UInt8) : Prop :=
  ∀ rest, read.run (code ++ rest) = some (a, rest)

namespace Reads

variable {α β : Type} {read : Decoder α} {a : α} {code : List UInt8}

theorem pure (a : α) : Reads (Pure.pure a) a [] :=
  fun _ => rfl

/-- Part after part. -/
theorem bind {f : α → Decoder β} {b : β} {after : List UInt8} (h : Reads read a code)
    (hf : Reads (f a) b after) : Reads (read >>= f) b (code ++ after) := by
  intro rest
  rw [StateT.run_bind, List.append_assoc, h]
  exact hf rest

/-- The last part of a record. -/
theorem last {f : α → Decoder β} {b : β} (h : Reads read a code) (hf : f a = Pure.pure b) :
    Reads (read >>= f) b code := by
  have hpure : Reads (f a) b [] := hf ▸ pure b
  rw [← List.append_nil code]
  exact h.bind hpure

end Reads

variable {α : Type}

/-! ## Numbers -/

theorem reads_take {code : List UInt8} {n : Nat} (h : code.length = n) :
    Reads (Decoder.take n) code code := by
  intro rest
  have htake : (code ++ rest).take n = code := by rw [← h, List.take_left]
  have hdrop : (code ++ rest).drop n = rest := by rw [← h, List.drop_left]
  show (if ((code ++ rest).take n).length < n then none
    else some ((code ++ rest).take n, (code ++ rest).drop n)) = _
  rw [htake, hdrop, if_neg (by omega)]

/-- A number is read back if it fits its width. -/
theorem reads_nat (width : Nat) {n : Nat} (h : n < Nat.pow 256 width) :
    Reads (Decoder.nat width) n (Layout.nat width n) := by
  have hvalue : Endian.value (Endian.bytes width n) = n := by
    rw [Endian.value_bytes, Nat.mod_eq_of_lt h]
  exact (reads_take (Endian.length_bytes width n)).last (congrArg Pure.pure hvalue)

theorem reads_size {n : Nat} (h : n < wordBound) : Reads Decoder.size n (Layout.size n) :=
  reads_nat 8 h

theorem reads_tag {n : Nat} (h : n < 6) : Reads Decoder.tag n (Layout.tag n) :=
  reads_nat 4 (Nat.lt_trans h (by decide))

theorem reads_byte (b : UInt8) : Reads Decoder.byte b (Layout.byte b) := by
  have h : Layout.byte b = Layout.nat 1 b.toNat := by simp [Layout.byte, Layout.nat, Endian.bytes]
  rw [h]
  exact (reads_nat 1 (UInt8.toNat_lt b)).last (congrArg Pure.pure UInt8.ofNat_toNat)

theorem reads_word (w : UInt16) : Reads Decoder.word w (Layout.word w) :=
  (reads_nat 2 (UInt16.toNat_lt w)).last (congrArg Pure.pure UInt16.ofNat_toNat)

theorem reads_time (t : Int64) : Reads Decoder.time t (Layout.time t) := by
  have h : (UInt64.ofNat t.toUInt64.toNat).toInt64 = t := by
    rw [UInt64.ofNat_toNat, Int64.toInt64_toUInt64]
  exact (reads_nat 8 (UInt64.toNat_lt t.toUInt64)).last (congrArg Pure.pure h)

theorem reads_bool (b : Bool) : Reads Decoder.bool b (Layout.bool b) := by
  intro rest
  cases b <;> rfl

/-! ## Parts of varying length -/

/-- A value that may be missing is read back. -/
theorem reads_option {read : Decoder α} {write : α → List UInt8} {o : Option α}
    (h : ∀ a ∈ o, Reads read a (write a)) : Reads (Decoder.option read) o (Layout.option write o) := by
  cases o with
  | none => exact (reads_bool false).last rfl
  | some a => exact (reads_bool true).bind ((h a rfl).last rfl)

theorem reads_items {read : Decoder α} {write : α → List UInt8} {l : List α}
    (h : ∀ a ∈ l, Reads read a (write a)) :
    Reads (Decoder.items read l.length) l (l.flatMap write) := by
  induction l with
  | nil => exact Reads.pure []
  | cons a l ih =>
    have hl := ih fun b hb => h b (List.mem_cons_of_mem a hb)
    rw [List.flatMap_cons]
    exact (h a List.mem_cons_self).bind (hl.last rfl)

/-- A list is read back, item by item. -/
theorem reads_list {read : Decoder α} {write : α → List UInt8} {l : List α}
    (hlength : l.length < wordBound) (h : ∀ a ∈ l, Reads read a (write a)) :
    Reads (Decoder.list read) l (Layout.list write l) :=
  (reads_size hlength).bind (reads_items h)

theorem reads_bytes {l : List UInt8} (hlength : l.length < wordBound) :
    Reads Decoder.bytes l (Layout.bytes l) :=
  (reads_size hlength).bind (reads_take rfl)

/-- A text is read back from its UTF-8 form. -/
theorem reads_text {s : String} (hlength : (Text.utf8 s).length < wordBound) :
    Reads Decoder.text s (Layout.text s) := by
  intro rest
  have htext : Text.ofUtf8? (Text.utf8 s) = some s := Text.ofUtf8?_eq_some_iff.2 rfl
  rw [Decoder.text, StateT.run_bind, Layout.text, reads_bytes hlength]
  show (StateT.lift (Text.ofUtf8? (Text.utf8 s))).run rest = _
  rw [htext]
  rfl

end LineBasic

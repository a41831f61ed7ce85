import LineBasic.Text.Blank
import LineBasic.Text.Bytes
import LineBasic.Token.Basic

/-!
# Text and its bytes

* `Text.ofUtf8?_eq_some_iff`: a text and its UTF-8 bytes determine each other.
* `Text.not_isDigit_of_isBlank`: a blank text has no digits.
* `Text.utf8_ofBytes`: ASCII bytes are their own UTF-8 form.
* `Text.ofBytes_utf8_eq_iff`: ASCII texts are those that are kept if their bytes are taken for characters.
* `Text.mem_of_mem_fileLines`: the lines of a file hold no bytes but those of the file.
* `Text.fileLines_fileText`: lines of text that are written to a file are read back.
-/

namespace LineBasic.Text

open Token

/-- A text and its UTF-8 bytes determine each other. -/
theorem ofUtf8?_eq_some_iff {bytes : List UInt8} {s : String} :
    ofUtf8? bytes = some s ↔ utf8 s = bytes := by
  constructor
  · intro h
    unfold ofUtf8? String.fromUTF8? at h
    split at h
    · cases h
      exact List.toList_data_toByteArray
    · cases h
  · rintro rfl
    have h : (utf8 s).toByteArray = s.toByteArray := ByteArray.ext (by simp [utf8])
    unfold ofUtf8? String.fromUTF8?
    rw [dif_pos (h ▸ s.isValidUTF8)]
    exact congrArg some (String.toByteArray_inj.1 h)

theorem utf8_eq_flatMap (s : String) : utf8 s = s.toList.flatMap String.utf8EncodeChar := by
  have h : s.toByteArray = (s.toList.flatMap String.utf8EncodeChar).toByteArray := by
    have hs := String.toByteArray_ofList (l := s.toList)
    rwa [String.ofList_toList] at hs
  unfold utf8
  rw [String.toUTF8_eq_toByteArray, h]
  exact List.toList_data_toByteArray

/-- A character is written as the byte of its code point, or in bytes from 128 on. -/
theorem toNat_of_mem_utf8EncodeChar {c : Char} {b : UInt8} (h : b ∈ String.utf8EncodeChar c) :
    b.toNat = c.toNat ∨ 128 ≤ b.toNat := by
  unfold String.utf8EncodeChar at h
  simp only at h
  split at h
  · rename_i hc
    rw [List.mem_singleton] at h
    rw [h, UInt8.toNat_ofNat']
    exact .inl (Nat.mod_eq_of_lt (by omega))
  · right
    split at h
    · simp only [List.mem_cons, List.not_mem_nil, or_false] at h
      rcases h with rfl | rfl <;> rw [UInt8.toNat_ofNat'] <;> omega
    · split at h
      · simp only [List.mem_cons, List.not_mem_nil, or_false] at h
        rcases h with rfl | rfl | rfl <;> rw [UInt8.toNat_ofNat'] <;> omega
      · simp only [List.mem_cons, List.not_mem_nil, or_false] at h
        rcases h with rfl | rfl | rfl | rfl <;> rw [UInt8.toNat_ofNat'] <;> omega

theorem toNat_byteChar (b : UInt8) : (byteChar b).toNat = b.toNat := by
  have hb := b.toNat_lt
  have hvalid : b.toNat.isValidChar := .inl (by omega)
  rw [byteChar, Char.ofNat, dif_pos hvalid]
  exact UInt32.toNat_ofNatLT

/-- ASCII bytes are their own UTF-8 form. -/
theorem utf8_ofBytes {bytes : List UInt8} (h : ∀ b ∈ bytes, b < 0x80) :
    utf8 (ofBytes bytes) = bytes := by
  rw [utf8_eq_flatMap, ofBytes, String.toList_ofList]
  induction bytes with
  | nil => rfl
  | cons b bytes ih =>
    have hb : b.toNat < 128 := UInt8.lt_iff_toNat_lt.1 (h b List.mem_cons_self)
    have hval : (byteChar b).val.toNat = b.toNat := toNat_byteChar b
    have hencode : String.utf8EncodeChar (byteChar b) = [b] := by
      rw [String.utf8EncodeChar, hval, if_pos (by omega), UInt8.ofNat_toNat]
    rw [List.map_cons, List.flatMap_cons, hencode, ih fun c hc => h c (List.mem_cons_of_mem _ hc),
      List.singleton_append]

theorem utf8_append (s t : String) : utf8 (s ++ t) = utf8 s ++ utf8 t := by
  simp only [utf8_eq_flatMap, String.toList_append, List.flatMap_append]

/-! ## ASCII text -/

/-- The characters of a text are ASCII characters. -/
def IsAscii (s : String) : Prop :=
  ∀ c ∈ s.toList, c.toNat < 128

theorem all_eq_true_iff_isAscii (s : String) :
    (s.toList.all fun c => decide (c.toNat < 128)) = true ↔ IsAscii s := by
  simp only [IsAscii, List.all_eq_true, decide_eq_true_eq]

instance (s : String) : Decidable (IsAscii s) :=
  decidable_of_iff _ (all_eq_true_iff_isAscii s)

/-- A text is ASCII exactly if its parts are. -/
theorem isAscii_append {s t : String} : IsAscii (s ++ t) ↔ IsAscii s ∧ IsAscii t := by
  simp only [IsAscii, String.toList_append, List.forall_mem_append]

/-- A byte below 128 stands for the character of its code point and is part of no other. -/
theorem byteChar_mem_of_mem_utf8 {s : String} {b : UInt8} (hb : b.toNat < 128) (h : b ∈ utf8 s) :
    byteChar b ∈ s.toList := by
  rw [utf8_eq_flatMap, List.mem_flatMap] at h
  obtain ⟨c, hc, hbc⟩ := h
  obtain heq | hge := toNat_of_mem_utf8EncodeChar hbc
  · have hchar : byteChar b = c := Char.toNat_inj.1 ((toNat_byteChar b).trans heq)
    rwa [hchar]
  · omega

theorem length_le_utf8 (l : List Char) : l.length ≤ (l.flatMap String.utf8EncodeChar).length := by
  induction l with
  | nil => exact Nat.le_refl _
  | cons c l ih =>
    have hpos := c.utf8Size_pos
    rw [List.flatMap_cons, List.length_append, String.length_utf8EncodeChar, List.length_cons]
    omega

/-- An ASCII character is one byte. -/
theorem map_byteChar_utf8EncodeChar {c : Char} (hc : c.toNat < 128) :
    (String.utf8EncodeChar c).map byteChar = [c] := by
  have hval : c.val.toNat ≤ 127 := Nat.le_of_lt_succ hc
  have hbyte : (UInt8.ofNat c.val.toNat).toNat = c.toNat := by
    rw [UInt8.toNat_ofNat']
    exact Nat.mod_eq_of_lt (Nat.lt_trans hc (by decide))
  rw [String.utf8EncodeChar, if_pos hval, List.map_singleton,
    Char.toNat_inj.1 ((toNat_byteChar _).trans hbyte)]

/-- If the bytes of a text are taken for characters, it is kept exactly if it is an ASCII text: any other
gets longer. -/
theorem ofBytes_utf8_eq_iff (s : String) : ofBytes (utf8 s) = s ↔ IsAscii s := by
  rw [← String.toList_inj, ofBytes, String.toList_ofList, utf8_eq_flatMap, IsAscii]
  generalize s.toList = l
  induction l with
  | nil => simp
  | cons c l ih =>
    rw [List.flatMap_cons, List.map_append, List.forall_mem_cons, ← ih]
    by_cases hc : c.toNat < 128
    · rw [map_byteChar_utf8EncodeChar hc, List.singleton_append, List.cons.injEq]
      simp [hc]
    · refine iff_of_false (fun h => ?_) fun h => hc h.1
      have hlength := congrArg List.length h
      have hle := length_le_utf8 l
      have hpos := c.utf8Size_pos
      have hone : c.utf8Size ≠ 1 := fun hone =>
        hc (Nat.lt_succ_of_le (UInt32.le_iff_toNat_le.1 (Char.utf8Size_eq_one_iff.1 hone)))
      rw [List.length_append, List.length_map, List.length_map, String.length_utf8EncodeChar,
        List.length_cons] at hlength
      omega

/-! ## Blank text -/

theorem not_isDigit_of_isBlank {s : String} (h : isBlank s = true) :
    ∀ b ∈ utf8 s, isDigit b = false := by
  intro b hb
  rw [utf8_eq_flatMap, List.mem_flatMap] at hb
  obtain ⟨c, hc, hb⟩ := hb
  have hblank : isBlankChar c = true := List.all_eq_true.1 h c hc
  rw [← Bool.not_eq_true]
  intro hd
  simp only [isDigit, Bool.and_eq_true, decide_eq_true_eq,
    UInt8.le_iff_toNat_le] at hd
  simp only [isBlankChar, blankRanges, List.any_cons, List.any_nil, Bool.or_eq_true,
    Bool.and_eq_true, decide_eq_true_eq] at hblank
  have hrange : 48 ≤ b.toNat ∧ b.toNat ≤ 57 := hd
  rcases toNat_of_mem_utf8EncodeChar hb with he | he
  · rw [he] at hrange
    grind
  · omega

/-! ## The lines of a file -/

theorem mem_of_mem_go {bytes line found : List UInt8} (h : found ∈ fileLines.go bytes line)
    {b : UInt8} (hb : b ∈ found) : b ∈ bytes ∨ b ∈ line := by
  fun_induction fileLines.go bytes line with
  | case1 => cases h
  | case2 line hl =>
    rw [List.mem_singleton] at h
    subst h
    exact .inr (List.mem_reverse.1 hb)
  | case3 rest line ih =>
    rcases List.mem_cons.1 h with rfl | h
    · split at hb
      · exact .inr (List.mem_cons_of_mem _ (List.mem_reverse.1 hb))
      · exact .inr (List.mem_reverse.1 hb)
    · rcases ih h with hb | hb
      · exact .inl (List.mem_cons_of_mem _ hb)
      · cases hb
  | case4 c rest line hc ih =>
    rcases ih h with hb | hb
    · exact .inl (List.mem_cons_of_mem c hb)
    · rcases List.mem_cons.1 hb with rfl | hb
      · exact .inl List.mem_cons_self
      · exact .inr hb

/-- The lines of a file hold no bytes but those of the file. -/
theorem mem_of_mem_fileLines {bytes line : List UInt8} (h : line ∈ fileLines bytes) {b : UInt8}
    (hb : b ∈ line) : b ∈ bytes := by
  rcases mem_of_mem_go h hb with hb | hb
  · exact hb
  · cases hb

/-- The bytes of a file with these lines. -/
def fileText (lines : List String) : List UInt8 :=
  lines.flatMap fun line => utf8 line ++ [newline]

/-- Bytes without a newline are gathered for one line. -/
theorem go_append {line : List UInt8} (hline : newline ∉ line) (rest before : List UInt8) :
    fileLines.go (line ++ rest) before = fileLines.go rest (line.reverse ++ before) := by
  induction line generalizing before with
  | nil => rfl
  | cons b line ih =>
    have hb : b ≠ 0x0A := fun hb => hline (hb ▸ List.mem_cons_self)
    have hgo : fileLines.go (b :: (line ++ rest)) before = fileLines.go (line ++ rest) (b :: before) := by
      rw [fileLines.go.eq_def]
      exact if_neg hb
    rw [List.cons_append, hgo, ih fun h => hline (List.mem_cons_of_mem _ h)]
    simp

theorem go_newline {line : List UInt8} (hline : carriageReturn ∉ line) (rest : List UInt8) :
    fileLines.go (newline :: rest) line = line.reverse :: fileLines.go rest [] := by
  have hten : newline = 0x0A := rfl
  rw [fileLines.go.eq_def]
  simp only [hten, if_true]
  split
  · exact absurd List.mem_cons_self hline
  · rfl

/-- Lines of text that are written to a file are read back. -/
theorem fileLines_fileText {lines : List String}
    (h : ∀ line ∈ lines, newline ∉ utf8 line ∧ carriageReturn ∉ utf8 line) :
    fileLines (fileText lines) = lines.map utf8 := by
  induction lines with
  | nil => rfl
  | cons line lines ih =>
    obtain ⟨hnewline, hreturn⟩ := h line List.mem_cons_self
    have hrest := ih fun l hl => h l (List.mem_cons_of_mem _ hl)
    rw [fileLines, fileText, List.flatMap_cons, List.append_assoc, go_append hnewline,
      List.append_nil, List.singleton_append, go_newline fun h => hreturn (List.mem_reverse.1 h),
      List.reverse_reverse]
    exact congrArg _ hrest

end LineBasic.Text

import Mathlib
import LineBasic.Proofs.Program.Rescan

/-!
# The grammar of images

Which byte strings are images of programs, and what is made of one that is.

* `Code.ScanClean`: the code of a line whose end is found where it is.
* `StoredLine`, `IsImage`: lines with any links, an end, and anything after it.
* `scanLines?_eq_some_iff`: the scan of an image finds its lines, whatever follows them.
* `ofImage_accepts_grammar`: a byte string is accepted exactly if it is an image, and its links are then
  written anew.
-/

namespace LineBasic

open Token

/-- A word is written as the two bytes it was read from. -/
theorem Endian.word_ofPair (lo hi : UInt8) : word (ofPair lo hi) = [lo, hi] := by
  have hlo := lo.toNat_lt
  have hhi := hi.toNat_lt
  have hvalue : (ofPair lo hi).toNat = lo.toNat + 256 * hi.toNat := by
    simp only [ofPair, value, UInt16.toNat_ofNat']
    omega
  have hhigh : (lo.toNat + 256 * hi.toNat) / 256 = hi.toNat := by omega
  rw [word_eq, hvalue, hhigh, UInt8.ofNat_toNat]
  congr 1
  apply UInt8.toNat_inj.1
  rw [UInt8.toNat_ofNat']
  omega

namespace Code

/-- The code of a line such that the scan for the end of the line stops right after it. -/
def ScanClean (body : List UInt8) : Prop :=
  Scan.skipTo [endLine] true false false (body ++ [endLine]) = [endLine]

end Code

namespace Scan

/-- One byte of the scan for the end of a line: it is the end, or the scan goes on after it and some of
the bytes that follow. -/
theorem skipTo_endLine_step (literal comment : Bool) (c : UInt8) :
    (∀ rest, skipTo [endLine] true literal comment (c :: rest) = endLine :: rest) ∨
      ∃ literal' comment' n, ∀ rest, skipTo [endLine] true literal comment (c :: rest) =
        skipTo [endLine] true literal' comment' (rest.drop n) := by
  by_cases hc : c = endLine
  · refine .inl fun rest => ?_
    rw [hc, skipTo_endLine, skipTo_endLine_self]
  · right
    by_cases hin : ((if c = quote then !literal else literal) || (decide (c = rem) || comment)) = true
    · refine ⟨if c = quote then !literal else literal, decide (c = rem) || comment, 0, fun rest => ?_⟩
      rw [skipTo.eq_def]
      by_cases hr : c = rem <;> simp_all
    · refine ⟨false, false, operandLength c, fun rest => ?_⟩
      rw [skipTo.eq_def]
      by_cases hr : c = rem <;> simp_all

/-- The scan for the end of a line reads nothing beyond the end that it finds. -/
theorem skipTo_endLine_append_iff (literal comment : Bool) (body rest : List UInt8) :
    skipTo [endLine] true literal comment (body ++ endLine :: rest) = endLine :: rest ↔
      skipTo [endLine] true literal comment (body ++ [endLine]) = [endLine] := by
  induction hn : body.length using Nat.strong_induction_on generalizing literal comment body with
  | _ n ih =>
    cases body with
    | nil =>
      simp only [List.nil_append, skipTo_endLine literal comment, skipTo_endLine_self]
    | cons c body =>
      simp only [List.length_cons] at hn
      rcases skipTo_endLine_step literal comment c with hfound | ⟨literal', comment', k, hstep⟩
      · -- The end of the line would come before the end of the body.
        have hlen : ∀ after : List UInt8, body ++ endLine :: after ≠ after := by
          intro after h
          have := congrArg List.length h
          simp only [List.length_append, List.length_cons] at this
          omega
        simp [hfound, hlen]
      · simp only [List.cons_append, hstep]
        by_cases hk : k ≤ body.length
        · rw [List.drop_append_of_le_length hk, List.drop_append_of_le_length hk]
          exact ih _ (by rw [List.length_drop]; omega) _ _ (body.drop k) rfl
        · -- The operand swallows the end of the line.
          have hlong : ∀ after : List UInt8,
              skipTo [endLine] true literal' comment' ((body ++ endLine :: after).drop k) ≠
                endLine :: after := by
            intro after h
            have hle := length_skipTo_le [endLine] true literal' comment'
              ((body ++ endLine :: after).drop k)
            rw [h] at hle
            simp only [List.length_drop, List.length_append, List.length_cons] at hle
            omega
          exact iff_of_false (hlong rest) (hlong [])

end Scan

namespace Program

open Code Scan

/-! ## The grammar -/

/-- A line as it stands in an image, byte by byte. -/
structure StoredLine where
  linkLow : UInt8
  linkHigh : UInt8
  numberLow : UInt8
  numberHigh : UInt8
  body : List UInt8
  deriving DecidableEq, Repr

namespace StoredLine

/-- The bytes of a line in an image. -/
def bytes (l : StoredLine) : List UInt8 :=
  [endLine, l.linkLow, l.linkHigh, l.numberLow, l.numberHigh] ++ l.body

/-- The line without its link. -/
def line (l : StoredLine) : Line :=
  ⟨Endian.ofPair l.numberLow l.numberHigh, l.body⟩

/-- A link of two zero bytes would be the end of the program. -/
def IsLinked (l : StoredLine) : Prop :=
  ¬ (l.linkLow = 0 ∧ l.linkHigh = 0)

/-- The line with another link, and otherwise as it was. -/
def withLink (l : StoredLine) (link : Nat) : StoredLine :=
  { l with linkLow := UInt8.ofNat link, linkHigh := UInt8.ofNat (link / 256) }

@[simp] theorem length_bytes (l : StoredLine) : l.bytes.length = l.line.size := by
  simp only [bytes, line, Line.size, List.length_append, List.length_cons, List.length_nil]
  omega

@[simp] theorem line_withLink (l : StoredLine) (link : Nat) : (l.withLink link).line = l.line := rfl

end StoredLine

/-- A byte string that is made of lines with ascending numbers and the end of a program, and goes on with
any bytes.  What comes before these has at most the size of an image. -/
structure IsImage (image : List UInt8) (lines : List StoredLine) (rest : List UInt8) : Prop where
  bytes_eq : image = lines.flatMap StoredLine.bytes ++ [0, 0, 0] ++ rest
  linked : ∀ l ∈ lines, l.IsLinked
  clean : ∀ l ∈ lines, ScanClean l.body
  ascending : Ascending (lines.map StoredLine.line)
  fits : (lines.flatMap StoredLine.bytes ++ [0, 0, 0]).length ≤ maxImageSize

/-- Lines that start at an offset, with each link one more than the offset of the next line. -/
def relink (offset : Nat) : List StoredLine → List StoredLine
  | [] => []
  | l :: rest => l.withLink (offset + l.bytes.length + 1) :: relink (offset + l.bytes.length) rest

theorem length_flatMap_bytes (lines : List StoredLine) :
    (lines.flatMap StoredLine.bytes).length = extent (lines.map StoredLine.line) := by
  induction lines with
  | nil => rfl
  | cons l rest ih =>
    simp only [List.flatMap_cons, List.length_append, StoredLine.length_bytes, ih, List.map_cons,
      extent_cons]

/-! ## Scanning an image -/

/-- How a line is read: its marker, then its code up to the end that the scan finds. -/
theorem scanLines?_bytes {l : StoredLine} (hlinked : l.IsLinked) (hclean : ScanClean l.body)
    {code after : List UInt8} (hcode : code = endLine :: after) :
    scanLines? (l.bytes ++ code) = (scanLines? code).map (l.line :: ·) := by
  have hmarker : lineMarker (l.linkLow :: l.linkHigh :: l.numberLow :: l.numberHigh ::
      (l.body ++ code)) = (some l.line.number, l.body ++ code) := if_neg hlinked
  have hskip : skipTo [endLine] true false false (l.body ++ code) = code := by
    rw [hcode]
    exact (skipTo_endLine_append_iff false false l.body after).2 hclean
  have hbytes : l.bytes ++ code = endLine :: l.linkLow :: l.linkHigh :: l.numberLow ::
      l.numberHigh :: (l.body ++ code) := by simp [StoredLine.bytes]
  rw [hbytes, scanLines?, if_pos rfl, hmarker]
  simp only [hskip, List.length_append, Nat.add_sub_cancel, List.take_left']
  rfl

theorem exists_endLine_cons (lines : List StoredLine) (rest : List UInt8) :
    ∃ after, lines.flatMap StoredLine.bytes ++ [0, 0, 0] ++ rest = endLine :: after := by
  cases lines with
  | nil => exact ⟨0 :: 0 :: rest, rfl⟩
  | cons l lines => exact ⟨_, rfl⟩

theorem scanLines?_flatMap {lines : List StoredLine} (rest : List UInt8)
    (hlinked : ∀ l ∈ lines, l.IsLinked) (hclean : ∀ l ∈ lines, ScanClean l.body) :
    scanLines? (lines.flatMap StoredLine.bytes ++ [0, 0, 0] ++ rest) =
      some (lines.map StoredLine.line) := by
  induction lines with
  | nil =>
    have hmarker : lineMarker (0 :: 0 :: rest) = (none, 0 :: 0 :: rest) := by
      rcases rest with _ | ⟨a, _ | ⟨b, rest⟩⟩ <;> rfl
    have hstart : ([] : List StoredLine).flatMap StoredLine.bytes ++ [0, 0, 0] ++ rest =
        endLine :: 0 :: 0 :: rest := rfl
    rw [hstart, scanLines?, if_pos rfl, hmarker]
    rfl
  | cons l lines ih =>
    rw [List.forall_mem_cons] at hlinked hclean
    obtain ⟨after, hafter⟩ := exists_endLine_cons lines rest
    have happend : (l :: lines).flatMap StoredLine.bytes ++ [0, 0, 0] ++ rest =
        l.bytes ++ (lines.flatMap StoredLine.bytes ++ [0, 0, 0] ++ rest) := by simp
    rw [happend, scanLines?_bytes hlinked.1 hclean.1 hafter, ih hlinked.2 hclean.2]
    rfl

/-- A marker with a number is four bytes, of which the first two are not both zero. -/
theorem lineMarker_eq_some {code : List UInt8} {number : UInt16} (h : (lineMarker code).1 = some number) :
    ∃ x y lo hi, code = x :: y :: lo :: hi :: (lineMarker code).2 ∧ ¬ (x = 0 ∧ y = 0) ∧
      number = Endian.ofPair lo hi := by
  unfold lineMarker at h ⊢
  split at h
  · rename_i x y lo hi rest
    split at h
    · cases h
    · rename_i hlink
      refine ⟨x, y, lo, hi, ?_, hlink, (Option.some.inj h).symm⟩
      simp only [if_neg hlink]
  · cases h

/-- A place without a marker is where the code was. -/
theorem lineMarker_eq_none {code : List UInt8} (h : (lineMarker code).1 = none) :
    (lineMarker code).2 = code := by
  unfold lineMarker at h ⊢
  split at h
  · split at h
    · rename_i hlink
      simp only [if_pos hlink]
    · cases h
  · rfl

/-- The lines that a scan finds are the lines of the image. -/
theorem exists_storedLines_of_scanLines? {image : List UInt8} {lines : List Line}
    (h : scanLines? image = some lines) :
    ∃ (stored : List StoredLine) (rest : List UInt8),
      image = stored.flatMap StoredLine.bytes ++ [0, 0, 0] ++ rest ∧
      (∀ l ∈ stored, l.IsLinked) ∧ (∀ l ∈ stored, ScanClean l.body) ∧
      stored.map StoredLine.line = lines := by
  fun_induction scanLines? image generalizing lines with
  | case1 => cases h
  | case2 code hmarker hzero =>
    cases h
    rw [lineMarker_eq_none hmarker] at hzero
    refine ⟨[], code.drop 2, ?_, by simp, by simp, rfl⟩
    have hcode := List.take_append_drop 2 code
    rw [hzero] at hcode
    rw [← hcode]
    rfl
  | case3 => cases h
  | case4 code number hmarker rest after =>
    rename_i ih
    obtain ⟨found, hfound, rfl⟩ := Option.map_eq_some_iff.1 h
    obtain ⟨stored, tail, hafter, hlinked, hclean, rfl⟩ := ih hfound
    obtain ⟨x, y, lo, hi, hcode, hlink, rfl⟩ := lineMarker_eq_some hmarker
    obtain ⟨next, hnext⟩ := exists_endLine_cons stored tail
    obtain ⟨body, hbody⟩ : after <:+ rest := skipTo_suffix [endLine] true false false rest
    have htake : rest.take (rest.length - after.length) = body := by
      rw [← hbody, List.length_append, Nat.add_sub_cancel, List.take_left']
      rfl
    rw [htake]
    refine ⟨⟨x, y, lo, hi, body⟩ :: stored, tail, ?_, ?_, ?_, rfl⟩
    · have hrest : (lineMarker code).2 = body ++ after := hbody.symm
      rw [hcode, hrest, hafter]
      simp [StoredLine.bytes]
    · exact List.forall_mem_cons.2 ⟨hlink, hlinked⟩
    · refine List.forall_mem_cons.2 ⟨?_, hclean⟩
      rw [hnext] at hafter
      refine (skipTo_endLine_append_iff false false body next).1 ?_
      rw [← hafter, hbody]
  | case5 => cases h

/-- The scan of a byte string finds lines exactly if it is made of them, an end and any rest. -/
theorem scanLines?_eq_some_iff {image : List UInt8} {lines : List Line} :
    scanLines? image = some lines ↔
      ∃ (stored : List StoredLine) (rest : List UInt8),
      image = stored.flatMap StoredLine.bytes ++ [0, 0, 0] ++ rest ∧
        (∀ l ∈ stored, l.IsLinked) ∧ (∀ l ∈ stored, ScanClean l.body) ∧
        stored.map StoredLine.line = lines := by
  constructor
  · exact exists_storedLines_of_scanLines?
  · rintro ⟨stored, rest, rfl, hlinked, hclean, rfl⟩
    exact scanLines?_flatMap rest hlinked hclean

/-! ## Links -/

theorem map_line_relink (offset : Nat) (lines : List StoredLine) :
    (relink offset lines).map StoredLine.line = lines.map StoredLine.line := by
  induction lines generalizing offset with
  | nil => rfl
  | cons l rest ih => simp [relink, ih]

/-- The image of lines is the lines with their links written anew. -/
theorem render_eq_relink (offset : Nat) (lines : List StoredLine) :
    render offset (lines.map StoredLine.line) =
      (relink offset lines).flatMap StoredLine.bytes ++ [0, 0, 0] := by
  induction lines generalizing offset with
  | nil => rfl
  | cons l rest ih =>
    have hnumber : Endian.word l.line.number = [l.numberLow, l.numberHigh] :=
      Endian.word_ofPair l.numberLow l.numberHigh
    have hlink : ∀ link, Endian.bytes 2 link = [UInt8.ofNat link, UInt8.ofNat (link / 256)] :=
      fun _ => rfl
    rw [List.map_cons, render, hnumber, hlink, ih, relink, List.flatMap_cons, StoredLine.length_bytes]
    simp [StoredLine.bytes, StoredLine.withLink, StoredLine.line]

theorem isLinked_withLink {link : Nat} (l : StoredLine) (hpos : 0 < link) (hmax : link < 65536) :
    (l.withLink link).IsLinked := by
  rintro ⟨hlow, hhigh⟩
  have hlow := congrArg UInt8.toNat hlow
  have hhigh := congrArg UInt8.toNat hhigh
  simp only [StoredLine.withLink, UInt8.toNat_ofNat'] at hlow hhigh
  have : (0 : UInt8).toNat = 0 := rfl
  omega

/-- In an image that fits no link is zero. -/
theorem isLinked_relink {offset : Nat} {lines : List StoredLine}
    (hmax : offset + (lines.flatMap StoredLine.bytes).length < 65535) :
    ∀ l ∈ relink offset lines, l.IsLinked := by
  induction lines generalizing offset with
  | nil => simp [relink]
  | cons l rest ih =>
    rw [List.flatMap_cons, List.length_append] at hmax
    refine List.forall_mem_cons.2 ⟨isLinked_withLink l (by omega) (by omega), ih (by omega)⟩

theorem forall_mem_relink {P : List UInt8 → Prop} {offset : Nat} {lines : List StoredLine}
    (h : ∀ l ∈ lines, P l.body) : ∀ l ∈ relink offset lines, P l.body := by
  induction lines generalizing offset with
  | nil => simp [relink]
  | cons l rest ih =>
    rw [List.forall_mem_cons] at h
    exact List.forall_mem_cons.2 ⟨h.1, ih h.2⟩

/-! ## Acceptance -/

/-- Lines that a scan finds make a program if their numbers ascend and their image fits. -/
theorem ofImage_eq_ok {image : List UInt8} {lines : List Line} (hscan : scanLines? image = some lines)
    (hascending : Ascending lines) (hfits : extent lines + 3 ≤ maxImageSize) :
    ∃ p, ofImage image = .ok p ∧ p.pos = 0 ∧ p.lines = lines := by
  have hfits : (render 0 lines).length ≤ maxImageSize := by rwa [length_render]
  let q : Program :=
    { lines, pos := 0, image := render 0 lines, ascending := hascending, linked := rfl, fits := hfits }
  refine ⟨q.seek 0, ?_, Nat.zero_min _, rfl⟩
  unfold ofImage ofStream
  simp only [hscan, isAscending_of_ascending hascending, dite_true, ofLines_of_fits hascending hfits]
  rfl

/-- The lines of an accepted byte string are those that a scan finds. -/
theorem scanLines?_of_ofImage {image : List UInt8} {p : Program} (h : ofImage image = .ok p) :
    scanLines? image = some p.lines := by
  unfold ofImage ofStream at h
  split at h
  · cases h
  · rename_i lines hscan
    split at h
    · obtain ⟨q, hq, hp⟩ := Effect.bind_eq_ok.1 h
      cases hp
      rw [hscan, ← (lines_of_ofLines hq).1]
      rfl
    · cases h

/-- An image is accepted, and the program has its lines. -/
theorem IsImage.ofImage_eq_ok {image rest : List UInt8} {lines : List StoredLine}
    (h : IsImage image lines rest) :
    ∃ p, ofImage image = .ok p ∧ p.pos = 0 ∧ p.lines = lines.map StoredLine.line := by
  have hfits : extent (lines.map StoredLine.line) + 3 ≤ maxImageSize := by
    have hfits := h.fits
    rwa [List.length_append, length_flatMap_bytes] at hfits
  have hscan : scanLines? image = some (lines.map StoredLine.line) := by
    rw [h.bytes_eq]
    exact scanLines?_flatMap rest h.linked h.clean
  exact Program.ofImage_eq_ok hscan h.ascending hfits

/-- What is accepted is an image. -/
theorem exists_isImage_of_ofImage {image : List UInt8} {p : Program} (h : ofImage image = .ok p) :
    ∃ lines rest, IsImage image lines rest := by
  obtain ⟨lines, rest, himage, hlinked, hclean, hlines⟩ :=
    scanLines?_eq_some_iff.1 (scanLines?_of_ofImage h)
  refine ⟨lines, rest, himage, hlinked, hclean, hlines ▸ p.ascending, ?_⟩
  rw [List.length_append, length_flatMap_bytes, hlines]
  have hfits := p.fits
  rwa [p.linked, length_render] at hfits

/-- The image of lines that fit is accepted as their program. -/
theorem ofImage_image_of_lines {p : Program} {lines : List StoredLine} (hpos : p.pos = 0)
    (hlines : p.lines = lines.map StoredLine.line) (hclean : ∀ l ∈ lines, ScanClean l.body) :
    p.image = (relink 0 lines).flatMap StoredLine.bytes ++ [0, 0, 0] ∧
      ofImage p.image = .ok p := by
  have himage : p.image = (relink 0 lines).flatMap StoredLine.bytes ++ [0, 0, 0] := by
    rw [p.linked, hlines, render_eq_relink]
  have hmax : 0 + (lines.flatMap StoredLine.bytes).length < 65535 := by
    have hfits := p.fits
    rw [p.linked, length_render, hlines, ← length_flatMap_bytes, maxImageSize] at hfits
    omega
  refine ⟨himage, (ofImage_eq_ok_iff hpos).2 (scanLines?_eq_some_iff.2 ?_)⟩
  refine ⟨relink 0 lines, [], ?_, isLinked_relink hmax, forall_mem_relink hclean, ?_⟩
  · rw [himage, List.append_nil]
  · rw [map_line_relink, hlines]

/-- A byte string is accepted exactly if it is an image.  The program then has the lines of the image; its
own image is that image without what follows its end and with every link written anew, and is accepted as
the same program. -/
theorem ofImage_accepts_grammar (image : List UInt8) :
    ((∃ p, ofImage image = .ok p) ↔ ∃ lines rest, IsImage image lines rest) ∧
      ∀ lines rest, IsImage image lines rest →
        ∃ p, ofImage image = .ok p ∧ p.pos = 0 ∧ p.lines = lines.map StoredLine.line ∧
          p.image = (relink 0 lines).flatMap StoredLine.bytes ++ [0, 0, 0] ∧
          ofImage p.image = .ok p := by
  refine ⟨⟨?_, ?_⟩, ?_⟩
  · rintro ⟨p, hp⟩
    exact exists_isImage_of_ofImage hp
  · rintro ⟨lines, rest, h⟩
    obtain ⟨p, hp, -⟩ := h.ofImage_eq_ok
    exact ⟨p, hp⟩
  · intro lines rest h
    obtain ⟨p, hp, hpos, hlines⟩ := h.ofImage_eq_ok
    exact ⟨p, hp, hpos, hlines, ofImage_image_of_lines hpos hlines h.clean⟩

/-- Two lines with links that lead nowhere, a line number with a zero byte, a literal that the end of the
line closes, and bytes after the end. -/
theorem ofImage_accepts_relinked :
    IsImage [0, 0xFF, 0xFF, 10, 0, 0x89, 0x20, 0x0E, 0, 1, 0, 1, 0, 20, 0, 0x91, 0x22, 0x3A, 0, 0, 0, 7]
        [⟨0xFF, 0xFF, 10, 0, [0x89, 0x20, 0x0E, 0, 1]⟩, ⟨1, 0, 20, 0, [0x91, 0x22, 0x3A]⟩] [7] ∧
      ∃ p, ofImage [0, 0xFF, 0xFF, 10, 0, 0x89, 0x20, 0x0E, 0, 1, 0, 1, 0, 20, 0, 0x91, 0x22, 0x3A,
          0, 0, 0, 7] = .ok p ∧
        p.pos = 0 ∧ p.lines = [⟨10, [0x89, 0x20, 0x0E, 0, 1]⟩, ⟨20, [0x91, 0x22, 0x3A]⟩] ∧
        p.image = [0, 11, 0, 10, 0, 0x89, 0x20, 0x0E, 0, 1, 0, 19, 0, 20, 0, 0x91, 0x22, 0x3A, 0, 0, 0] ∧
        ofImage p.image = .ok p := by
  have himage : IsImage
      [0, 0xFF, 0xFF, 10, 0, 0x89, 0x20, 0x0E, 0, 1, 0, 1, 0, 20, 0, 0x91, 0x22, 0x3A, 0, 0, 0, 7]
      [⟨0xFF, 0xFF, 10, 0, [0x89, 0x20, 0x0E, 0, 1]⟩, ⟨1, 0, 20, 0, [0x91, 0x22, 0x3A]⟩] [7] := by
    refine ⟨rfl, ?_, ?_, ?_, by decide⟩
    · simp [StoredLine.IsLinked]
    · have hfirst : skipTo [endLine] true false false [0x89, 0x20, 0x0E, 0, 1, 0] = [0] := by cbv
      have hsecond : skipTo [endLine] true false false [0x91, 0x22, 0x3A, 0] = [0] := by cbv
      simp only [List.forall_mem_cons]
      exact ⟨hfirst, hsecond, by simp⟩
    · exact ascending_of_isAscending rfl
  exact ⟨himage, (ofImage_accepts_grammar _).2 _ _ himage⟩

end Program

end LineBasic

import Mathlib
import LineBasic.Program.Rescan
import LineBasic.Proofs.Code.Skip
import LineBasic.Proofs.Program.Load

/-!
# Reading an image back

A program that was loaded from text is found again in its image, line by line, unless the scan for the end
of a line is misled by a byte `8F` in a string literal.

* `scanLines?_render`: the lines found in the image of given lines.
* `ofImage_image_iff`: when a program is read back from its image.
* `load_rescans_iff`: the same for the programs that can be loaded.
-/

namespace LineBasic.Program

open Token Code

/-! ## The lines of an image -/

/-- How the first line of an image is read. -/
theorem scanLines?_render_cons {offset : Nat} {l : Line} (rest : List Line)
    (hmax : offset + l.size < 65535) :
    scanLines? (render offset (l :: rest)) =
      let code := l.body ++ render (offset + l.size) rest
      let after := Scan.skipTo [endLine] true false false code
      (scanLines? after).map (⟨l.number, code.take (code.length - after.length)⟩ :: ·) := by
  have hlink : 0 < offset + l.size + 1 ∧ offset + l.size + 1 < 65536 := by omega
  have hmarker := lineMarker_link l.number (l.body ++ render (offset + l.size) rest) hlink.1 hlink.2
  have hrender : render offset (l :: rest) = endLine :: (Endian.bytes 2 (offset + l.size + 1) ++
      Endian.word l.number ++ (l.body ++ render (offset + l.size) rest)) := by simp [render]
  rw [hrender, scanLines?, if_pos rfl, hmarker]

theorem scanLines?_render_nil (offset : Nat) : scanLines? (render offset []) = some [] := by
  rw [render, scanLines?]
  rfl

/-- The lines that make an image are found in it exactly if none of them seems to end early. -/
theorem scanLines?_render {offset : Nat} {lines : List Line}
    (hlexical : ∀ l ∈ lines, Lexical l.body) (hmax : offset + extent lines < 65535) :
    scanLines? (render offset lines) = some lines ↔ ∀ l ∈ lines, ¬ EndsEarly l.body := by
  induction lines generalizing offset with
  | nil => simp [scanLines?_render_nil]
  | cons l rest ih =>
    rw [extent_cons] at hmax
    obtain ⟨after, hafter⟩ := render_eq_cons (offset + l.size) rest
    rw [scanLines?_render_cons rest (by omega), List.forall_mem_cons]
    simp only
    by_cases hearly : EndsEarly l.body
    · -- The body that is found is shorter than the body of the line.
      have hlong := Scan.length_lt_skipTo_of_endsEarly hearly (render (offset + l.size) rest)
      refine iff_of_false (fun h => ?_) fun h => h.1 hearly
      obtain ⟨found, -, heq⟩ := Option.map_eq_some_iff.1 h
      have hle := Scan.length_skipTo_le [endLine] true false false
        (l.body ++ render (offset + l.size) rest)
      have hbody := congrArg (fun m : Line => m.body.length) (List.cons.inj heq).1
      simp only [List.length_take, List.length_append] at hbody hle
      omega
    · have hskip := Scan.skipTo_endLine_of_lexical (hlexical l List.mem_cons_self) hearly after
      rw [← hafter] at hskip
      rw [hskip, List.length_append, Nat.add_sub_cancel, List.take_left, Option.map_eq_some_iff]
      simp only [List.cons.injEq, true_and, exists_eq_right, hearly, not_false_eq_true]
      exact ih (fun m hm => hlexical m (List.mem_cons_of_mem _ hm)) (by omega)

/-! ## Programs -/

theorem isAscending_of_ascending {lines : List Line} (h : Ascending lines) :
    isAscending lines = true := by
  induction lines with
  | nil => rfl
  | cons a rest ih =>
    cases rest with
    | nil => rfl
    | cons b rest =>
      have hab : a.number < b.number := (List.pairwise_cons.1 h).1 b List.mem_cons_self
      rw [isAscending, ih h.of_cons, Bool.and_true]
      exact decide_eq_true hab

theorem ofImage_eq_ok_iff {p : Program} (hpos : p.pos = 0) :
    ofImage p.image = .ok p ↔ scanLines? p.image = some p.lines := by
  unfold ofImage ofStream
  constructor
  · intro h
    split at h
    · cases h
    · rename_i lines hlines
      split at h
      · rename_i hasc
        cases hq : ofLines lines (ascending_of_isAscending hasc) with
        | error e =>
          rw [hq] at h
          cases h
        | ok q =>
          rw [hq] at h
          have hp : q.seek 0 = p := Except.ok.inj h
          have hfound : p.lines = lines := by
            rw [← hp]
            exact (lines_of_ofLines hq).1
          rw [hfound]
          exact hlines
      · cases h
  · intro h
    have hfits : (render 0 p.lines).length ≤ maxImageSize := p.linked ▸ p.fits
    rw [h]
    simp only [isAscending_of_ascending p.ascending, dite_true, ofLines_of_fits p.ascending hfits]
    obtain ⟨lines, pos, image, hasc, rfl, hfits⟩ := p
    cases hpos
    rfl

/-- A program is read back from its image exactly if none of its lines seems to end early. -/
theorem ofImage_image_iff {p : Program} (hpos : p.pos = 0)
    (hlexical : ∀ l ∈ p.lines, Lexical l.body) :
    ofImage p.image = .ok p ↔ ∀ l ∈ p.lines, ¬ EndsEarly l.body := by
  have hmax : 0 + extent p.lines < 65535 := by
    have := p.fits
    rw [p.linked, length_render, maxImageSize] at this
    omega
  rw [ofImage_eq_ok_iff hpos, p.linked]
  exact scanLines?_render hlexical hmax

/-- A program that was loaded from text without NUL characters is read back from its image exactly if no
line has a byte `8F` in a string literal and a zero byte after it. -/
theorem load_rescans_iff {bytes : List UInt8} {p : Program} (hnul : endLine ∉ bytes)
    (h : load bytes = .ok p) :
    ofImage p.image = .ok p ↔ ∀ l ∈ p.lines, ¬ EndsEarly l.body :=
  ofImage_image_iff (lines_of_load hnul h).2 fun _ hl => lexical_of_load hnul h hl

/-- A literal with the byte `8F`, and a line number with a zero byte, but not in one line. -/
theorem load_rescans_separate_lines :
    endLine ∉ Text.utf8 "10 A$=\"ď\"\n20 GOTO 256" ∧
      ∃ p, load (Text.utf8 "10 A$=\"ď\"\n20 GOTO 256") = .ok p ∧ ofImage p.image = .ok p := by
  have hnul : endLine ∉ Text.utf8 "10 A$=\"ď\"\n20 GOTO 256" := by
    have : (Text.utf8 "10 A$=\"ď\"\n20 GOTO 256").contains endLine = false := by cbv
    simpa using this
  have hlines : Text.fileLines (Text.utf8 "10 A$=\"ď\"\n20 GOTO 256") =
      ["10 A$=\"ď\"", "20 GOTO 256"].map Text.utf8 := by cbv
  have hcodes : ["10 A$=\"ď\"", "20 GOTO 256"].map Crunch.line =
      [[0, 0xC0, 0xDE, 10, 0, 0x41, 0x24, 0xE7, 0x22, 0xC4, 0x8F, 0x22, 0],
        [0, 0xC0, 0xDE, 20, 0, 0x89, 0x20, 0x0E, 0, 1, 0]] := by cbv
  have hload : ∃ p, load (Text.utf8 "10 A$=\"ď\"\n20 GOTO 256") = .ok p ∧ p.lines =
      [⟨10, [0x41, 0x24, 0xE7, 0x22, 0xC4, 0x8F, 0x22]⟩, ⟨20, [0x89, 0x20, 0x0E, 0, 1]⟩] := by
    rw [load_eq_foldlM hlines (by cbv), hcodes]
    exact ⟨_, rfl, rfl⟩
  obtain ⟨p, hp, hps⟩ := hload
  refine ⟨hnul, p, hp, (load_rescans_iff hnul hp).2 ?_⟩
  rw [hps]
  intro l hl
  rcases List.mem_cons.1 hl with rfl | hl
  · exact fun h => absurd h.endLine_mem (by decide)
  · rw [List.mem_singleton.1 hl]
    exact fun h => absurd h.rem_mem (by decide)

/-- In one line the zero byte of the number is taken for the end of the line. -/
theorem load_not_rescanned :
    ∃ p, load (Text.utf8 "10 A$=\"ď\":GOTO 256") = .ok p ∧
      ofImage p.image = .error (.noted .internalError "CORRUPT PROGRAM") := by
  have hlines : Text.fileLines (Text.utf8 "10 A$=\"ď\":GOTO 256") =
      ["10 A$=\"ď\":GOTO 256"].map Text.utf8 := by cbv
  have hcodes : ["10 A$=\"ď\":GOTO 256"].map Crunch.line =
      [[0, 0xC0, 0xDE, 10, 0, 0x41, 0x24, 0xE7, 0x22, 0xC4, 0x8F, 0x22, 0x3A, 0x89, 0x20, 0x0E, 0, 1,
        0]] := by cbv
  have hscan : scanLines? [0, 19, 0, 10, 0, 0x41, 0x24, 0xE7, 0x22, 0xC4, 0x8F, 0x22, 0x3A, 0x89,
      0x20, 0x0E, 0, 1, 0, 0, 0] = none := by cbv
  rw [load_eq_foldlM hlines (by cbv), hcodes]
  refine ⟨_, rfl, ?_⟩
  rw [ofImage, ofStream]
  exact hscan ▸ rfl

end LineBasic.Program

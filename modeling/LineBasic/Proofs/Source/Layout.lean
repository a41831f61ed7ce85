import LineBasic.Proofs.Source.Code
import LineBasic.Proofs.Source.Machine

/-!
# Where source text stands in an image

The lines of a program's text and the lines of the loaded program, and the offset at which each statement
starts in its image.

* `lines_of_load_text`: loading a text crunches its lines.
* `place`: the offset of a position.  A statement starts with what separates it from the one before: the
  marker of its line, or a colon.
* `place_injective`: no two positions stand at one offset.
* `exists_chunk`: what stands in the image at a position.
-/

namespace LineBasic.Source

open Token

/-- A line of text, crunched. -/
def TextLine.line (l : TextLine) : Line where
  number := l.number
  body := Crunch.body false l.text

/-! ## The lines of a loaded program -/

/-- The text of a line does not start with a space. -/
theorem head_of_numberedText? {bytes text : List UInt8} {n : UInt16}
    (h : Program.numberedText? bytes = some (n, text)) : text.head? ≠ some space := by
  unfold Program.numberedText? Crunch.lineNumber? at h
  simp only at h
  split at h
  · cases h
  · cases h
    intro hhead
    have hnot := List.head?_dropWhile_not (fun b => decide (b = space))
      (((Crunch.trimEnd bytes).dropWhile fun b => b = space || b = tab).dropWhile isDigit)
    rw [hhead] at hnot
    simp at hnot

theorem lexeme_ne_blank {c : UInt8} (hc : c ≠ space) (rest : List UInt8) :
    (lexeme c rest).1 ≠ .blank := by
  unfold lexeme
  split
  · simp
  · split
    · unfold number
      split <;> simp
    · split
      · unfold word
        split <;> simp
      · simp only [single, hc, if_false]
        split
        · simp
        · split <;> simp

/-- Text that does not start with a space has code that does not start with a blank. -/
theorem all_isBlank_body {text : List UInt8} (hp : ∀ b ∈ text, isPrintable b = true)
    (hhead : text.head? ≠ some space) :
    (Crunch.body false text).all isBlank = true ↔ text = [] := by
  cases text with
  | nil => simp [Crunch.body]
  | cons c rest =>
    have hcolon : isBlank colon = false := by decide
    rw [body_eq_code false hp, split]
    simp only [reduceCtorEq, iff_false]
    split
    · simp [encode, encodeAfter, hcolon]
    · split
      · simp [encode, encodeAfter, hcolon]
      · rename_i hcolon'
        have hc : c ≠ space := by simpa using hhead
        have hvalid := valid_lexeme hp hcolon'
        obtain ⟨b, more, hcode, hlead⟩ := Lexeme.leads_code hvalid (false && (lexeme c rest).1.keeps)
        have hb := (hlead.not_end (lexeme_ne_blank hc rest)).1
        simp only [encode, hcode]
        simp [hb]

/-- Text is stored in the order of its numbers, as the lines of its code are. -/
theorem insertText_line (l : TextLine) (lines : List TextLine) :
    (insertText l lines).map TextLine.line = Program.insertLine l.line (lines.map TextLine.line) := by
  induction lines with
  | nil => rfl
  | cons m rest ih =>
    have hl : l.line.number = l.number := rfl
    have hm : m.line.number = m.number := rfl
    simp only [insertText, List.map_cons, Program.insertLine, hl, hm]
    split
    · rfl
    · split
      · rfl
      · simp [ih]

/-- Entering a line of text, and entering it crunched. -/
theorem enterText_line (lines : List TextLine) {bytes : List UInt8}
    (hp : ∀ b ∈ bytes, isPrintable b = true) :
    (enterText lines bytes).map TextLine.line =
      Program.enterLine (lines.map TextLine.line) bytes := by
  unfold enterText Program.enterLine
  cases h : Program.numberedText? bytes with
  | none => rfl
  | some found =>
    obtain ⟨n, text⟩ := found
    have hblank := all_isBlank_body (fun b hb => hp b (Program.mem_of_numberedText? h hb))
      (head_of_numberedText? h)
    simp only
    by_cases htext : text = []
    · rw [if_pos htext, if_pos (hblank.2 htext), List.filter_map]
      rfl
    · rw [if_neg htext, if_neg (mt hblank.1 htext), insertText_line]
      rfl

theorem mem_insertText {l m : TextLine} {lines : List TextLine} (h : m ∈ insertText l lines) :
    m = l ∨ m ∈ lines := by
  induction lines with
  | nil => exact .inl (by simpa [insertText] using h)
  | cons a rest ih =>
    unfold insertText at h
    split at h
    · exact List.mem_cons.1 h
    · split at h
      · exact (List.mem_cons.1 h).imp id (List.mem_cons_of_mem _)
      · rcases List.mem_cons.1 h with rfl | h
        · exact .inr List.mem_cons_self
        · exact (ih h).imp id (List.mem_cons_of_mem _)

theorem printable_enterText {lines : List TextLine} {bytes : List UInt8}
    (hp : ∀ b ∈ bytes, isPrintable b = true)
    (hlines : ∀ l ∈ lines, ∀ b ∈ l.text, isPrintable b = true) {l : TextLine}
    (h : l ∈ enterText lines bytes) : ∀ b ∈ l.text, isPrintable b = true := by
  unfold enterText at h
  split at h
  · exact hlines l h
  · rename_i n text hn
    split at h
    · exact hlines l (List.mem_filter.1 h).1
    · rcases mem_insertText h with rfl | h
      · exact fun b hb => hp b (Program.mem_of_numberedText? hn hb)
      · exact hlines l h

/-- Any number of lines are entered as text and as code. -/
theorem foldl_enterText {texts : List (List UInt8)} {lines : List TextLine}
    (hp : ∀ bytes ∈ texts, ∀ b ∈ bytes, isPrintable b = true)
    (hlines : ∀ l ∈ lines, ∀ b ∈ l.text, isPrintable b = true) :
    (texts.foldl enterText lines).map TextLine.line =
        texts.foldl Program.enterLine (lines.map TextLine.line) ∧
      ∀ l ∈ texts.foldl enterText lines, ∀ b ∈ l.text, isPrintable b = true := by
  induction texts generalizing lines with
  | nil => exact ⟨rfl, hlines⟩
  | cons bytes texts ih =>
    have hbytes := hp bytes List.mem_cons_self
    rw [List.foldl_cons, List.foldl_cons, ← enterText_line lines hbytes]
    exact ih (fun b hb => hp b (List.mem_cons_of_mem _ hb))
      fun l hl => printable_enterText hbytes hlines hl

/-- A program loaded from printable text has the lines of the text, crunched. -/
theorem lines_of_load_text {bytes : List UInt8} {p : Program} (hload : Program.load bytes = .ok p)
    (hp : ∀ line ∈ Text.fileLines bytes, ∀ b ∈ line, isPrintable b = true) :
    p.lines = (ofText bytes).map TextLine.line ∧ p.pos = 0 ∧
      ∀ l ∈ ofText bytes, ∀ b ∈ l.text, isPrintable b = true := by
  have hnul : ∀ line ∈ Text.fileLines bytes, endLine ∉ line := fun line hl hb =>
    absurd (hp line hl endLine hb) (by decide)
  obtain ⟨hlines, hpos⟩ := Program.lines_of_foldlM hnul hload
  obtain ⟨hmap, hprintable⟩ := foldl_enterText hp (show ∀ l ∈ [], _ from fun _ hl => by cases hl)
  exact ⟨hlines.trans hmap.symm, hpos rfl, hprintable⟩

/-! ## Places -/

/-- The code of the statements of a line, with colons between them. -/
def joined : List (List Lexeme) → List UInt8
  | [] => []
  | first :: others => encode false first ++ encodeAfter others

theorem joined_append {pre : List (List Lexeme)} (hpre : pre ≠ []) (post : List (List Lexeme)) :
    joined (pre ++ post) = joined pre ++ encodeAfter post := by
  cases pre with
  | nil => exact absurd rfl hpre
  | cons first others => simp [joined, encodeAfter]

/-- The code of a line is that of its statements, with colons between. -/
theorem body_eq_joined {l : TextLine} (hp : ∀ b ∈ l.text, isPrintable b = true) :
    l.line.body = joined l.pieces :=
  body_eq_code false hp

/-- How far into a line its statement with index `i` starts. -/
def placeInLine (pieces : List (List Lexeme)) : Nat → Nat
  | 0 => 0
  | i + 1 => 5 + (joined (pieces.take (i + 1))).length

/-- The offset in the image at which the statement at a position starts. -/
def place (lines : List TextLine) : Position → Nat
  | none => Program.extent (lines.map TextLine.line)
  | some (n, i) =>
    (Program.offsetFrom n 0 (lines.map TextLine.line)).getD 0 +
      placeInLine ((line? lines n).elim [] TextLine.pieces) i

section

variable {lines before after : List TextLine} {l : TextLine}

/-- A line and the lines around it. -/
theorem exists_append_of_line? {n : UInt16} (h : line? lines n = some l) :
    l.number = n ∧ ∃ before after, lines = before ++ l :: after := by
  obtain ⟨hn, before, after, hlines, -⟩ := List.find?_eq_some_iff_append.1 h
  exact ⟨by simpa using hn, before, after, hlines⟩

variable (hasc : Program.Ascending ((before ++ l :: after).map TextLine.line))

include hasc

theorem number_lt_of_mem_before {m : TextLine} (hm : m ∈ before) : m.number < l.number := by
  rw [List.map_append, List.map_cons] at hasc
  exact hasc.number_lt (List.mem_map_of_mem hm)

theorem number_lt_of_mem_after {m : TextLine} (hm : m ∈ after) : l.number < m.number := by
  rw [List.map_append, List.map_cons] at hasc
  exact hasc.lt_number (List.mem_map_of_mem hm)

theorem line?_eq : line? (before ++ l :: after) l.number = some l := by
  refine List.find?_eq_some_iff_append.2 ⟨by simp, before, after, rfl, fun m hm => ?_⟩
  simpa using UInt16.ne_of_lt (number_lt_of_mem_before hasc hm)

/-- The place of a statement: the lines before its own, then its place in the line. -/
theorem place_eq (i : Nat) :
    place (before ++ l :: after) (some (l.number, i)) =
      Program.extent (before.map TextLine.line) + placeInLine l.pieces i := by
  have hoffset : Program.offsetFrom l.number 0 ((before ++ l :: after).map TextLine.line) =
      some (0 + Program.extent (before.map TextLine.line)) := by
    rw [List.map_append, List.map_cons] at hasc ⊢
    exact hasc.offsetFrom_eq 0
  rw [place, hoffset, line?_eq hasc, Option.getD_some, Option.elim_some, Nat.zero_add]

/-- The statements of a line are found by its number. -/
theorem commandAt?_eq (i : Nat) : commandAt? (before ++ l :: after) l.number i = l.commands[i]? := by
  rw [commandAt?, line?_eq hasc, Option.bind_some]

/-- The next statement starts where the one before it ends, in the same line or in the one after it. -/
theorem place_next (hp : ∀ b ∈ l.text, isPrintable b = true) (i : Nat) :
    place (before ++ l :: after) (next (before ++ l :: after) l.number i) =
      Program.extent (before.map TextLine.line) + placeInLine l.pieces (i + 1) := by
  by_cases hlast : i + 1 < l.pieces.length
  · have hsome : i + 1 < l.commands.length := by simpa [TextLine.commands] using hlast
    rw [next, commandAt?_eq hasc, List.getElem?_eq_getElem hsome]
    exact place_eq hasc (i + 1)
  · have hnone : l.commands.length ≤ i + 1 := by simpa [TextLine.commands] using hlast
    have hsize : placeInLine l.pieces (i + 1) = l.line.size := by
      rw [placeInLine, List.take_of_length_le (Nat.not_lt.1 hlast), ← body_eq_joined hp, Line.size,
        Nat.add_comm]
    have hbefore : before.find? (fun m => l.number < m.number) = none := by
      refine List.find?_eq_none.2 fun m hm => ?_
      simpa using UInt16.le_of_lt (number_lt_of_mem_before hasc hm)
    have hfind : (before ++ l :: after).find? (fun m => l.number < m.number) = after.head? := by
      rw [List.find?_append, hbefore, Option.none_or, List.find?_cons_of_neg (by simp)]
      cases after with
      | nil => rfl
      | cons m rest =>
        exact List.find?_cons_of_pos (by simpa using number_lt_of_mem_after hasc List.mem_cons_self)
    rw [next, commandAt?_eq hasc, List.getElem?_eq_none hnone, hfind, hsize]
    cases after with
    | nil => simp [place]
    | cons m rest =>
      have hsplit : before ++ l :: m :: rest = (before ++ [l]) ++ m :: rest := by simp
      rw [hsplit] at hasc ⊢
      show place _ (some (m.number, 0)) = _
      rw [place_eq hasc]
      simp [placeInLine]

end

/-! ## One position for a place -/

theorem encodeAfter_ne_nil {post : List (List Lexeme)} (hpost : post ≠ []) : encodeAfter post ≠ [] := by
  cases post with
  | nil => exact absurd rfl hpost
  | cons piece others => simp [encodeAfter]

/-- The statements of a line stand one after the other. -/
theorem placeInLine_lt {pieces : List (List Lexeme)} {i j : Nat} (hij : i < j)
    (hi : i < pieces.length) : placeInLine pieces i < placeInLine pieces j := by
  obtain ⟨j, rfl⟩ : ∃ k, j = k + 1 := ⟨j - 1, by omega⟩
  cases i with
  | zero =>
    simp only [placeInLine]
    omega
  | succ i =>
    have hsplit : pieces.take (j + 1) = pieces.take (i + 1) ++ (pieces.take (j + 1)).drop (i + 1) := by
      have h := List.take_append_drop (i + 1) (pieces.take (j + 1))
      rwa [List.take_take, Nat.min_eq_left (Nat.le_of_lt hij), eq_comm] at h
    have hpre : pieces.take (i + 1) ≠ [] := by
      rw [ne_eq, List.take_eq_nil_iff]
      rintro (h | rfl)
      · omega
      · cases hi
    have hpost : (pieces.take (j + 1)).drop (i + 1) ≠ [] := by
      rw [ne_eq, List.drop_eq_nil_iff, List.length_take]
      omega
    have hlen := List.length_pos_iff.2 (encodeAfter_ne_nil hpost)
    simp only [placeInLine]
    rw [hsplit, joined_append hpre, List.length_append]
    omega

/-- The line of a position, and the lines around it. -/
theorem exists_append_of_isPosition {lines : List TextLine} {n : UInt16} {i : Nat}
    (h : IsPosition lines (some (n, i))) :
    ∃ before l after, lines = before ++ l :: after ∧ l.number = n ∧ i < l.pieces.length := by
  obtain ⟨c, hc⟩ := Option.isSome_iff_exists.1 h
  obtain ⟨l, hl, hi⟩ := Option.bind_eq_some_iff.1 hc
  obtain ⟨hn, before, after, hlines⟩ := exists_append_of_line? hl
  refine ⟨before, l, after, hlines, hn, ?_⟩
  have hlt := (List.getElem?_eq_some_iff.1 hi).1
  simpa [TextLine.commands] using hlt

section

variable {lines : List TextLine} (hasc : Program.Ascending (lines.map TextLine.line))
  (hprint : ∀ l ∈ lines, ∀ b ∈ l.text, isPrintable b = true)

include hasc hprint

/-- A statement stands in its line. -/
theorem place_lt_line_end {before after : List TextLine} {l : TextLine}
    (hlines : lines = before ++ l :: after) {i : Nat} (hi : i < l.pieces.length) :
    place lines (some (l.number, i)) <
      Program.extent (before.map TextLine.line) + l.line.size := by
  subst hlines
  have hsize : placeInLine l.pieces l.pieces.length = l.line.size := by
    obtain ⟨k, hk⟩ : ∃ k, l.pieces.length = k + 1 := ⟨(split l.text).2.length, rfl⟩
    rw [hk, placeInLine, ← hk, List.take_length, ← body_eq_joined (hprint l (by simp)), Line.size,
      Nat.add_comm]
  have hlt := placeInLine_lt hi hi
  rw [place_eq hasc]
  omega

/-- The statements of a line stand before those of later lines. -/
theorem place_lt_of_number_lt {n k : UInt16} {i j : Nat} (hn : IsPosition lines (some (n, i)))
    (hk : IsPosition lines (some (k, j))) (hlt : n < k) :
    place lines (some (n, i)) < place lines (some (k, j)) := by
  obtain ⟨before, l, after, hlines, rfl, -⟩ := exists_append_of_isPosition hk
  obtain ⟨before', l', after', hlines', rfl, hi⟩ := exists_append_of_isPosition hn
  have hmem : l' ∈ before := by
    have hl' : l' ∈ before ++ l :: after := by
      rw [← hlines, hlines']
      simp
    rw [hlines] at hasc
    rcases List.mem_append.1 hl' with h | h
    · exact h
    · rcases List.mem_cons.1 h with rfl | h
      · exact absurd hlt (UInt16.lt_irrefl _)
      · exact absurd hlt (UInt16.lt_asymm (number_lt_of_mem_after hasc h))
  obtain ⟨first, second, rfl⟩ := List.append_of_mem hmem
  have hfirst : lines = first ++ l' :: (second ++ l :: after) := by simp [hlines]
  have hend := place_lt_line_end hasc hprint hfirst hi
  rw [hlines] at hasc hend ⊢
  rw [place_eq hasc j]
  simp only [List.map_append, List.map_cons, Program.extent_append, Program.extent_cons]
  omega

omit hprint in
/-- The statements of one line stand in order. -/
theorem place_lt_of_index_lt {n : UInt16} {i j : Nat} (hn : IsPosition lines (some (n, i)))
    (hlt : i < j) : place lines (some (n, i)) < place lines (some (n, j)) := by
  obtain ⟨before, l, after, rfl, rfl, hi⟩ := exists_append_of_isPosition hn
  rw [place_eq hasc i, place_eq hasc j]
  exact Nat.add_lt_add_left (placeInLine_lt hlt hi) _

/-- No statement stands at the end. -/
theorem place_lt_place_none {n : UInt16} {i : Nat} (hn : IsPosition lines (some (n, i))) :
    place lines (some (n, i)) < place lines none := by
  obtain ⟨before, l, after, hlines, rfl, hi⟩ := exists_append_of_isPosition hn
  have hlt := place_lt_line_end hasc hprint hlines hi
  have hnone : place lines none = Program.extent (before.map TextLine.line) +
      (l.line.size + Program.extent (after.map TextLine.line)) := by
    rw [place, hlines]
    simp
  omega

/-- No two statements, and no statement and the end, stand at the same place. -/
theorem place_injective {p q : Position} (hp : IsPosition lines p) (hq : IsPosition lines q)
    (h : place lines p = place lines q) : p = q := by
  cases p with
  | none =>
    cases q with
    | none => rfl
    | some there => exact absurd h (Nat.ne_of_gt (place_lt_place_none hasc hprint hq))
  | some here =>
    obtain ⟨n, i⟩ := here
    cases q with
    | none => exact absurd h (Nat.ne_of_lt (place_lt_place_none hasc hprint hp))
    | some there =>
      obtain ⟨k, j⟩ := there
      by_cases hnk : n = k
      · subst hnk
        rcases Nat.lt_trichotomy i j with hlt | rfl | hlt
        · exact absurd h (Nat.ne_of_lt (place_lt_of_index_lt hasc hp hlt))
        · rfl
        · exact absurd h (Nat.ne_of_gt (place_lt_of_index_lt hasc hq hlt))
      · rcases UInt16.lt_or_lt_of_ne hnk with hlt | hlt
        · exact absurd h (Nat.ne_of_lt (place_lt_of_number_lt hasc hprint hp hq hlt))
        · exact absurd h (Nat.ne_of_gt (place_lt_of_number_lt hasc hprint hq hp hlt))

end

/-! ## What stands at a position -/

/-- The byte after a statement, if `post` are the statements after it in its line. -/
def stopBefore (post : List (List Lexeme)) : UInt8 :=
  if post = [] then endLine else colon

/-- The image from a line on: its marker, its statements, and the end of the line. -/
theorem drop_line {p : Program} {before after : List TextLine} {l : TextLine}
    (hlines : p.lines = (before ++ l :: after).map TextLine.line)
    (hp : ∀ b ∈ l.text, isPrintable b = true) :
    ∃ link more, 0 < link ∧ link < 65536 ∧
      p.image.drop (Program.extent (before.map TextLine.line)) =
        endLine :: (Endian.bytes 2 link ++ Endian.word l.number) ++
          (joined l.pieces ++ endLine :: more) := by
  have hfits := p.fits
  rw [p.linked, Program.length_render, hlines, List.map_append, List.map_cons,
    Program.extent_append, Program.extent_cons, Program.maxImageSize] at hfits
  obtain ⟨more, hmore⟩ := Program.render_eq_cons
    (Program.extent (before.map TextLine.line) + l.line.size) (after.map TextLine.line)
  refine ⟨Program.extent (before.map TextLine.line) + l.line.size + 1, more, by omega, by omega, ?_⟩
  rw [p.linked, hlines, List.map_append, List.map_cons, Program.drop_render, Nat.zero_add,
    Program.render_cons, Program.entry, body_eq_joined hp, hmore]
  simp [TextLine.line]

theorem head_encodeAfter (post : List (List Lexeme)) (more : List UInt8) :
    (encodeAfter post ++ endLine :: more).head? = some (stopBefore post) := by
  cases post <;> simp [encodeAfter, stopBefore]

theorem stopBefore_mem (post : List (List Lexeme)) : stopBefore post ∈ statementEnds := by
  unfold stopBefore
  split <;> decide

theorem SoundLine.sound {first : List Lexeme} {others : List (List Lexeme)} (h : SoundLine first others)
    {pre post : List (List Lexeme)} {piece : List Lexeme}
    (hpieces : first :: others = pre ++ piece :: post) : Sound (stopBefore post) piece := by
  induction pre generalizing first others with
  | nil =>
    obtain ⟨rfl, rfl⟩ := List.cons.inj hpieces
    cases others with
    | nil => exact h
    | cons second others => exact h.1
  | cons a pre ih =>
    obtain ⟨rfl, hothers⟩ := List.cons.inj hpieces
    cases others with
    | nil => simp at hothers
    | cons second others => exact ih h.2 hothers

/-- The image from a position on: what separates the statement from the one before it, its code, and the
image from the next position on. -/
structure IsChunk (lines : List TextLine) (image : List UInt8) (n : UInt16) (i : Nat)
    (lead : List UInt8) (piece : List Lexeme) (tail : List UInt8) : Prop where
  drop_eq : image.drop (place lines (some (n, i))) = lead ++ (encode false piece ++ tail)
  place_next : place lines (next lines n i) =
    place lines (some (n, i)) + lead.length + (encode false piece).length
  /-- The marker of a line before its first statement, a colon before the others. -/
  lead_eq :
    (∃ link, 0 < link ∧ link < 65536 ∧ lead = endLine :: (Endian.bytes 2 link ++ Endian.word n)) ∨
      lead = [colon]
  codes : Codes tail false (strip piece) (encode false piece ++ tail)
  stops : Stops tail

/-- At every position stands the code of its statement. -/
theorem exists_chunk {lines : List TextLine} {p : Program}
    (hlines : p.lines = lines.map TextLine.line)
    (hprint : ∀ l ∈ lines, ∀ b ∈ l.text, isPrintable b = true) {n : UInt16} {i : Nat} {c : Command}
    (hat : commandAt? lines n i = some c) :
    ∃ lead piece tail, command (strip piece) = c ∧ IsChunk lines p.image n i lead piece tail := by
  obtain ⟨l, hl, hc⟩ := Option.bind_eq_some_iff.1 hat
  obtain ⟨rfl, before, after, rfl⟩ := exists_append_of_line? hl
  have hasc : Program.Ascending ((before ++ l :: after).map TextLine.line) := hlines ▸ p.ascending
  -- The statements of the line before and after this one.
  obtain ⟨piece, hpiece, rfl⟩ : ∃ piece, l.pieces[i]? = some piece ∧ command (strip piece) = c := by
    simpa [TextLine.commands] using hc
  obtain ⟨hi, hget⟩ := List.getElem?_eq_some_iff.1 hpiece
  have hpieces : l.pieces = l.pieces.take i ++ piece :: l.pieces.drop (i + 1) := by
    rw [← hget, List.getElem_cons_drop, List.take_append_drop]
  have hprintl := hprint l (by simp)
  obtain ⟨link, more, hpos, hmax, hdrop⟩ := drop_line hlines hprintl
  have hsound := (soundLine_split hprintl).sound hpieces
  have hhead := head_encodeAfter (l.pieces.drop (i + 1)) more
  have hmem := stopBefore_mem (l.pieces.drop (i + 1))
  have hnext := place_next hasc hprintl i
  have hplace := place_eq hasc i
  have htail : Stops (encodeAfter (l.pieces.drop (i + 1)) ++ endLine :: more) := ⟨_, hmem, hhead⟩
  have hcodes := codes_encode (e := false) hsound hhead hmem
  cases i with
  | zero =>
    refine ⟨endLine :: (Endian.bytes 2 link ++ Endian.word l.number), piece, _, rfl, ?_, ?_,
      .inl ⟨link, hpos, hmax, rfl⟩, hcodes, htail⟩
    · rw [hplace, placeInLine, Nat.add_zero, hdrop, hpieces]
      simp [joined]
    · have htake : l.pieces.take 1 = [piece] := by
        rw [hpieces]
        rfl
      rw [hplace, hnext]
      simp only [placeInLine, Nat.zero_add, htake]
      simp [joined, encodeAfter]
      omega
  | succ j =>
    have hpre : l.pieces.take (j + 1) ≠ [] := by simp [TextLine.pieces]
    have htake : l.pieces.take (j + 1 + 1) = l.pieces.take (j + 1) ++ [piece] := by
      rw [List.take_add_one, hpiece]
      rfl
    refine ⟨[colon], piece, _, rfl, ?_, ?_, .inr rfl, hcodes, htail⟩
    · have hjoined : joined l.pieces = joined (l.pieces.take (j + 1)) ++
          (colon :: encode false piece ++ encodeAfter (l.pieces.drop (j + 1 + 1))) := by
        refine (congrArg joined hpieces).trans ((joined_append hpre _).trans ?_)
        simp [encodeAfter]
      rw [hplace, placeInLine, ← List.drop_drop, hdrop, hjoined]
      have hlen : (endLine :: (Endian.bytes 2 link ++ Endian.word l.number)).length = 5 := by simp
      rw [← hlen, List.drop_length_add_append, List.append_assoc, List.drop_left]
      simp
    · rw [hplace, hnext, placeInLine, placeInLine, htake, joined_append hpre]
      simp [encodeAfter]
      omega

/-! ## Positions of a program -/

theorem isPosition_of_line? {lines : List TextLine} {n : UInt16} (h : (line? lines n).isSome) :
    IsPosition lines (some (n, 0)) := by
  obtain ⟨l, hl⟩ := Option.isSome_iff_exists.1 h
  simp [IsPosition, commandAt?, hl, TextLine.commands, TextLine.pieces]

/-- What comes after a statement is a statement, or the end. -/
theorem isPosition_next (lines : List TextLine) (n : UInt16) (i : Nat) :
    IsPosition lines (next lines n i) := by
  unfold next
  split
  · assumption
  · cases hfind : lines.find? (fun l => n < l.number) with
    | none => trivial
    | some l =>
      apply isPosition_of_line?
      rw [line?, List.find?_isSome]
      exact ⟨l, List.mem_of_find?_eq_some hfind, by simp⟩

section

variable {lines : List TextLine} {p : Program} (hlines : p.lines = lines.map TextLine.line)

include hlines

/-- A line of the program is found where its first statement stands. -/
theorem offsetOf?_eq (n : UInt16) :
    p.offsetOf? n = if (line? lines n).isSome then some (place lines (some (n, 0))) else none := by
  have hnone : p.offsetOf? n = none ↔ ¬ (line? lines n).isSome := by
    rw [Program.offsetOf?, hlines, Program.offsetFrom_eq_none_iff]
    simp [line?, TextLine.line]
  split
  · rename_i h
    obtain ⟨offset, hoffset⟩ := Option.ne_none_iff_exists'.1 (mt hnone.1 (not_not_intro h))
    rw [Program.offsetOf?, hlines] at hoffset
    rw [Program.offsetOf?, hlines, place, hoffset]
    rfl
  · exact hnone.2 ‹_›

theorem contains_eq (n : UInt16) : p.contains n = (line? lines n).isSome := by
  rw [Program.contains, Program.find?, hlines, line?, List.find?_map, Option.isSome_map]
  rfl

/-- The image from the end of the last line on. -/
theorem drop_place_none : p.image.drop (place lines none) = [0, 0, 0] := by
  have h := Program.drop_render 0 (lines.map TextLine.line) []
  rw [List.append_nil] at h
  rw [p.linked, hlines]
  exact h

/-- Every statement has its place in the image. -/
theorem place_le_length (hprint : ∀ l ∈ lines, ∀ b ∈ l.text, isPrintable b = true) {pos : Position}
    (h : IsPosition lines pos) : place lines pos ≤ p.image.length := by
  cases pos with
  | none =>
    rw [p.linked, Program.length_render, hlines, place]
    omega
  | some here =>
    obtain ⟨c, hc⟩ := Option.isSome_iff_exists.1 h
    obtain ⟨lead, piece, tail, -, hchunk⟩ := exists_chunk hlines hprint hc
    rcases Nat.le_or_ge (place lines (some here)) p.image.length with hle | hge
    · exact hle
    · have hnil := hchunk.drop_eq
      rw [List.drop_eq_nil_of_le hge] at hnil
      rcases hchunk.lead_eq with ⟨link, -, -, rfl⟩ | rfl <;> cases hnil

end

theorem place_start (lines : List TextLine) : place lines (start lines) = 0 := by
  cases lines with
  | nil => rfl
  | cons l rest => simp [start, place, Program.offsetFrom, TextLine.line, placeInLine]

theorem isPosition_start (lines : List TextLine) : IsPosition lines (start lines) := by
  cases lines with
  | nil => trivial
  | cons l rest => exact isPosition_of_line? (by simp [line?])

end LineBasic.Source

import LineBasic.Program.Text
import LineBasic.Proofs.Code.Lexical
import LineBasic.Proofs.Code.Scanner
import LineBasic.Proofs.Program.Image
import LineBasic.Proofs.Text.Bytes

/-!
# Loading a program

What is left of a program's text once it is loaded: of the lines with one number, the last, as crunched
code.

* `numberedText?`: the number and the text of a line.
* `enterLine`: the lines of a program after one more line of text.
* `lines_of_load`: the lines of a loaded program.
-/

namespace LineBasic

open Token

theorem Endian.ofPair_word (n : UInt16) : ∃ lo hi, word n = [lo, hi] ∧ ofPair lo hi = n := by
  refine ⟨_, _, word_eq n, ?_⟩
  have h : value (word n) = n.toNat := by
    rw [word, value_bytes]
    exact Nat.mod_eq_of_lt n.toNat_lt
  show UInt16.ofNat (value (word n)) = n
  rw [h, UInt16.ofNat_toNat]

namespace Program

/-- The number at the start of a line of text, after blanks, and the text that follows it. -/
def numberedText? (bytes : List UInt8) : Option (UInt16 × List UInt8) :=
  Crunch.lineNumber? ((Crunch.trimEnd bytes).dropWhile fun b => b = space || b = tab)

/-- Lines with the line of a text entered: one without code deletes the line with its number, and a text
without a number changes nothing. -/
def enterLine (lines : List Line) (bytes : List UInt8) : List Line :=
  match numberedText? bytes with
  | none => lines
  | some (n, text) =>
    if (Crunch.body false text).all isBlank then lines.filter fun l => l.number ≠ n
    else insertLine ⟨n, Crunch.body false text⟩ lines

/-- No link is zero. -/
theorem link_ne_zero {link : Nat} (hlink : 0 < link) (hmax : link < 65536) :
    ¬ (UInt8.ofNat link = 0 ∧ UInt8.ofNat (link / 256) = 0) := by
  rintro ⟨ha, hb⟩
  have ha := congrArg UInt8.toNat ha
  have hb := congrArg UInt8.toNat hb
  rw [UInt8.toNat_ofNat'] at ha hb
  have : (0 : UInt8).toNat = 0 := rfl
  omega

/-- The marker of a line gives its number. -/
theorem lineMarker_link {link : Nat} (n : UInt16) (code : List UInt8) (hlink : 0 < link)
    (hmax : link < 65536) :
    Scan.lineMarker (Endian.bytes 2 link ++ Endian.word n ++ code) = (some n, code) := by
  obtain ⟨lo, hi, hw, hn⟩ := Endian.ofPair_word n
  rw [hw]
  show (if UInt8.ofNat link = 0 ∧ UInt8.ofNat (link / 256) = 0 then _ else _) = _
  rw [if_neg (link_ne_zero hlink hmax), hn]
  rfl

/-! ## The code of a line -/

theorem bytes_eq_of_numberedText? {bytes text : List UInt8} {n : UInt16}
    (h : numberedText? bytes = some (n, text)) :
    ∃ lo hi, Endian.ofPair lo hi = n ∧
      Crunch.bytes bytes =
        endLine :: 0xC0 :: 0xDE :: lo :: hi :: (Crunch.body false text ++ [endLine]) := by
  obtain ⟨lo, hi, hw, hn⟩ := Endian.ofPair_word n
  refine ⟨lo, hi, hn, ?_⟩
  unfold numberedText? at h
  unfold Crunch.bytes
  simp only [h, hw]
  rfl

/-- A numbered line that is accepted: its number, and whether its body is empty. -/
theorem numbered_eq_ok {lo hi : UInt8} {code rest : List UInt8} {isEmpty : Bool} {number : UInt16}
    (h : numbered (0xC0 :: 0xDE :: lo :: hi :: code) = .ok (isEmpty, number) rest) :
    number = Endian.ofPair lo hi ∧ number ≤ maxLineNumber ∧
      isEmpty = ((code.dropWhile isBlank).head?.getD endLine == endLine) := by
  have hmarker : Scan.lineMarker (0xC0 :: 0xDE :: lo :: hi :: code) =
      (some (Endian.ofPair lo hi), code) := rfl
  simp only [numbered, Effect.bind_apply, Scan.lineMarker?_apply, hmarker] at h
  by_cases hmax : maxLineNumber < Endian.ofPair lo hi
  · simp [hmax] at h
  · have hle := UInt16.not_lt.1 hmax
    simp only [hmax, if_false, Effect.bind_apply, Scan.readNext?_apply] at h
    cases hb : (code.dropWhile isBlank).head? with
    | none =>
      rw [hb] at h
      cases h
      exact ⟨rfl, hle, rfl⟩
    | some b =>
      rw [hb] at h
      by_cases hnumber : isNumber b = true
      · simp [hnumber] at h
      · simp only [hnumber] at h
        cases h
        exact ⟨rfl, hle, rfl⟩

theorem checkNumbered_eq_ok {lo hi : UInt8} {code : List UInt8} {isEmpty : Bool} {number : UInt16}
    {s : CodeStream}
    (h : checkNumbered { bytes := endLine :: 0xC0 :: 0xDE :: lo :: hi :: code } =
      .ok (isEmpty, number) s) :
    number = Endian.ofPair lo hi ∧ number ≤ maxLineNumber ∧
      isEmpty = ((code.dropWhile isBlank).head?.getD endLine == endLine) := by
  unfold checkNumbered at h
  simp only [Effect.bind_apply, Effect.modify_apply, CodeStream.scan, CodeStream.seek,
    CodeStream.rest] at h
  split at h
  · rename_i hn
    cases h
    exact numbered_eq_ok hn
  · cases h

/-- The first byte of a line that is not blank is its end only if all the others are. -/
theorem head_dropWhile_isBlank {P : UInt8 → Prop} {code : List UInt8} (hcode : Code.LexicalIn P code) :
    ((code ++ [endLine]).dropWhile isBlank).head?.getD endLine = endLine ↔
      code.all isBlank = true := by
  have hend : isBlank endLine = false := by decide
  cases hrest : code.dropWhile isBlank with
  | nil =>
    have hall := List.dropWhile_eq_nil_iff.1 hrest
    rw [List.dropWhile_append_of_pos hall]
    simp [hend, List.all_eq_true.2 hall]
  | cons b rest =>
    have hb : b ≠ endLine := Code.LexicalIn.head_ne_endLine (hrest ▸ hcode.dropWhile_isBlank)
    have hall : code.all isBlank ≠ true := fun h => by
      rw [List.dropWhile_eq_nil_iff.2 (List.all_eq_true.1 h)] at hrest
      cases hrest
    simp [List.dropWhile_append, hrest, hb, hall]

/-! ## The text of a line -/

theorem mem_of_mem_dropWhile_trimEnd {bytes : List UInt8} {p : UInt8 → Bool} {b : UInt8}
    (h : b ∈ (Crunch.trimEnd bytes).dropWhile p) : b ∈ bytes := by
  have h₁ := (List.dropWhile_sublist p).subset h
  rw [Crunch.trimEnd, List.mem_reverse] at h₁
  exact List.mem_reverse.1 ((List.dropWhile_sublist _).subset h₁)

theorem mem_of_numberedText? {bytes text : List UInt8} {n : UInt16}
    (h : numberedText? bytes = some (n, text)) {b : UInt8} (hb : b ∈ text) : b ∈ bytes := by
  unfold numberedText? Crunch.lineNumber? at h
  simp only at h
  split at h
  · cases h
  · cases h
    apply mem_of_mem_dropWhile_trimEnd
    exact (List.dropWhile_sublist _).subset ((List.dropWhile_sublist _).subset hb)

theorem numberedText?_of_isBlank {line : String} (h : Text.isBlank line = true) :
    numberedText? (Text.utf8 line) = none := by
  have hdigits : ((Crunch.trimEnd (Text.utf8 line)).dropWhile
      fun b => b = space || b = tab).takeWhile isDigit = [] := by
    rw [List.takeWhile_eq_nil_iff]
    intro hlen
    simp [Text.not_isDigit_of_isBlank h _ (mem_of_mem_dropWhile_trimEnd (List.getElem_mem hlen))]
  unfold numberedText? Crunch.lineNumber?
  simp [hdigits]

theorem bytes_eq_of_numberedText?_eq_none {bytes : List UInt8} (h : numberedText? bytes = none) :
    ∃ text, (∀ b ∈ text, b ∈ bytes) ∧ Crunch.bytes bytes = Crunch.body false text ++ [endLine] := by
  refine ⟨(Crunch.trimEnd bytes).dropWhile fun b => b = space || b = tab,
    fun b => mem_of_mem_dropWhile_trimEnd, ?_⟩
  unfold numberedText? at h
  unfold Crunch.bytes
  simp only [h]

/-! ## Entering a line -/

theorem lines_of_ofLines {lines : List Line} {h : Ascending lines} {q : Program}
    (hq : ofLines lines h = .ok q) : q.lines = lines ∧ q.pos = 0 := by
  unfold ofLines at hq
  simp only at hq
  split at hq
  · cases hq
    exact ⟨rfl, rfl⟩
  · cases hq

/-- A line without a number is not accepted. -/
theorem enter_of_numberedText?_eq_none (p : Program) {bytes : List UInt8} (hnul : endLine ∉ bytes)
    (h : numberedText? bytes = none) (q : Program) : p.enter (Crunch.bytes bytes) ≠ .ok q := by
  obtain ⟨text, hmem, hbytes⟩ := bytes_eq_of_numberedText?_eq_none h
  have hcode := Crunch.lexical_body false fun h => hnul (hmem _ h)
  rw [hbytes]
  cases hb : Crunch.body false text with
  | nil =>
    have hcheck : ∃ e s, checkNumbered { bytes := [endLine] } = .error e s := ⟨_, _, rfl⟩
    obtain ⟨e, s, hcheck⟩ := hcheck
    simp [enter, hcheck]
  | cons b rest =>
    rw [hb] at hcode
    simp [enter, hcode.head_ne_endLine]

/-- A line with a number that is accepted is stored, or deleted if it has no code. -/
theorem lines_of_enter {p q : Program} {bytes text : List UInt8} {n : UInt16}
    (hnul : endLine ∉ bytes) (hnumber : numberedText? bytes = some (n, text))
    (h : p.enter (Crunch.bytes bytes) = .ok q) :
    q.lines = enterLine p.lines bytes ∧ (p.pos = 0 → q.pos = 0) := by
  obtain ⟨lo, hi, hn, hbytes⟩ := bytes_eq_of_numberedText? hnumber
  have hcode := Crunch.lexical_body false fun h => hnul (mem_of_numberedText? hnumber h)
  rw [hbytes] at h
  unfold enter at h
  simp only [List.head?_cons, if_true] at h
  split at h
  · cases h
  · rename_i isEmpty number s hcheck
    obtain ⟨hnum, -, hempty⟩ := checkNumbered_eq_ok hcheck
    have hblank := head_dropWhile_isBlank hcode
    rw [hn] at hnum
    subst hnum
    rw [enterLine, hnumber]
    cases isEmpty with
    | false =>
      have hfull : (Crunch.body false text).all isBlank ≠ true := fun hb => by
        rw [hblank.2 hb] at hempty
        cases hempty
      simp only [hfull]
      obtain ⟨hlines, hpos⟩ := lines_of_ofLines (by simpa [store, hn] using h)
      exact ⟨hlines, fun _ => hpos⟩
    | true =>
      have hall : (Crunch.body false text).all isBlank = true := hblank.1 (eq_of_beq hempty.symm)
      simp only [hall, if_true]
      by_cases hc : p.contains number = true
      · simp only [Bool.not_true, Bool.false_eq_true, if_false, hc, if_true, delete, keep] at h
        obtain ⟨hlines, hpos⟩ := lines_of_ofLines h
        exact ⟨hlines, fun _ => hpos⟩
      · simp only [Bool.not_true, Bool.false_eq_true, if_false, hc] at h
        cases h
        refine ⟨(List.filter_eq_self.2 fun l hl => ?_).symm, id⟩
        simp only [contains, find?, List.find?_isSome, not_exists, not_and] at hc
        simpa using hc l hl

/-- A line of text that is accepted enters its line. -/
theorem lines_of_loadLine {p q : Program} {bytes : List UInt8} (hnul : endLine ∉ bytes)
    (h : loadLine p bytes = .ok q) :
    q.lines = enterLine p.lines bytes ∧ (p.pos = 0 → q.pos = 0) := by
  unfold loadLine at h
  split at h
  · cases h
  · rename_i line hline
    have hbytes : Text.utf8 line = bytes := Text.ofUtf8?_eq_some_iff.1 hline
    split at h
    · rename_i hblank
      cases h
      rw [enterLine, ← hbytes, numberedText?_of_isBlank hblank]
      exact ⟨rfl, id⟩
    · rw [Crunch.line, hbytes] at h
      cases hnumber : numberedText? bytes with
      | none => exact absurd h (enter_of_numberedText?_eq_none p hnul hnumber q)
      | some found => exact lines_of_enter hnul hnumber h

/-- Lines of text that are all accepted are entered one by one. -/
theorem lines_of_foldlM {texts : List (List UInt8)} {p q : Program}
    (hnul : ∀ bytes ∈ texts, endLine ∉ bytes) (h : texts.foldlM loadLine p = .ok q) :
    q.lines = texts.foldl enterLine p.lines ∧ (p.pos = 0 → q.pos = 0) := by
  induction texts generalizing p with
  | nil =>
    cases h
    exact ⟨rfl, id⟩
  | cons bytes texts ih =>
    rw [List.foldlM_cons] at h
    cases hline : loadLine p bytes with
    | error e =>
      rw [hline] at h
      cases h
    | ok r =>
      rw [hline] at h
      obtain ⟨hlines, hpos⟩ := lines_of_loadLine (hnul bytes List.mem_cons_self) hline
      obtain ⟨hlines', hpos'⟩ := ih (fun b hb => hnul b (List.mem_cons_of_mem _ hb)) h
      rw [List.foldl_cons, ← hlines]
      exact ⟨hlines', fun h => hpos' (hpos h)⟩

/-- Loading text enters the code of its lines one by one. -/
theorem load_eq_foldlM {bytes : List UInt8} {texts : List String}
    (hlines : Text.fileLines bytes = texts.map Text.utf8) (hblank : texts.any Text.isBlank = false) :
    load bytes = (texts.map Crunch.line).foldlM enter empty := by
  rw [load, hlines]
  generalize empty = p
  clear hlines
  induction texts generalizing p with
  | nil => rfl
  | cons line texts ih =>
    simp only [List.any_cons, Bool.or_eq_false_iff] at hblank
    have hline : loadLine p (Text.utf8 line) = p.enter (Crunch.line line) := by
      simp [loadLine, Text.ofUtf8?_eq_some_iff.2 rfl, hblank.1]
    simp only [List.map_cons, List.foldlM_cons, hline]
    exact bind_congr fun q => ih hblank.2 q

/-- The lines of a loaded program. -/
theorem lines_of_load {bytes : List UInt8} {p : Program} (hnul : endLine ∉ bytes)
    (h : load bytes = .ok p) :
    p.lines = (Text.fileLines bytes).foldl enterLine [] ∧ p.pos = 0 := by
  obtain ⟨hlines, hpos⟩ :=
    lines_of_foldlM (fun line hl hb => hnul (Text.mem_of_mem_fileLines hl hb)) h
  exact ⟨hlines, hpos rfl⟩

/-- Every line of a loaded program is the code of some text. -/
theorem exists_text_of_mem_foldl {texts : List (List UInt8)} {lines : List Line} {l : Line}
    (h : l ∈ texts.foldl enterLine lines) :
    l ∈ lines ∨ ∃ bytes ∈ texts, ∃ text, numberedText? bytes = some (l.number, text) ∧
      l.body = Crunch.body false text := by
  induction texts generalizing lines with
  | nil => exact .inl h
  | cons bytes texts ih =>
    rcases ih h with h | ⟨b, hb, text, hn, ht⟩
    · unfold enterLine at h
      split at h
      · exact .inl h
      · rename_i n text hn
        split at h
        · exact .inl ((List.mem_filter.1 h).1)
        · rcases mem_insertLine h with rfl | h
          · exact .inr ⟨bytes, List.mem_cons_self, text, hn, rfl⟩
          · exact .inl h
    · exact .inr ⟨b, List.mem_cons_of_mem _ hb, text, hn, ht⟩

/-- The lines of a loaded program are made of whole lexemes, and their literals and comments hold bytes of
the text. -/
theorem lexicalIn_of_load {P : UInt8 → Prop} {bytes : List UInt8} {p : Program}
    (h : load bytes = .ok p) (hnul : ∀ line ∈ Text.fileLines bytes, endLine ∉ line)
    (hP : ∀ line ∈ Text.fileLines bytes, ∀ b ∈ line, P b) {l : Line} (hl : l ∈ p.lines) :
    Code.LexicalIn P l.body := by
  rw [(lines_of_foldlM hnul h).1] at hl
  rcases exists_text_of_mem_foldl hl with hl | ⟨line, hline, text, hn, hbody⟩
  · cases hl
  · rw [hbody]
    exact Crunch.lexicalIn_body false fun b hb => hP line hline b (mem_of_numberedText? hn hb)

/-- The lines of a program that was loaded are made of whole lexemes. -/
theorem lexical_of_load {bytes : List UInt8} {p : Program} (hnul : endLine ∉ bytes)
    (h : load bytes = .ok p) {l : Line} (hl : l ∈ p.lines) : Code.Lexical l.body := by
  have hlines : ∀ line ∈ Text.fileLines bytes, endLine ∉ line := fun line hline hb =>
    hnul (Text.mem_of_mem_fileLines hline hb)
  exact lexicalIn_of_load h hlines (fun line hline b hb => ne_of_mem_of_not_mem hb (hlines line hline)) hl

end Program

end LineBasic

import Mathlib
import LineBasic.Proofs.Program.Entry
import LineBasic.Proofs.Snapshot.Session
import LineBasic.Proofs.Source.Layout
import LineBasic.Proofs.Source.Listing

/-!
# A listing is loaded as its program

The listing of a program is again the text of a program.  Its lines are respelled, which keeps their
code, and they come in ascending order, so that each is stored after the ones before it.

* `Enterable`: a line that is accepted when its code is entered.
* `line_text`: the listed text of a line is crunched to the line.
* `foldlM_enter`: entering the lines of a program in order gives the program.
* `load_listing`: loading the listing of a program that is loaded from listable text gives the program.
-/

namespace LineBasic

open Token Code

namespace Source

/-- A respelled text starts with a space only if the text does. -/
theorem head_respell {expectsLine : Bool} {src : List UInt8} (htyped : ∀ b ∈ src, isTyped b = true)
    (h : isListable expectsLine src = true) (hsrc : src.head? ≠ some space) :
    (respell src).head? ≠ some space := by
  rw [respell.eq_def]
  split
  · exact hsrc
  · rename_i c rest
    split
    · exact hsrc
    · rename_i hc
      split
      · rename_i hremark
        rw [Bool.and_eq_true] at hremark
        obtain ⟨-, t, ht⟩ := exists_of_opensRemark hremark.2
        rw [ht, List.head?_cons]
        decide
      · -- A space would be read back as a blank, and only a space is.
        have hrest := alike_respell (typed_lexeme_rest hc htyped) (isListable_cons hc h).2.2
        obtain ⟨d, tail, hspell, -, -, hd⟩ := (cuts_of_isListable hc htyped h).starts hrest
        rw [hspell, List.head?_cons]
        intro hspace
        obtain rfl := Option.some.inj hspace
        have hblank : Lexeme.blank = (lexeme c rest).1.normal := congrArg Prod.fst hd
        refine lexeme_ne_blank (c := c) (fun hc => hsrc (by rw [hc, List.head?_cons])) rest ?_
        cases hl : (lexeme c rest).1 with
        | blank => rfl
        | _ => rw [hl] at hblank; cases hblank

end Source

namespace Program

/-! ## Entering a line -/

/-- The code in which a line is entered. -/
def lineCode (l : Line) : List UInt8 :=
  endLine :: Crunch.unlinked ++ Endian.word l.number ++ l.body ++ [endLine]

theorem bytes_eq_lineCode {bytes text : List UInt8} {n : UInt16}
    (h : numberedText? bytes = some (n, text)) :
    Crunch.bytes bytes = lineCode ⟨n, Crunch.body false text⟩ := by
  unfold numberedText? at h
  unfold Crunch.bytes
  simp only [h]
  rfl

/-- A line that is accepted when its code is entered. -/
def Enterable (l : Line) : Prop :=
  ∃ s, checkNumbered { bytes := lineCode l } = .ok (false, l.number) s

theorem enter_lineCode (p : Program) {l : Line} (h : Enterable l) :
    p.enter (lineCode l) = ofLines (insertLine l p.lines) (ascending_insertLine p.ascending) := by
  obtain ⟨s, hs⟩ := h
  obtain ⟨lo, hi, hw, hn⟩ := Endian.ofPair_word l.number
  have hcode : lineCode l = endLine :: 0xC0 :: 0xDE :: lo :: hi :: (l.body ++ [endLine]) := by
    simp [lineCode, Crunch.unlinked, hw]
  rw [hcode] at hs ⊢
  simp [enter, hs, store, hn]

/-- A line with code that has been entered is enterable. -/
theorem enterable_of_enter {p q : Program} {bytes text : List UInt8} {n : UInt16}
    (hnul : endLine ∉ bytes) (hnumber : numberedText? bytes = some (n, text))
    (hfull : (Crunch.body false text).all isBlank ≠ true) (h : p.enter (Crunch.bytes bytes) = .ok q) :
    Enterable ⟨n, Crunch.body false text⟩ := by
  obtain ⟨lo, hi, hn, hbytes⟩ := bytes_eq_of_numberedText? hnumber
  have hcode := Crunch.lexical_body false fun h => hnul (mem_of_numberedText? hnumber h)
  unfold enter at h
  split at h
  · split at h
    · cases h
    · rename_i isEmpty number s hcheck
      have hcheck' := hcheck
      rw [hbytes] at hcheck'
      obtain ⟨rfl, -, rfl⟩ := checkNumbered_eq_ok hcheck'
      have hempty : (((Crunch.body false text ++ [endLine]).dropWhile isBlank).head?.getD endLine ==
          endLine) = false := by
        rw [beq_eq_false_iff_ne]
        exact fun he => hfull ((head_dropWhile_isBlank hcode).1 he)
      rw [hempty, hn, bytes_eq_lineCode hnumber] at hcheck
      exact ⟨s, hcheck⟩
  · cases h

theorem enter_of_loadLine {p q : Program} {bytes text : List UInt8} {n : UInt16}
    (hnumber : numberedText? bytes = some (n, text)) (h : loadLine p bytes = .ok q) :
    p.enter (Crunch.bytes bytes) = .ok q := by
  unfold loadLine at h
  split at h
  · cases h
  · rename_i line hline
    have hbytes : Text.utf8 line = bytes := Text.ofUtf8?_eq_some_iff.1 hline
    split at h
    · rename_i hblank
      rw [← hbytes, numberedText?_of_isBlank hblank] at hnumber
      cases hnumber
    · rwa [Crunch.line, hbytes] at h

theorem enterable_of_loadLine {p q : Program} {bytes : List UInt8} (hnul : endLine ∉ bytes)
    (h : loadLine p bytes = .ok q) (hp : ∀ l ∈ p.lines, Enterable l) :
    ∀ l ∈ q.lines, Enterable l := by
  intro l hl
  rw [(lines_of_loadLine hnul h).1] at hl
  unfold enterLine at hl
  split at hl
  · exact hp l hl
  · rename_i n text hnumber
    split at hl
    · exact hp l (List.mem_filter.1 hl).1
    · rename_i hfull
      rcases mem_insertLine hl with rfl | hl
      · exact enterable_of_enter hnul hnumber hfull (enter_of_loadLine hnumber h)
      · exact hp l hl

/-- The lines of a loaded program are enterable. -/
theorem enterable_of_foldlM {texts : List (List UInt8)} {p q : Program}
    (hnul : ∀ bytes ∈ texts, endLine ∉ bytes) (h : texts.foldlM loadLine p = .ok q)
    (hp : ∀ l ∈ p.lines, Enterable l) : ∀ l ∈ q.lines, Enterable l := by
  induction texts generalizing p with
  | nil =>
    cases h
    exact hp
  | cons bytes texts ih =>
    rw [List.foldlM_cons] at h
    cases hline : loadLine p bytes with
    | error e =>
      rw [hline] at h
      cases h
    | ok r =>
      rw [hline] at h
      have hr := enterable_of_loadLine (hnul bytes List.mem_cons_self) hline hp
      exact ih (fun b hb => hnul b (List.mem_cons_of_mem _ hb)) h hr

/-! ## Entering lines in order -/

theorem insertLine_of_lt {l : Line} {lines : List Line} (h : ∀ m ∈ lines, m.number < l.number) :
    insertLine l lines = lines ++ [l] := by
  induction lines with
  | nil => rfl
  | cons a rest ih =>
    have ha := h a List.mem_cons_self
    rw [insertLine, if_neg (UInt16.lt_asymm ha), if_neg (UInt16.ne_of_lt ha).symm,
      ih fun m hm => h m (List.mem_cons_of_mem _ hm), List.cons_append]

/-- Entering lines in ascending order adds them one after the other, if all of them fit. -/
theorem foldlM_enter {p q : Program} {lines : List Line} (hlines : ∀ l ∈ lines, Enterable l)
    (hq : q.lines = p.lines ++ lines) (hp : p.pos = 0) (hpos : q.pos = 0) :
    (lines.map lineCode).foldlM enter p = .ok q := by
  induction lines generalizing p with
  | nil =>
    rw [List.append_nil] at hq
    exact congrArg _ (eq_of_lines hq.symm (hp.trans hpos.symm))
  | cons l rest ih =>
    have hascending : Ascending (p.lines ++ l :: rest) := hq ▸ q.ascending
    have hinsert : insertLine l p.lines = p.lines ++ [l] :=
      insertLine_of_lt fun m hm => hascending.number_lt hm
    have hfits : (render 0 (insertLine l p.lines)).length ≤ maxImageSize := by
      have hq' := q.fits
      rw [q.linked, hq, length_render] at hq'
      rw [hinsert, length_render]
      simp only [extent_append, extent_cons, extent_nil] at hq' ⊢
      omega
    rw [List.map_cons, List.foldlM_cons, enter_lineCode p (hlines l List.mem_cons_self),
      ofLines_of_fits _ hfits]
    refine ih (fun m hm => hlines m (List.mem_cons_of_mem _ hm)) ?_ rfl
    show q.lines = insertLine l p.lines ++ rest
    rw [hq, hinsert, List.append_assoc, List.singleton_append]

/-! ## The listed text of a line -/

theorem trimEnd_of_typed {t : List UInt8} (ht : ∀ b ∈ t, isTyped b = true) : Crunch.trimEnd t = t := by
  have hend : ∀ b, isTyped b = true → (b = carriageReturn || b = newline) = false := by
    grind [isTyped, tab, carriageReturn, newline]
  have hdrop : t.reverse.dropWhile (fun b => b = carriageReturn || b = newline) = t.reverse := by
    rw [List.dropWhile_eq_self_iff]
    intro hl
    rw [hend _ (ht _ (List.mem_reverse.1 (List.getElem_mem hl)))]
    decide
  rw [Crunch.trimEnd, hdrop, List.reverse_reverse]

theorem typed_listed (n : Nat) {t : List UInt8} (ht : ∀ b ∈ t, isTyped b = true) :
    ∀ b ∈ Source.decimal n ++ space :: t, isTyped b = true := by
  intro b hb
  rcases List.mem_append.1 hb with hb | hb
  · exact (Source.digit_spec (Source.isDigit_of_mem_decimal hb)).1
  · rcases List.mem_cons.1 hb with rfl | hb
    · decide
    · exact ht b hb

/-- A number, a space and a text are read back. -/
theorem numberedText?_listed {n : UInt16} {t : List UInt8} (ht : ∀ b ∈ t, isTyped b = true)
    (hhead : t.head? ≠ some space) :
    numberedText? (Source.decimal n.toNat ++ space :: t) = some (n, t) := by
  have hdrop : t.dropWhile (· = space) = t := by
    cases t with
    | nil => rfl
    | cons b t => rw [List.dropWhile_cons_of_neg (by simpa using hhead)]
  rw [numberedText?_typed, trimEnd_of_typed ht, hdrop]

/-- A line whose code is that of a listable text. -/
def Listable (l : Line) : Prop :=
  ∃ text, (∀ b ∈ text, isTyped b = true) ∧ text.head? ≠ some space ∧
    Source.isListable false text = true ∧ l.body = Crunch.body false text

/-- The listed text of a line is its number and its respelled text. -/
theorem utf8_text {l : Line} {text : List UInt8} (htyped : ∀ b ∈ text, isTyped b = true)
    (hlist : Source.isListable false text = true) (hbody : l.body = Crunch.body false text) :
    Text.utf8 l.text = Source.decimal l.number.toNat ++ space :: Source.respell text := by
  have hascii : ∀ b, isTyped b = true → b < 0x80 := by grind [isTyped, tab]
  have htext : l.text = Text.ofBytes (Source.decimal l.number.toNat ++ space :: Source.respell text) := by
    have hnumber : (toString l.number).toList = (Source.decimal l.number.toNat).map Text.byteChar :=
      (Source.map_byteChar_decimal _).symm
    have hspace : " ".toList = [Text.byteChar space] := by decide
    rw [Line.text, hbody, Source.text_body htyped hlist, ← String.toList_inj]
    simp only [Text.ofBytes, String.toList_append, String.toList_ofList, hnumber, hspace,
      List.map_append, List.map_cons, List.append_assoc, List.singleton_append]
  rw [htext, Text.utf8_ofBytes fun b hb =>
    hascii b (typed_listed _ (Source.typed_respell htyped hlist) b hb)]

/-- The listed text of a line is typed. -/
theorem typed_text {l : Line} (h : Listable l) : ∀ b ∈ Text.utf8 l.text, isTyped b = true := by
  obtain ⟨text, htyped, -, hlist, hbody⟩ := h
  rw [utf8_text htyped hlist hbody]
  exact typed_listed _ (Source.typed_respell htyped hlist)

/-- The listed text of a line has its number, and a text with its code. -/
theorem numberedText?_text {l : Line} (h : Listable l) :
    ∃ text, numberedText? (Text.utf8 l.text) = some (l.number, text) ∧
      Crunch.body false text = l.body := by
  obtain ⟨text, htyped, hhead, hlist, hbody⟩ := h
  refine ⟨Source.respell text, ?_, by rw [Source.body_respell htyped hlist, hbody]⟩
  rw [utf8_text htyped hlist hbody]
  exact numberedText?_listed (Source.typed_respell htyped hlist)
    (Source.head_respell htyped hlist hhead)

/-- The listed text of a line is crunched to the line. -/
theorem line_text {l : Line} (h : Listable l) : Crunch.line l.text = lineCode l := by
  obtain ⟨text, hnumber, hbody⟩ := numberedText?_text h
  rw [Crunch.line, bytes_eq_lineCode hnumber, hbody]

theorem isBlank_text {l : Line} (h : Listable l) : Text.isBlank l.text = false := by
  obtain ⟨text, hnumber, -⟩ := numberedText?_text h
  rw [Bool.eq_false_iff]
  intro hblank
  rw [numberedText?_of_isBlank hblank] at hnumber
  cases hnumber

/-! ## Loading a listing -/

/-- Whether a line of a saved program is of printable characters and tabs, and its text is listable. -/
def isListable (line : List UInt8) : Bool :=
  line.all isTyped && (numberedText? line).all fun found => Source.isListable false found.2

theorem isListable_iff {line : List UInt8} :
    isListable line = true ↔ (∀ b ∈ line, isTyped b = true) ∧
      ∀ n text, numberedText? line = some (n, text) → Source.isListable false text = true := by
  rw [isListable, Bool.and_eq_true, List.all_eq_true]
  refine and_congr_right fun _ => ?_
  cases numberedText? line with
  | none => simp
  | some found => simp [Prod.ext_iff]

/-- The lines of a program that is loaded from listable text are listable. -/
theorem listable_of_load {bytes : List UInt8} {p : Program} (hload : load bytes = .ok p)
    (hnul : ∀ line ∈ Text.fileLines bytes, endLine ∉ line)
    (hlines : ∀ line ∈ Text.fileLines bytes, isListable line = true) :
    ∀ l ∈ p.lines, Listable l := by
  intro l hl
  rw [(lines_of_foldlM hnul hload).1] at hl
  rcases exists_text_of_mem_foldl hl with hl | ⟨line, hline, text, hnumber, hbody⟩
  · cases hl
  · obtain ⟨htyped, hlist⟩ := isListable_iff.1 (hlines line hline)
    exact ⟨text, fun b hb => htyped b (mem_of_numberedText? hnumber hb),
      Source.head_of_numberedText? hnumber, hlist _ _ hnumber, hbody⟩

theorem listing_all (p : Program) : p.listing none none = p.lines.map Line.text := by
  have hrange : ∀ n : UInt16, inRange none none n = true := fun n => by
    simp only [inRange, Option.getD_none, Bool.and_eq_true, decide_eq_true_eq]
    exact ⟨UInt16.zero_le, Nat.le_of_lt_succ n.toNat_lt⟩
  rw [listing, List.filter_eq_self.2 fun l _ => hrange l.number]

/-- The lines of a listing that is written to a file are read back. -/
theorem fileLines_listing {p : Program} (h : ∀ l ∈ p.lines, Listable l) :
    Text.fileLines (Text.fileText (p.listing none none)) = (p.listing none none).map Text.utf8 := by
  have hend : ∀ b, isTyped b = true → b ≠ newline ∧ b ≠ carriageReturn := by
    grind [isTyped, tab, carriageReturn, newline]
  refine Text.fileLines_fileText fun text htext => ?_
  rw [listing_all] at htext
  obtain ⟨l, hl, rfl⟩ := List.mem_map.1 htext
  have htyped := typed_text (h l hl)
  exact ⟨fun hb => (hend _ (htyped _ hb)).1 rfl, fun hb => (hend _ (htyped _ hb)).2 rfl⟩

/-- Loading a listing enters the code of its program's lines. -/
theorem load_listing_eq {p : Program} (h : ∀ l ∈ p.lines, Listable l) :
    load (Text.fileText (p.listing none none)) = (p.lines.map lineCode).foldlM enter empty := by
  have hblank : (p.listing none none).any Text.isBlank = false := by
    rw [listing_all, List.any_map, List.any_eq_false]
    exact fun l hl => Bool.eq_false_iff.1 (isBlank_text (h l hl))
  have hcode : (p.listing none none).map Crunch.line = p.lines.map lineCode := by
    rw [listing_all, List.map_map]
    exact List.map_congr_left fun l hl => line_text (h l hl)
  rw [load_eq_foldlM (fileLines_listing h) hblank, hcode]

/-- Loading the listing of a program that is loaded from listable text gives the program: its lines, its
image and its start. -/
theorem load_listing {bytes : List UInt8} {p : Program} (hload : load bytes = .ok p)
    (hlines : ∀ line ∈ Text.fileLines bytes, isListable line = true) :
    load (Text.fileText (p.listing none none)) = .ok p := by
  have hnul : ∀ line ∈ Text.fileLines bytes, endLine ∉ line := fun line hline =>
    not_mem_of_typed (by simp) (isListable_iff.1 (hlines line hline)).1
  have henter : ∀ l ∈ p.lines, Enterable l :=
    enterable_of_foldlM hnul hload fun l hl => absurd hl List.not_mem_nil
  rw [load_listing_eq (listable_of_load hload hnul hlines)]
  exact foldlM_enter henter rfl rfl ((lines_of_foldlM hnul hload).2 rfl)

/-- Words without spaces, in lower case and with leading zeros, and the two forms of the short comment. -/
theorem load_listing_respelled :
    ∃ p, load (Text.utf8 "10 goto 0020:rem' ?\n20 printerr\"a.5\":'.") = .ok p ∧
      (∀ line ∈ Text.fileLines (Text.utf8 "10 goto 0020:rem' ?\n20 printerr\"a.5\":'."),
        isListable line = true) ∧
      p.listing none none = ["10 GOTO 20' ?", "20 PRINTERR\"a.5\":'."] ∧
      load (Text.fileText (p.listing none none)) = .ok p := by
  have hlines : Text.fileLines (Text.utf8 "10 goto 0020:rem' ?\n20 printerr\"a.5\":'.") =
      ["10 goto 0020:rem' ?", "20 printerr\"a.5\":'."].map Text.utf8 := by cbv
  have hcodes : ["10 goto 0020:rem' ?", "20 printerr\"a.5\":'."].map Crunch.line =
      [[0, 0xC0, 0xDE, 10, 0, 0x89, 0x20, 0x0E, 20, 0, 0x3A, 0x8F, 0x27, 0x20, 0x3F, 0],
        [0, 0xC0, 0xDE, 20, 0, 0x91, 0xD5, 0x22, 0x61, 0x2E, 0x35, 0x22, 0x3A, 0x3A, 0x8F, 0x27, 0x2E,
          0]] := by cbv
  have hload : ∃ p, load (Text.utf8 "10 goto 0020:rem' ?\n20 printerr\"a.5\":'.") = .ok p ∧ p.lines =
      [⟨10, [0x89, 0x20, 0x0E, 20, 0, 0x3A, 0x8F, 0x27, 0x20, 0x3F]⟩,
        ⟨20, [0x91, 0xD5, 0x22, 0x61, 0x2E, 0x35, 0x22, 0x3A, 0x3A, 0x8F, 0x27, 0x2E]⟩] := by
    rw [load_eq_foldlM hlines (by cbv), hcodes]
    exact ⟨_, rfl, rfl⟩
  have hlistable : ∀ line ∈ Text.fileLines (Text.utf8 "10 goto 0020:rem' ?\n20 printerr\"a.5\":'."),
      isListable line = true := by
    rw [hlines, ← List.all_eq_true]
    cbv
  obtain ⟨p, hp, hps⟩ := hload
  refine ⟨p, hp, hlistable, ?_, load_listing hp hlistable⟩
  rw [listing_all, hps]
  cbv

end Program

end LineBasic

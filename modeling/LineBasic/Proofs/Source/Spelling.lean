import LineBasic.Proofs.Code.Closed
import LineBasic.Proofs.Source.Code

/-!
# How source text is spelled

A lexeme can be typed in several ways: words and names in any case, numbers with leading zeros, and the
comment `'` as `:REM'`.  One spelling stands for all of them.  It is read as the same lexemes as the text
it replaces, because what follows a lexeme decides no more than its letters and the kind of its first
character do.

* `respell`: a text in the one spelling of its lexemes.
* `isListable`: a text without `?` whose numbers are whole and small enough for integer code.
* `Cuts`: the ways in which such a text starts with a lexeme.
* `body_respell`: a text and its respelling have the same code.
-/

namespace LineBasic.Source

open Token Code

/-! ## Decimal numbers -/

/-- A number in decimal digits, without leading zeros. -/
def decimal (n : Nat) : List UInt8 :=
  (Nat.toDigits 10 n).map fun c => UInt8.ofNat c.toNat

theorem decimal_ne_nil (n : Nat) : decimal n ≠ [] := by
  simp [decimal, Nat.toDigits_ne_nil]

/-- A digit is an ASCII character, so its byte keeps its code point. -/
theorem toNat_of_mem_toDigits {n : Nat} {c : Char} (h : c ∈ Nat.toDigits 10 n) :
    48 ≤ c.toNat ∧ c.toNat ≤ 57 ∧ (UInt8.ofNat c.toNat).toNat = c.toNat := by
  have hd := Nat.isDigit_of_mem_toDigits (by decide) (by decide) h
  obtain ⟨hlow, hhigh⟩ : 48 ≤ c.toNat ∧ c.toNat ≤ 57 := Char.isDigit_iff_toNat.1 hd
  refine ⟨hlow, hhigh, ?_⟩
  rw [UInt8.toNat_ofNat']
  exact Nat.mod_eq_of_lt (by omega)

/-- A number is written with digits. -/
theorem isDigit_of_mem_decimal {n : Nat} {b : UInt8} (h : b ∈ decimal n) : isDigit b = true := by
  obtain ⟨c, hc, rfl⟩ := List.mem_map.1 h
  obtain ⟨hlow, hhigh, hbyte⟩ := toNat_of_mem_toDigits hc
  simp only [isDigit, Bool.and_eq_true, decide_eq_true_eq, UInt8.le_iff_toNat_le, hbyte]
  exact ⟨hlow, hhigh⟩

theorem foldl_ofDigitChars {l : List Char} (h : ∀ c ∈ l, (UInt8.ofNat c.toNat).toNat = c.toNat)
    (init : Nat) :
    (l.map fun c => UInt8.ofNat c.toNat).foldl (fun n d => 10 * n + (d.toNat - 0x30)) init =
      Nat.ofDigitChars 10 l init := by
  rw [Nat.ofDigitChars_eq_foldl]
  induction l generalizing init with
  | nil => rfl
  | cons c l ih =>
    rw [List.map_cons, List.foldl_cons, List.foldl_cons, h c List.mem_cons_self,
      ih fun d hd => h d (List.mem_cons_of_mem _ hd)]
    rfl

/-- A number that is written can be read back. -/
theorem decimalValue_decimal (n : Nat) : Crunch.decimalValue (decimal n) = n := by
  rw [Crunch.decimalValue, decimal, foldl_ofDigitChars fun c hc => (toNat_of_mem_toDigits hc).2.2]
  exact Nat.ofDigitChars_ten_toDigits

/-- The digits of a number are the ones that it is printed with. -/
theorem map_byteChar_decimal (n : Nat) : (decimal n).map Text.byteChar = (toString n).toList := by
  rw [Nat.toString_eq_ofList_toDigits, String.toList_ofList, decimal, List.map_map]
  calc (Nat.toDigits 10 n).map (Text.byteChar ∘ fun c => UInt8.ofNat c.toNat)
    _ = (Nat.toDigits 10 n).map id := List.map_congr_left fun c hc => by
      rw [Function.comp_apply, Text.byteChar, (toNat_of_mem_toDigits hc).2.2, Char.ofNat_toNat, id]
    _ = Nat.toDigits 10 n := List.map_id _

/-! ## Keywords -/

/-- The letters at the start of a text, in upper case. -/
def letters (src : List UInt8) : List UInt8 :=
  (src.map upper).takeWhile isUpper

/-- Only letters have an upper case. -/
theorem isUpper_upper {b : UInt8} : isUpper (upper b) = isLetter b := by
  grind [isUpper, upper, isLetter, isLower]

theorem letters_of_head {b : UInt8} (h : isLetter b = false) (rest : List UInt8) :
    letters (b :: rest) = [] := by
  simp [letters, isUpper_upper, h]

/-- Letters are told from the start of a text in upper case and the letters after it. -/
theorem letters_append_congr {l₁ l₂ t₁ t₂ : List UInt8} (hl : l₁.map upper = l₂.map upper)
    (ht : letters t₁ = letters t₂) : letters (l₁ ++ t₁) = letters (l₂ ++ t₂) := by
  unfold letters at ht ⊢
  rw [List.map_append, List.map_append, List.takeWhile_append, List.takeWhile_append, hl, ht]

theorem isUpper_of_mem_word (k : Keyword) : ∀ b ∈ Text.utf8 k.word, isUpper b = true := by
  have hall : (Text.utf8 k.word).all isUpper = true := by cases k <;> rfl
  exact List.all_eq_true.1 hall

/-- A text starts with a word in letters of either case. -/
theorem startsWith_iff {src word : List UInt8} (hword : ∀ b ∈ word, isUpper b = true) :
    Crunch.startsWith src word = true ↔ word <+: letters src := by
  rw [Crunch.startsWith, beq_iff_eq, List.map_take, eq_comm, ← List.prefix_iff_eq_take]
  constructor
  · rintro ⟨t, ht⟩
    rw [letters, ← ht, List.takeWhile_append_of_pos hword]
    exact List.prefix_append _ _
  · exact fun h => h.trans (List.takeWhile_prefix _)

/-- The keyword at the start of a text depends on its letters only. -/
theorem keyword?_congr {s t : List UInt8} (h : letters s = letters t) :
    Crunch.keyword? s = Crunch.keyword? t := by
  have hstarts : ∀ k : Keyword, Crunch.startsWith s (Text.utf8 k.word) =
      Crunch.startsWith t (Text.utf8 k.word) := fun k => by
    rw [Bool.eq_iff_iff, startsWith_iff (isUpper_of_mem_word k), h,
      ← startsWith_iff (isUpper_of_mem_word k)]
  simp only [Crunch.keyword?, hstarts]

/-- A text that starts with a keyword has it as typed, in any case of letters. -/
theorem exists_typed_of_keyword? {src : List UInt8} {k : Keyword}
    (h : Crunch.keyword? src = some k) :
    ∃ typed, typed.map upper = Text.utf8 k.word ∧ src = typed ++ src.drop k.word.utf8ByteSize := by
  have hstarts := List.find?_some h
  rw [Crunch.startsWith, beq_iff_eq] at hstarts
  exact ⟨_, hstarts, (List.take_append_drop _ _).symm⟩

/-! ## Texts that start alike -/

/-- What a character can do after a lexeme. -/
inductive Kind where
  | letter | digit | point | mark | other
  deriving DecidableEq, Repr

/-- The kind of a character. -/
def kind (b : UInt8) : Kind :=
  if isLetter b then .letter
  else if isDigit b then .digit
  else if b = Token.point then .point
  else if isSigil b then .mark
  else .other

theorem kind_letter {b : UInt8} : isLetter b = (kind b == .letter) := by
  grind [kind]

theorem kind_upper {b : UInt8} : kind (upper b) = kind b := by
  grind [kind, upper, isLetter, isUpper, isLower, isDigit, isSigil, Token.point]

/-- Two texts that no lexeme before them can tell apart. -/
structure Alike (src t : List UInt8) : Prop where
  letters : letters src = letters t
  head : src.head?.map kind = t.head?.map kind

namespace Alike

theorem refl (src : List UInt8) : Alike src src :=
  ⟨rfl, rfl⟩

/-- Texts that start with characters of one kind, and with no letters. -/
theorem of_kind {b c : UInt8} (hkind : kind b = kind c) (hb : isLetter b = false)
    (src t : List UInt8) : Alike (b :: src) (c :: t) where
  letters := by
    have hc : isLetter c = false := by rw [kind_letter, ← hkind, ← kind_letter, hb]
    rw [letters_of_head hb, letters_of_head hc]
  head := by rw [List.head?_cons, List.head?_cons, Option.map_some, Option.map_some, hkind]

variable {src t : List UInt8}

/-- Only the empty text is like the empty one. -/
theorem eq_nil (h : Alike [] t) : t = [] := by
  simpa using h.head.symm

/-- What is told from the kind of the first character is the same for both. -/
theorem any_head (h : Alike src t) {p : UInt8 → Bool} (q : Kind → Bool)
    (hp : ∀ b, p b = q (kind b)) : t.head?.any p = src.head?.any p := by
  have hany : ∀ l : List UInt8, l.head?.any p = (l.head?.map kind).any q := fun l => by
    rw [Option.any_map]
    exact congrArg (Option.any · l.head?) (funext hp)
  rw [hany, hany, h.head]

/-- Texts that are alike begin with a digit both or neither. -/
theorem any_isDigit (h : Alike src t) : t.head?.any isDigit = src.head?.any isDigit :=
  h.any_head (· == .digit) fun b => by grind [kind, isLetter, isUpper, isLower, isDigit]

/-- A word in any case of letters keeps texts alike. -/
theorem append {l₁ l₂ : List UInt8} (h : Alike src t) (hl : l₁.map upper = l₂.map upper) :
    Alike (l₁ ++ src) (l₂ ++ t) where
  letters := letters_append_congr hl h.letters
  head := by
    cases l₁ with
    | nil =>
      obtain rfl : l₂ = [] := by simpa using hl.symm
      exact h.head
    | cons b l₁ =>
      cases l₂ with
      | nil => cases hl
      | cons c l₂ =>
        have hbc : upper b = upper c := (List.cons.inj hl).1
        have hkind : kind b = kind c := by
          rw [← kind_upper, hbc, kind_upper]
        simp [hkind]

end Alike

/-! ## The spelling of a lexeme -/

namespace Lexeme

/-- A lexeme as it is listed. -/
def spelling : Lexeme → List UInt8
  | blank => [space]
  | word k => Text.utf8 k.word
  | remark t => Text.utf8 Keyword.REM.word ++ t
  | name t => t
  | whole digits => decimal (Crunch.decimalValue digits)
  | fraction digits decimals => digits ++ point :: decimals
  | text inside closed => quote :: (inside ++ if closed then [quote] else [])
  | operator o => [o.symbol]
  | symbol b => [b]

/-- The lexeme that its spelling is read as. -/
def normal : Lexeme → Lexeme
  | whole digits => whole (decimal (Crunch.decimalValue digits))
  | l => l

/-- Whether a lexeme is no number, or one with integer code. -/
def isListable (asLine : Bool) : Lexeme → Bool
  | whole digits => Crunch.decimalValue digits ≤ if asLine then 65535 else 32767
  | fraction _ _ => false
  | _ => true

/-- A lexeme has the code of its normal form. -/
theorem code_normal (asLine : Bool) (l : Lexeme) : l.normal.code asLine = l.code asLine := by
  cases l with
  | whole digits => simp only [normal, code, Crunch.wholeNumber, decimalValue_decimal]
  | _ => rfl

@[simp] theorem keeps_normal (l : Lexeme) : l.normal.keeps = l.keeps := by
  cases l <;> rfl

@[simp] theorem expects_normal (l : Lexeme) : l.normal.expects = l.expects := by
  cases l <;> rfl

end Lexeme

/-! ## The first lexeme of a text -/

/-- A text starts with a lexeme, before the rest of it. -/
def Starts (src : List UInt8) (l : Lexeme) (rest : List UInt8) : Prop :=
  ∃ c tail, src = c :: tail ∧ isTyped c = true ∧ c ≠ apostrophe ∧ lexeme c tail = (l, rest)

/-- The ways in which a text starts with a lexeme, other than a number with a point and `?`. -/
inductive Cuts : List UInt8 → Lexeme → List UInt8 → Prop where
  | literal {inside rest : List UInt8} (hquote : quote ∉ inside) :
      Cuts (quote :: (inside ++ quote :: rest)) (.text inside true) rest
  /-- A string literal that the end of the line closes. -/
  | openLiteral {inside : List UInt8} (hquote : quote ∉ inside) :
      Cuts (quote :: inside) (.text inside false) []
  | whole {digits rest : List UInt8} (hne : digits ≠ []) (hdigits : ∀ b ∈ digits, isDigit b = true)
      (hrest : rest.head?.any (fun b => isDigit b || b = point) = false) :
      Cuts (digits ++ rest) (.whole digits) rest
  | word {k : Keyword} {typed rest : List UInt8} (hk : k ≠ .REM)
      (htyped : typed.map upper = Text.utf8 k.word)
      (hkey : Crunch.keyword? (typed ++ rest) = some k) : Cuts (typed ++ rest) (.word k) rest
  | remark {typed t : List UInt8} (htyped : typed.map upper = Text.utf8 Keyword.REM.word)
      (hkey : Crunch.keyword? (typed ++ t) = some .REM) : Cuts (typed ++ t) (.remark t) []
  | name {typed t rest : List UInt8} (htyped : typed.map upper = t)
      (hkey : Crunch.keyword? (typed ++ rest) = none)
      (hends : IsMarked t ∨
        IsStem t ∧ rest.head?.any (fun b => isNameByte b || isSigil b) = false) :
      Cuts (typed ++ rest) (.name t) rest
  | single {c : UInt8} {rest : List UInt8} (hc : isTyped c = true)
      (hnot : c ∉ [quote, apostrophe, question]) (hletter : isLetter c = false)
      (hdigit : (isDigit c || (c = point && rest.head?.any isDigit)) = false) :
      Cuts (c :: rest) (single c) rest

theorem letter_spec {c : UInt8} (h : isLetter c = true) :
    isTyped c = true ∧ isDigit c = false ∧ c ≠ quote ∧ c ≠ apostrophe ∧ c ≠ point := by
  grind [isLetter, isUpper, isLower, isTyped, isDigit, quote, apostrophe, Token.point]

theorem digit_spec {c : UInt8} (h : isDigit c = true) :
    isTyped c = true ∧ isLetter c = false ∧ kind c = .digit ∧ c ≠ quote ∧ c ≠ apostrophe := by
  grind [isLetter, isUpper, isLower, isTyped, isDigit, quote, apostrophe, kind]

/-- Digits before something else are cut off as a whole. -/
theorem span_digits {digits rest : List UInt8} (hdigits : ∀ b ∈ digits, isDigit b = true)
    (hrest : rest.head?.any isDigit = false) :
    (digits ++ rest).takeWhile isDigit = digits ∧ (digits ++ rest).dropWhile isDigit = rest := by
  rw [List.takeWhile_append_of_pos hdigits, List.dropWhile_append_of_pos hdigits]
  cases rest with
  | nil => simp
  | cons b rest =>
    have hb : isDigit b = false := hrest
    simp [hb]

/-- A literal goes up to the next quote. -/
theorem lexeme_literal {inside : List UInt8} (hquote : quote ∉ inside) (rest : List UInt8) :
    lexeme quote (inside ++ quote :: rest) = (.text inside true, rest) := by
  have hp : ∀ b ∈ inside, decide (b ≠ quote) = true := fun b hb =>
    decide_eq_true (ne_of_mem_of_not_mem hb hquote)
  simp only [lexeme, if_true, Crunch.afterQuote, List.takeWhile_append_of_pos hp,
    List.dropWhile_append_of_pos hp]
  simp

/-- Without one it goes to the end of the text. -/
theorem lexeme_openLiteral {inside : List UInt8} (hquote : quote ∉ inside) :
    lexeme quote inside = (.text inside false, []) := by
  have hp : ∀ b ∈ inside, decide (b ≠ quote) = true := fun b hb =>
    decide_eq_true (ne_of_mem_of_not_mem hb hquote)
  simp only [lexeme, if_true, Crunch.afterQuote, List.takeWhile_eq_self_iff.2 hp,
    List.dropWhile_eq_nil_iff.2 hp]
  simp [hquote]

theorem lexeme_letter {c : UInt8} (hc : isLetter c = true) (rest : List UInt8) :
    lexeme c rest = word (c :: rest) := by
  obtain ⟨-, hdigit, hquote, -, hpoint⟩ := letter_spec hc
  simp [lexeme, hc, hdigit, hquote, hpoint]

/-- A name is the start of its text, in upper case. -/
theorem exists_typed_of_splitName (src : List UInt8) :
    ∃ typed, typed.map upper = (splitName src).1 ∧ src = typed ++ (splitName src).2 := by
  have hsplit := List.takeWhile_append_dropWhile (p := isNameByte) (l := src)
  unfold splitName
  cases hdrop : src.dropWhile isNameByte with
  | nil =>
    rw [hdrop] at hsplit
    exact ⟨_, rfl, hsplit.symm⟩
  | cons b rest =>
    rw [hdrop] at hsplit
    simp only
    split
    · rename_i hb
      have hupper : upper b = b := by grind [isSigil, upper, isLower]
      refine ⟨src.takeWhile isNameByte ++ [b], by simp [hupper], ?_⟩
      rw [List.append_assoc]
      exact hsplit.symm
    · exact ⟨_, rfl, hsplit.symm⟩

/-- A number is cut off where it ends. -/
theorem cuts_number {asLine : Bool} {c : UInt8} {tail : List UInt8}
    (hc : isDigit c = true ∨ c = point) (h : (number (c :: tail)).1.isListable asLine = true) :
    Cuts (c :: tail) (number (c :: tail)).1 (number (c :: tail)).2 := by
  by_cases hpoint : ∃ rest, (c :: tail).dropWhile isDigit = 0x2E :: rest
  · obtain ⟨rest, hpoint⟩ := hpoint
    simp [number, hpoint, Lexeme.isListable] at h
  · -- A number that starts with its point has digits after it, and is not whole.
    have hdigit : isDigit c = true := hc.resolve_right fun hc => by
      subst hc
      exact hpoint ⟨tail, rfl⟩
    have hrest : ((c :: tail).dropWhile isDigit).head?.any (fun b => isDigit b || b = point) = false := by
      have hnot := List.head?_dropWhile_not isDigit (c :: tail)
      cases hdrop : (c :: tail).dropWhile isDigit with
      | nil => rfl
      | cons b rest =>
        rw [hdrop] at hnot hpoint
        have hb : b ≠ point := fun hb => hpoint ⟨rest, hb ▸ rfl⟩
        simp only [List.head?_cons] at hnot
        simp [hnot, hb]
    have hcuts : Cuts ((c :: tail).takeWhile isDigit ++ (c :: tail).dropWhile isDigit)
        (.whole ((c :: tail).takeWhile isDigit)) ((c :: tail).dropWhile isDigit) :=
      .whole (by simp [hdigit]) (fun b => List.mem_takeWhile_imp) hrest
    rw [number_whole (not_exists.1 hpoint)]
    rwa [List.takeWhile_append_dropWhile] at hcuts

/-- A keyword or a name is cut off where it ends. -/
theorem cuts_word {c : UInt8} (hc : isLetter c = true) (rest : List UInt8) :
    Cuts (c :: rest) (word (c :: rest)).1 (word (c :: rest)).2 := by
  generalize hsrc : c :: rest = src
  unfold word
  split
  · rename_i hkey
    obtain ⟨typed, htyped, happend⟩ := exists_typed_of_keyword? hkey
    have happend : src = typed ++ src.drop 3 := happend
    have hcuts : Cuts (typed ++ src.drop 3) (.remark (src.drop 3)) [] :=
      .remark htyped (by rwa [← happend])
    rwa [← happend] at hcuts
  · rename_i k hk hkey
    obtain ⟨typed, htyped, happend⟩ := exists_typed_of_keyword? hkey
    have hcuts : Cuts (typed ++ src.drop k.word.utf8ByteSize) (.word k)
        (src.drop k.word.utf8ByteSize) :=
      .word hk htyped (by rwa [← happend])
    rwa [← happend] at hcuts
  · rename_i hkey
    obtain ⟨typed, htyped, happend⟩ := exists_typed_of_splitName src
    obtain ⟨hvalid, hends⟩ := @splitName_spec c rest hc
    rw [hsrc] at hvalid hends
    have hcuts : Cuts (typed ++ (splitName src).2) (.name (splitName src).1) (splitName src).2 := by
      refine .name htyped (by rwa [← happend]) ?_
      rcases hvalid with hstem | hmarked
      · exact hends.imp id fun h => ⟨hstem, h⟩
      · exact .inl hmarked
    rwa [← happend] at hcuts

/-- A listable lexeme at the start of a text is read in one of these ways. -/
theorem cuts_lexeme {asLine : Bool} {c : UInt8} {rest : List UInt8} (hc : isTyped c = true)
    (hnot : c ∉ [apostrophe, question]) (h : (lexeme c rest).1.isListable asLine = true) :
    Cuts (c :: rest) (lexeme c rest).1 (lexeme c rest).2 := by
  by_cases hquote : c = quote
  · subst hquote
    rcases Crunch.afterQuote_cases rest with ⟨hq, -⟩ | ⟨inside, after, hq, rfl, -⟩
    · rw [lexeme_openLiteral hq]
      exact .openLiteral hq
    · rw [lexeme_literal hq]
      exact .literal hq
  · by_cases hletter : isLetter c = true
    · rw [lexeme_letter hletter]
      exact cuts_word hletter rest
    · unfold lexeme at h ⊢
      simp only [hquote, hletter, if_false] at h ⊢
      split
      · rename_i hn
        rw [if_pos hn] at h
        refine cuts_number ?_ h
        simp only [Bool.or_eq_true, Bool.and_eq_true, decide_eq_true_eq] at hn
        exact hn.imp id And.left
      · rename_i hn
        refine .single hc ?_ (Bool.eq_false_iff.2 hletter) (Bool.eq_false_iff.2 hn)
        rw [List.mem_cons, not_or]
        exact ⟨hquote, hnot⟩

/-! ## The spelling is read as the lexeme -/

theorem map_upper_map_upper (l : List UInt8) : (l.map upper).map upper = l.map upper := by
  have hupper : ∀ b, upper (upper b) = upper b := by grind [upper, isLower]
  rw [List.map_map]
  exact List.map_congr_left fun b _ => hupper b

/-- A word in its spelling starts with a letter. -/
theorem exists_letter_of_word (k : Keyword) :
    ∃ c tail, Text.utf8 k.word = c :: tail ∧ isLetter c = true := by
  cases k <;> exact ⟨_, _, rfl, by decide⟩

theorem spelling_single {c : UInt8} (hc : c ≠ question) : (single c).spelling = [c] := by
  unfold single
  rw [if_neg hc]
  split
  · rename_i hspace
    rw [hspace]
    rfl
  · split
    · rename_i o ho
      have hsymbol := List.find?_some ho
      rw [Lexeme.spelling, eq_of_beq hsymbol]
    · rfl

theorem normal_single (c : UInt8) : (single c).normal = single c := by
  unfold single
  split
  · rfl
  · split
    · rfl
    · split <;> rfl

namespace Starts

/-- Digits are a whole number if neither a digit nor a point follows. -/
theorem whole {digits rest : List UInt8} (hne : digits ≠ []) (hdigits : ∀ b ∈ digits, isDigit b = true)
    (hrest : rest.head?.any (fun b => isDigit b || b = point) = false) :
    Starts (digits ++ rest) (.whole digits) rest := by
  have hdigit : rest.head?.any isDigit = false := by
    cases rest with
    | nil => rfl
    | cons b rest => exact (Bool.or_eq_false_iff.1 hrest).1
  obtain ⟨htake, hdrop⟩ := span_digits hdigits hdigit
  obtain ⟨c, tail, rfl⟩ := List.exists_cons_of_ne_nil hne
  have hc := hdigits c List.mem_cons_self
  obtain ⟨htyped, -, -, hquote, hapostrophe⟩ := digit_spec hc
  refine ⟨c, tail ++ rest, rfl, htyped, hapostrophe, ?_⟩
  have hnumber : number (c :: (tail ++ rest)) = (.whole (c :: tail), rest) := by
    rw [← List.cons_append, number_whole, htake, hdrop]
    intro r hr
    rw [hdrop] at hr
    rw [hr] at hrest
    cases hrest
  simp [lexeme, hquote, hc, hnumber]

/-- A word that is cut off starts the text. -/
theorem of_word {c : UInt8} {tail rest : List UInt8} {l : Lexeme} (hc : isLetter c = true)
    (h : word (c :: tail) = (l, rest)) : Starts (c :: tail) l rest := by
  obtain ⟨htyped, -, -, hapostrophe, -⟩ := letter_spec hc
  exact ⟨c, tail, rfl, htyped, hapostrophe, by rw [lexeme_letter hc, h]⟩

/-- A keyword in its spelling is read as the keyword. -/
theorem keyword {k : Keyword} {rest : List UInt8} (hk : k ≠ .REM)
    (hkey : Crunch.keyword? (Text.utf8 k.word ++ rest) = some k) :
    Starts (Text.utf8 k.word ++ rest) (.word k) rest := by
  have hdrop : (Text.utf8 k.word ++ rest).drop k.word.utf8ByteSize = rest :=
    List.drop_left' rfl
  obtain ⟨c, tail, hword, hc⟩ := exists_letter_of_word k
  rw [hword, List.cons_append] at hkey hdrop ⊢
  refine of_word hc ?_
  unfold word
  split
  · rename_i hrem
    exact absurd (Option.some.inj (hkey.symm.trans hrem)) hk
  · rename_i k' hk' hkey'
    cases hkey.symm.trans hkey'
    rw [hdrop]
  · rename_i hnone
    cases hkey.symm.trans hnone

/-- A comment takes all that follows. -/
theorem remark {t : List UInt8}
    (hkey : Crunch.keyword? (Text.utf8 Keyword.REM.word ++ t) = some .REM) :
    Starts (Text.utf8 Keyword.REM.word ++ t) (.remark t) [] := by
  have hword : Text.utf8 Keyword.REM.word = [0x52, 0x45, 0x4D] := by decide
  rw [hword] at hkey ⊢
  refine of_word (by decide) ?_
  show word ([0x52, 0x45, 0x4D] ++ t) = _
  rw [word, hkey]
  rfl

/-- A name ends with its mark, or before a byte that could not go on with it. -/
theorem name {t rest : List UInt8} (hkey : Crunch.keyword? (t ++ rest) = none)
    (hends : IsMarked t ∨
      IsStem t ∧ rest.head?.any (fun b => isNameByte b || isSigil b) = false) :
    Starts (t ++ rest) (.name t) rest := by
  have hsplit : splitName (t ++ rest) = (t, rest) := by
    rcases hends with hmarked | ⟨hstem, hrest⟩
    · exact splitName_marked hmarked rest
    · exact splitName_stem hstem hrest
  obtain ⟨c, tail, ht, hc⟩ := Lexeme.isLetter_head (hends.symm.imp And.left id)
  have hword : word (t ++ rest) = (.name t, rest) := by
    rw [word, hkey, hsplit]
  rw [ht, List.cons_append] at hword ⊢
  exact of_word hc hword

end Starts

namespace Cuts

variable {src rest t : List UInt8} {l : Lexeme}

/-- A text and its spelling start alike, if what follows the first lexeme does. -/
theorem alike (h : Cuts src l rest) (ht : Alike rest t) : Alike src (l.spelling ++ t) := by
  cases h with
  | literal _ | openLiteral _ => exact .of_kind rfl (by decide) _ _
  | @whole digits _ hne hdigits _ =>
    obtain ⟨c, tail, rfl⟩ := List.exists_cons_of_ne_nil hne
    obtain ⟨d, ds, hd⟩ := List.exists_cons_of_ne_nil (decimal_ne_nil (Crunch.decimalValue (c :: tail)))
    obtain ⟨-, hletter, hkind, -⟩ := digit_spec (hdigits c List.mem_cons_self)
    obtain ⟨-, -, hkind', -⟩ := digit_spec (isDigit_of_mem_decimal (hd ▸ List.mem_cons_self))
    rw [Lexeme.spelling, hd]
    exact .of_kind (hkind.trans hkind'.symm) hletter _ _
  | word _ htyped _ => exact ht.append (by rw [Lexeme.spelling, ← htyped, map_upper_map_upper])
  | @remark _ text htyped _ =>
    obtain rfl := ht.eq_nil
    rw [Lexeme.spelling, List.append_nil, ← htyped]
    exact (Alike.refl text).append (map_upper_map_upper _).symm
  | name htyped _ _ => exact ht.append (by rw [Lexeme.spelling, ← htyped, map_upper_map_upper])
  | single _ hnot hletter _ =>
    rw [spelling_single fun hc => hnot (by simp [hc])]
    exact .of_kind rfl hletter _ _

/-- The spelling of a lexeme is read as the lexeme before any text like the one after it. -/
theorem starts (h : Cuts src l rest) (ht : Alike rest t) : Starts (l.spelling ++ t) l.normal t := by
  have hkeyword := keyword?_congr (h.alike ht).letters
  cases h with
  | @literal inside _ hquote =>
    refine ⟨quote, inside ++ quote :: t, by simp [Lexeme.spelling], by decide, by decide, ?_⟩
    exact lexeme_literal hquote t
  | @openLiteral inside hquote =>
    obtain rfl := ht.eq_nil
    refine ⟨quote, inside, by simp [Lexeme.spelling], by decide, by decide, ?_⟩
    exact lexeme_openLiteral hquote
  | whole _ _ hrest =>
    refine .whole (decimal_ne_nil _) (fun b => isDigit_of_mem_decimal) ?_
    rw [← hrest]
    refine ht.any_head (fun k => k == .digit || k == .point) fun b => ?_
    grind [kind, isLetter, isUpper, isLower, isDigit, Token.point]
  | word hk _ hkey => exact .keyword hk (hkeyword ▸ hkey)
  | remark _ hkey =>
    obtain rfl := ht.eq_nil
    rw [Lexeme.spelling, List.append_nil] at hkeyword ⊢
    exact .remark (hkeyword ▸ hkey)
  | name _ hkey hends =>
    refine .name (hkeyword ▸ hkey) (hends.imp id fun ⟨hstem, hrest⟩ => ⟨hstem, ?_⟩)
    rw [← hrest]
    refine ht.any_head (fun k => k != .other) fun b => ?_
    grind [kind, isNameByte]
  | @single c _ hc hnot hletter hdigit =>
    simp only [List.mem_cons, List.not_mem_nil, or_false, not_or] at hnot
    rw [spelling_single hnot.2.2, normal_single]
    refine ⟨c, t, rfl, hc, hnot.2.1, ?_⟩
    rw [← ht.any_isDigit] at hdigit
    simp [lexeme, hnot.1, hletter, hdigit]

end Cuts

/-- The bytes of a name are typed and no quotes. -/
theorem typed_of_name {t : List UInt8} (h : IsStem t ∨ IsMarked t) :
    ∀ b ∈ t, isTyped b = true ∧ b ≠ quote ∧ b ≠ colon := by
  have hname : ∀ b, isNameByte b = true → isTyped b = true ∧ b ≠ quote ∧ b ≠ colon := by
    grind [isNameByte, isLetter, isUpper, isLower, isDigit, Token.point, isTyped, quote, colon]
  have hmark : ∀ b, isSigil b = true → isTyped b = true ∧ b ≠ quote ∧ b ≠ colon := by
    grind [isSigil, isTyped, quote, colon]
  intro b hb
  rcases h with hstem | ⟨stem, mark, rfl, hstem, hsigil⟩
  · exact hname b ((map_upper_of_isStem hstem).1 b hb)
  · rcases List.mem_append.1 hb with hb | hb
    · exact hname b ((map_upper_of_isStem hstem).1 b hb)
    · rw [List.mem_singleton.1 hb]
      exact hmark mark hsigil

/-! ## Respelling a text -/

/-- Whether a text is a comment of the form `REM'`, which after a colon is listed as `'`. -/
def opensRemark (src : List UInt8) : Bool :=
  Crunch.keyword? src = some .REM && (src.drop 3).head? = some apostrophe

/-- A text in the spelling in which it is listed. -/
def respell : List UInt8 → List UInt8
  | [] => []
  | c :: rest =>
    if _hc : c = apostrophe then c :: rest
    else if c = colon && opensRemark rest then rest.drop 3
    else (lexeme c rest).1.spelling ++ respell (lexeme c rest).2
termination_by src => src.length
decreasing_by exact length_lexeme_rest_lt _hc rest

/-- Whether a text has, outside of literals and comments, no `?` and no number with a point, and its
numbers have integer code: up to 65535 where a line number is expected, and up to 32767 elsewhere. -/
def isListable (expectsLine : Bool) : List UInt8 → Bool
  | [] => true
  | c :: rest =>
    if _hc : c = apostrophe then true
    else
      let l := (lexeme c rest).1
      c ≠ question && l.isListable (expectsLine && l.keeps) &&
        isListable ((expectsLine && l.keeps) || l.expects) (lexeme c rest).2
termination_by src => src.length
decreasing_by exact length_lexeme_rest_lt _hc rest

/-- A text that can be listed is a lexeme that can be, and a rest that can be. -/
theorem isListable_cons {expectsLine : Bool} {c : UInt8} {rest : List UInt8} (hc : c ≠ apostrophe)
    (h : isListable expectsLine (c :: rest) = true) :
    c ≠ question ∧ (lexeme c rest).1.isListable (expectsLine && (lexeme c rest).1.keeps) = true ∧
      isListable ((expectsLine && (lexeme c rest).1.keeps) || (lexeme c rest).1.expects)
        (lexeme c rest).2 = true := by
  rw [isListable, dif_neg hc] at h
  simpa only [Bool.and_eq_true, decide_eq_true_eq, and_assoc] using h

theorem typed_lexeme_rest {c : UInt8} {rest : List UInt8} (hc : c ≠ apostrophe)
    (h : ∀ b ∈ c :: rest, isTyped b = true) : ∀ b ∈ (lexeme c rest).2, isTyped b = true := by
  intro b hb
  rw [lexeme_rest false hc] at hb
  exact h b ((Crunch.lexeme_suffix false c rest).subset hb)

/-- Every text that can be typed starts with its first lexeme. -/
theorem starts_lexeme {c : UInt8} {rest : List UInt8} (hc : c ≠ apostrophe)
    (htyped : ∀ b ∈ c :: rest, isTyped b = true) :
    Starts (c :: rest) (lexeme c rest).1 (lexeme c rest).2 :=
  ⟨c, rest, rfl, htyped c List.mem_cons_self, hc, rfl⟩

/-- The step that the proofs about respelled text take: how its first lexeme is cut off. -/
theorem cuts_of_isListable {expectsLine : Bool} {c : UInt8} {rest : List UInt8} (hc : c ≠ apostrophe)
    (htyped : ∀ b ∈ c :: rest, isTyped b = true) (h : isListable expectsLine (c :: rest) = true) :
    Cuts (c :: rest) (lexeme c rest).1 (lexeme c rest).2 := by
  obtain ⟨hquestion, hlexeme, -⟩ := isListable_cons hc h
  exact cuts_lexeme (htyped c List.mem_cons_self) (by simp [hc, hquestion]) hlexeme

/-- A comment `REM'` goes on with an apostrophe. -/
theorem exists_of_opensRemark {src : List UInt8} (h : opensRemark src = true) :
    Crunch.keyword? src = some .REM ∧ ∃ t, src.drop 3 = apostrophe :: t := by
  simp only [opensRemark, Bool.and_eq_true, decide_eq_true_eq] at h
  exact ⟨h.1, List.head?_eq_some_iff.1 h.2⟩

/-- A respelled text starts like the text. -/
theorem alike_respell {expectsLine : Bool} {src : List UInt8} (htyped : ∀ b ∈ src, isTyped b = true)
    (h : isListable expectsLine src = true) : Alike src (respell src) := by
  fun_induction respell src generalizing expectsLine with
  | case1 => exact .refl []
  | case2 rest => exact .refl _
  | case3 c rest hc hremark =>
    simp only [Bool.and_eq_true, decide_eq_true_eq] at hremark
    obtain ⟨rfl, hopens⟩ := hremark
    obtain ⟨-, t, ht⟩ := exists_of_opensRemark hopens
    rw [ht]
    exact .of_kind (by decide) (by decide) _ _
  | case4 c rest hc hremark ih =>
    have hrest := ih (typed_lexeme_rest hc htyped) (isListable_cons hc h).2.2
    exact (cuts_of_isListable hc htyped h).alike hrest

/-- The spelling of a lexeme of typed text is typed. -/
theorem Cuts.typed {src rest : List UInt8} {l : Lexeme} (h : Cuts src l rest)
    (htyped : ∀ b ∈ src, isTyped b = true) : ∀ b ∈ l.spelling, isTyped b = true := by
  have hletter : ∀ b, isUpper b = true → isTyped b = true := by grind [isUpper, isTyped]
  intro b hb
  cases h with
  | @literal inside rest _ =>
    simp only [Lexeme.spelling, if_true, List.mem_cons, List.mem_append, List.not_mem_nil,
      or_false] at hb
    rcases hb with rfl | hb | rfl
    · decide
    · exact htyped b (List.mem_cons_of_mem _ (List.mem_append_left _ hb))
    · decide
  | openLiteral _ => exact htyped b (by simpa [Lexeme.spelling] using hb)
  | whole _ _ _ => exact (digit_spec (isDigit_of_mem_decimal hb)).1
  | word _ _ _ => exact hletter b (isUpper_of_mem_word _ b hb)
  | remark _ _ =>
    rcases List.mem_append.1 hb with hb | hb
    · exact hletter b (isUpper_of_mem_word _ b hb)
    · exact htyped b (List.mem_append_right _ hb)
  | name _ _ hends => exact (typed_of_name (hends.symm.imp And.left id) b hb).1
  | single hc hnot _ _ =>
    rw [spelling_single fun h => hnot (by simp [h])] at hb
    rwa [List.mem_singleton.1 hb]

/-- A respelled text is typed, like the text. -/
theorem typed_respell {expectsLine : Bool} {src : List UInt8} (htyped : ∀ b ∈ src, isTyped b = true)
    (h : isListable expectsLine src = true) : ∀ b ∈ respell src, isTyped b = true := by
  fun_induction respell src generalizing expectsLine with
  | case1 => exact htyped
  | case2 rest => exact htyped
  | case3 c rest hc hremark =>
    exact fun b hb => htyped b (List.mem_cons_of_mem _ (List.mem_of_mem_drop hb))
  | case4 c rest hc hremark ih =>
    intro b hb
    rcases List.mem_append.1 hb with hb | hb
    · exact (cuts_of_isListable hc htyped h).typed htyped b hb
    · exact ih (typed_lexeme_rest hc htyped) (isListable_cons hc h).2.2 b hb

/-! ## The code of a respelled text -/

/-- Crunching a text starts with the code of its first lexeme. -/
theorem Starts.body {src rest : List UInt8} {l : Lexeme} (h : Starts src l rest) (expectsLine : Bool) :
    Crunch.body expectsLine src =
      l.code (expectsLine && l.keeps) ++
        Crunch.body ((expectsLine && l.keeps) || l.expects) rest := by
  obtain ⟨c, tail, rfl, htyped, hc, hl⟩ := h
  have hcrunched : Crunch.lexeme expectsLine c tail = crunched expectsLine l rest := by
    by_cases htab : c = tab
    · subst htab
      obtain ⟨rfl, rfl⟩ : Lexeme.symbol tab = l ∧ tail = rest := Prod.mk.inj hl
      have hcode : Crunch.lexeme expectsLine tab tail =
          ⟨[tab], tail, expectsLine && Crunch.keepsExpecting tab⟩ := rfl
      have hkeeps : Crunch.keepsExpecting tab = (Lexeme.symbol tab).keeps := by decide
      have hexpects : (Lexeme.symbol tab).expects = false := rfl
      rw [hcode, hkeeps, crunched, hexpects, Bool.or_false]
      rfl
    · have hp : isPrintable c = true := by simpa [isTyped, isPrintable, htab] using htyped
      rw [crunched_lexeme expectsLine tail hp hc, hl]
  rw [Crunch.body, hcrunched]
  rfl

/-- An apostrophe becomes a comment, and is kept in it. -/
theorem body_apostrophe (expectsLine : Bool) (rest : List UInt8) :
    Crunch.body expectsLine (apostrophe :: rest) = colon :: rem :: apostrophe :: rest := by
  have hcode : Crunch.lexeme expectsLine apostrophe rest =
      ⟨colon :: rem :: apostrophe :: rest, [], expectsLine && Crunch.keepsExpecting apostrophe⟩ := rfl
  rw [Crunch.body, hcode, Crunch.body, List.append_nil]

theorem body_colon (expectsLine : Bool) (rest : List UInt8) :
    Crunch.body expectsLine (colon :: rest) = colon :: Crunch.body false rest := by
  have hcode : Crunch.lexeme expectsLine colon rest =
      ⟨[colon], rest, expectsLine && Crunch.keepsExpecting colon⟩ := rfl
  have hkeeps : Crunch.keepsExpecting colon = false := by decide
  rw [Crunch.body, hcode, hkeeps, Bool.and_false]
  rfl

/-- The text of a comment is kept as it was typed. -/
theorem body_remark (expectsLine : Bool) {src : List UInt8} (h : Crunch.keyword? src = some .REM) :
    Crunch.body expectsLine src = rem :: src.drop 3 := by
  obtain ⟨typed, htyped, hsrc⟩ := exists_typed_of_keyword? h
  cases typed with
  | nil => exact absurd htyped (by decide)
  | cons c more =>
    have hupper : upper c = 0x52 := (List.cons.inj htyped).1
    have hc : isLetter c = true := by
      rw [← isUpper_upper, hupper]
      decide
    have hword : word src = (.remark (src.drop 3), []) := by
      rw [word, h]
    have hstarts : Starts src (.remark (src.drop 3)) [] := by
      rw [hsrc, List.cons_append] at hword ⊢
      exact .of_word hc hword
    rw [hstarts.body, Crunch.body, List.append_nil]
    rfl

/-- A text and its respelling have the same code. -/
theorem body_respell {expectsLine : Bool} {src : List UInt8} (htyped : ∀ b ∈ src, isTyped b = true)
    (h : isListable expectsLine src = true) :
    Crunch.body expectsLine (respell src) = Crunch.body expectsLine src := by
  fun_induction respell src generalizing expectsLine with
  | case1 => rfl
  | case2 rest => rfl
  | case3 c rest hc hremark =>
    simp only [Bool.and_eq_true, decide_eq_true_eq] at hremark
    obtain ⟨rfl, hopens⟩ := hremark
    obtain ⟨hkey, t, ht⟩ := exists_of_opensRemark hopens
    rw [body_colon, body_remark false hkey, ht, body_apostrophe]
  | case4 c rest hc hremark ih =>
    have hlist := (isListable_cons hc h).2.2
    have hrest := typed_lexeme_rest hc htyped
    have hstarts := (cuts_of_isListable hc htyped h).starts (alike_respell hrest hlist)
    -- Both texts start with the code of one lexeme, and go on alike.
    rw [hstarts.body, (starts_lexeme hc htyped).body, Lexeme.code_normal, Lexeme.keeps_normal,
      Lexeme.expects_normal, ih hrest hlist]

end LineBasic.Source

import Mathlib.Data.List.TakeWhile
import LineBasic.Code.Scan
import LineBasic.Token.Crunch

/-!
# The lexical structure of code

The code of a line is made of whole lexemes: tokens with their operands, string literals, and a comment
at its end.

* `Code.LexicalIn`: code that is made of whole lexemes, with bytes of some kind in literals and comments.
* `Crunch.lexicalIn_body`: crunched text is, with the bytes of the text in its literals and comments.
* `Crunch.lexical_body`: in particular if the text holds any characters other than NUL.
-/

namespace LineBasic

open Token

/-- A property of all bytes can be checked on the numbers up to 255. -/
theorem forall_byte {P : UInt8 → Prop} (h : ∀ n : Fin 256, P (UInt8.ofNat n.val)) (b : UInt8) :
    P b := by
  have := h ⟨b.toNat, UInt8.toNat_lt b⟩
  rwa [UInt8.ofNat_toNat] at this

namespace Code

/-- Code that is made of whole lexemes; `P` holds of the bytes in its literals and comments. -/
inductive LexicalIn (P : UInt8 → Prop) : List UInt8 → Prop where
  | nil : LexicalIn P []
  /-- A token with its operand. -/
  | token {lead : UInt8} {operand rest : List UInt8} (hlead : lead ∉ [endLine, quote, rem])
      (hoperand : operand.length = operandLength lead) (hrest : LexicalIn P rest) :
      LexicalIn P (lead :: (operand ++ rest))
  /-- A string literal with both its quotes. -/
  | literal {inside rest : List UInt8} (hquote : quote ∉ inside) (hinside : ∀ b ∈ inside, P b)
      (hrest : LexicalIn P rest) : LexicalIn P (quote :: (inside ++ quote :: rest))
  /-- A string literal that the end of the line closes. -/
  | openLiteral {inside : List UInt8} (hquote : quote ∉ inside) (hinside : ∀ b ∈ inside, P b) :
      LexicalIn P (quote :: inside)
  /-- A comment reaches to the end of the line. -/
  | comment {text : List UInt8} (htext : ∀ b ∈ text, P b) : LexicalIn P (rem :: text)

/-- Code that is made of whole lexemes. -/
abbrev Lexical : List UInt8 → Prop :=
  LexicalIn (· ≠ endLine)

/-- A byte that is a token of its own. -/
def isPlain (b : UInt8) : Bool :=
  b ∉ [endLine, quote, rem] && operandLength b = 0

namespace LexicalIn

variable {P : UInt8 → Prop}

/-- A plain byte is a lexeme. -/
theorem plain {b : UInt8} {rest : List UInt8} (hb : isPlain b) (hrest : LexicalIn P rest) :
    LexicalIn P (b :: rest) := by
  simp only [isPlain, Bool.and_eq_true, decide_eq_true_eq] at hb
  have h : LexicalIn P (b :: ([] ++ rest)) := token hb.1 hb.2.symm hrest
  exact h

theorem operand {lead b : UInt8} {rest : List UInt8} (hlead : lead ∉ [endLine, quote, rem])
    (hone : operandLength lead = 1) (hrest : LexicalIn P rest) : LexicalIn P (lead :: b :: rest) := by
  have h : LexicalIn P (lead :: ([b] ++ rest)) := token hlead hone.symm hrest
  exact h

theorem plains {code rest : List UInt8} (hcode : ∀ b ∈ code, isPlain b) (hrest : LexicalIn P rest) :
    LexicalIn P (code ++ rest) := by
  induction code with
  | nil => exact hrest
  | cons b code ih =>
    exact plain (hcode b List.mem_cons_self) (ih fun c hc => hcode c (List.mem_cons_of_mem _ hc))

/-- No lexeme starts with the end of a line. -/
theorem head_ne_endLine {b : UInt8} {rest : List UInt8} (h : LexicalIn P (b :: rest)) : b ≠ endLine := by
  cases h with
  | token hlead =>
    rw [List.mem_cons, not_or] at hlead
    exact hlead.1
  | literal | openLiteral | comment => decide

theorem operandLength_of_isBlank {b : UInt8} (hb : isBlank b = true) : operandLength b = 0 := by
  simp only [isBlank, Bool.or_eq_true, decide_eq_true_eq] at hb
  rcases hb with (rfl | rfl) | rfl <;> decide

theorem tail_of_isBlank {b : UInt8} {rest : List UInt8} (hb : isBlank b = true)
    (h : LexicalIn P (b :: rest)) : LexicalIn P rest := by
  cases h with
  | token hlead hoperand hrest =>
    rw [operandLength_of_isBlank hb] at hoperand
    rwa [List.eq_nil_of_length_eq_zero hoperand]
  | literal | openLiteral | comment => exact absurd hb (by decide)

/-- Blanks are lexemes that can be passed. -/
theorem dropWhile_isBlank {code : List UInt8} (h : LexicalIn P code) :
    LexicalIn P (code.dropWhile isBlank) := by
  induction code with
  | nil => exact h
  | cons b rest ih =>
    by_cases hb : isBlank b = true
    · rw [List.dropWhile_cons_of_pos hb]
      exact ih (h.tail_of_isBlank hb)
    · rwa [List.dropWhile_cons_of_neg hb]

end LexicalIn

end Code

namespace Crunch

open Code

variable {P : UInt8 → Prop}

/-! ## The code of a lexeme -/

theorem isPlain_upper {b : UInt8} : isNameByte b = true → isPlain (upper b) = true :=
  forall_byte (P := fun b => isNameByte b = true → isPlain (upper b) = true) (by decide +kernel) b

theorem isPlain_sigil {b : UInt8} : isSigil b = true → isPlain b = true :=
  forall_byte (P := fun b => isSigil b = true → isPlain b = true) (by decide +kernel) b

theorem isPlain_symbol {b c : UInt8} (hc : c ≠ quote) :
    b ∈ symbol c → isPlain b = true :=
  forall_byte (P := fun c => c ≠ quote → ∀ b ∈ symbol c, isPlain b = true) (by decide +kernel) c hc b

/-- A keyword other than `REM` is a lexeme. -/
theorem lexicalIn_keyword {k : Keyword} (hk : k ≠ .REM) {rest : List UInt8} (hrest : LexicalIn P rest) :
    LexicalIn P (k.code ++ rest) := by
  have hcode : (∃ b, k.code = [b] ∧ isPlain b = true) ∨ ∃ b, k.code = [page, b] := by
    cases k <;> first
      | exact absurd rfl hk
      | exact .inl ⟨_, rfl, by decide⟩
      | exact .inr ⟨_, rfl⟩
  rcases hcode with ⟨b, hb, hp⟩ | ⟨b, hb⟩
  · rw [hb]
    exact .plain hp hrest
  · rw [hb]
    exact .operand (by decide) (by decide) hrest

theorem lexicalIn_splitName (src : List UInt8) {rest : List UInt8} (hrest : LexicalIn P rest) :
    LexicalIn P ((splitName src).1 ++ rest) := by
  refine .plains ?_ hrest
  have hstem : ∀ b ∈ (src.takeWhile isNameByte).map upper, isPlain b = true := by
    intro b hb
    obtain ⟨c, hc, rfl⟩ := List.mem_map.1 hb
    exact isPlain_upper (List.mem_takeWhile_imp hc)
  intro b hb
  unfold splitName at hb
  split at hb
  · exact hstem b hb
  · rename_i c r _
    split at hb
    · rename_i hc
      rcases List.mem_append.1 hb with hb | hb
      · exact hstem b hb
      · rw [List.mem_singleton.1 hb]
        exact isPlain_sigil hc
    · exact hstem b hb

theorem lexicalIn_wholeNumber (expectsLine : Bool) (digits : List UInt8) {rest : List UInt8}
    (hrest : LexicalIn P rest) : LexicalIn P (wholeNumber expectsLine digits ++ rest) := by
  have hsmall : ∀ n : Fin 10, isPlain (zero + UInt8.ofNat n.val) = true := by decide
  unfold wholeNumber
  simp only
  split
  · exact .token (by decide) (by rw [Endian.length_bytes]; decide) hrest
  · split
    · rename_i h
      exact .plain (hsmall ⟨_, Nat.lt_succ_of_le h⟩) hrest
    · split
      · exact .operand (by decide) (by decide) hrest
      · split
        · exact .token (by decide) (by rw [Endian.length_bytes]; decide) hrest
        · exact .token (by decide) (by rw [Endian.length_bytes]; decide) hrest

theorem lexicalIn_fraction (whole decimals : List UInt8) {rest : List UInt8}
    (hrest : LexicalIn P rest) : LexicalIn P (fraction whole decimals ++ rest) :=
  .token (by decide) (by rw [Endian.length_bytes]; decide) hrest

/-- A text is cut after its first quote, or it has none. -/
theorem afterQuote_cases (src : List UInt8) :
    (quote ∉ src ∧ afterQuote src = (src, [])) ∨
      ∃ inside rest, quote ∉ inside ∧ src = inside ++ quote :: rest ∧
        afterQuote src = (inside ++ [quote], rest) := by
  by_cases h : quote ∈ src
  · obtain ⟨inside, rest, rfl, hi⟩ := List.eq_append_cons_of_mem h
    have hp : ∀ b ∈ inside, decide (b ≠ quote) = true := fun b hb =>
      decide_eq_true (ne_of_mem_of_not_mem hb hi)
    refine .inr ⟨inside, rest, hi, rfl, ?_⟩
    simp only [afterQuote, List.takeWhile_append_of_pos hp, List.dropWhile_append_of_pos hp]
    simp
  · have hp : ∀ b ∈ src, decide (b ≠ quote) = true := fun b hb =>
      decide_eq_true (ne_of_mem_of_not_mem hb h)
    refine .inl ⟨h, ?_⟩
    simp only [afterQuote, List.takeWhile_eq_self_iff.2 hp, List.dropWhile_eq_nil_iff.2 hp]

/-- A literal, as it is cut off after its opening quote, and the code of the text after it. -/
theorem lexicalIn_afterQuote {src : List UInt8} (hsrc : ∀ b ∈ src, P b) {rest : List UInt8}
    (hrest : LexicalIn P rest) (hlast : (afterQuote src).2 = [] → rest = []) :
    LexicalIn P (quote :: ((afterQuote src).1 ++ rest)) := by
  rcases afterQuote_cases src with ⟨hq, h⟩ | ⟨inside, after, hq, rfl, h⟩
  · rw [hlast (by rw [h]), h, List.append_nil]
    exact .openLiteral hq hsrc
  · rw [h, List.append_assoc]
    exact .literal hq (fun b hb => hsrc b (List.mem_append_left _ hb)) hrest

/-- A number becomes a lexeme, whatever its form. -/
theorem lexicalIn_number (expectsLine : Bool) (src : List UInt8) {rest : List UInt8}
    (hrest : LexicalIn P rest) : LexicalIn P ((number expectsLine src).code ++ rest) := by
  unfold number
  split
  · exact lexicalIn_fraction _ _ hrest
  · exact lexicalIn_wholeNumber _ _ hrest

/-! ## The text after a lexeme -/

theorem afterQuote_suffix (src : List UInt8) : (afterQuote src).2 <:+ src := by
  rcases afterQuote_cases src with ⟨-, h⟩ | ⟨inside, rest, -, rfl, h⟩
  · rw [h]
    exact List.nil_suffix
  · rw [h]
    exact (List.suffix_cons quote rest).trans (List.suffix_append inside _)

theorem number_suffix (expectsLine : Bool) (src : List UInt8) :
    (number expectsLine src).rest <:+ src := by
  have h := List.dropWhile_suffix isDigit (l := src)
  unfold number
  split
  · rename_i r hr
    rw [hr] at h
    exact (List.dropWhile_suffix isDigit).trans ((List.suffix_cons _ r).trans h)
  · exact h

theorem splitName_suffix (src : List UInt8) : (splitName src).2 <:+ src := by
  have h := List.dropWhile_suffix isNameByte (l := src)
  unfold splitName
  split
  · exact List.nil_suffix
  · rename_i b r hr
    rw [hr] at h
    split
    · exact (List.suffix_cons b r).trans h
    · exact h

theorem word_suffix (expectsLine : Bool) (src : List UInt8) :
    (word expectsLine src).rest <:+ src := by
  unfold word
  split
  · exact List.nil_suffix
  · exact List.drop_suffix _ _
  · exact splitName_suffix src

/-- A lexeme takes the first bytes of the text. -/
theorem lexeme_suffix (expectsLine : Bool) (c : UInt8) (rest : List UInt8) :
    (lexeme expectsLine c rest).rest <:+ c :: rest := by
  unfold lexeme
  simp only
  split
  · exact (afterQuote_suffix rest).trans (List.suffix_cons c rest)
  · split
    · exact List.nil_suffix
    · split
      · exact number_suffix _ _
      · split
        · exact word_suffix _ _
        · exact List.suffix_cons c rest

/-! ## The code of a text -/

theorem lexicalIn_word {src : List UInt8} (expectsLine : Bool) (hsrc : ∀ b ∈ src, P b)
    {rest : List UInt8} (hrest : LexicalIn P rest)
    (hlast : (word expectsLine src).rest = [] → rest = []) :
    LexicalIn P ((word expectsLine src).code ++ rest) := by
  unfold word at hlast ⊢
  split at hlast
  · rw [hlast rfl, List.append_nil]
    exact .comment fun b hb => hsrc b (List.mem_of_mem_drop hb)
  · rename_i k hk _
    exact lexicalIn_keyword (fun h => hk (h ▸ rfl)) hrest
  · exact lexicalIn_splitName src hrest

/-- Every lexeme of text becomes whole lexemes of code. -/
theorem lexicalIn_lexeme {c : UInt8} {src : List UInt8} (expectsLine : Bool)
    (hsrc : ∀ b ∈ c :: src, P b) {rest : List UInt8} (hrest : LexicalIn P rest)
    (hlast : (lexeme expectsLine c src).rest = [] → rest = []) :
    LexicalIn P ((lexeme expectsLine c src).code ++ rest) := by
  have htail : ∀ b ∈ src, P b := fun b hb => hsrc b (List.mem_cons_of_mem c hb)
  unfold lexeme at hlast ⊢
  simp only at hlast ⊢
  split at hlast
  · rename_i hq
    rw [if_pos hq]
    exact lexicalIn_afterQuote htail hrest hlast
  · rename_i hq
    rw [if_neg hq]
    split at hlast
    · rename_i ha
      have hcomment : LexicalIn P (rem :: c :: src) := .comment hsrc
      rw [if_pos ha, hlast rfl, List.append_nil]
      exact .plain (by decide) hcomment
    · rename_i ha
      rw [if_neg ha]
      split at hlast
      · rename_i hn
        rw [if_pos hn]
        exact lexicalIn_number _ _ hrest
      · rename_i hn
        rw [if_neg hn]
        split at hlast
        · rename_i hl
          rw [if_pos hl]
          exact lexicalIn_word _ hsrc hrest hlast
        · rename_i hl
          rw [if_neg hl]
          exact .plains (fun b hb => isPlain_symbol hq hb) hrest

/-- Crunched text is made of whole lexemes, and its literals and comments hold bytes of the text. -/
theorem lexicalIn_body (expectsLine : Bool) {src : List UInt8} (hsrc : ∀ b ∈ src, P b) :
    LexicalIn P (body expectsLine src) := by
  fun_induction body expectsLine src with
  | case1 => exact .nil
  | case2 expectsLine c rest ih =>
    refine lexicalIn_lexeme expectsLine hsrc (ih fun b hb => ?_) fun h => ?_
    · exact hsrc b ((lexeme_suffix expectsLine c rest).subset hb)
    · rw [h, body]

/-- Text without zero bytes becomes whole lexemes. -/
theorem lexical_body (expectsLine : Bool) {src : List UInt8} (hend : endLine ∉ src) :
    Lexical (body expectsLine src) :=
  lexicalIn_body expectsLine fun _ hb => ne_of_mem_of_not_mem hb hend

end Crunch

end LineBasic

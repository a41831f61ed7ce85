import Mathlib
import LineBasic.Proofs.Program.Entry
import LineBasic.Proofs.Source.Spelling

/-!
# Blanks between tokens

A space and a tab separate the lexemes of a line alike.  But a tab, unlike a space, ends the stretch of text
in which numbers are line numbers.

* `Code.tokens`: the tokens of code, without the blanks between them.
* `Crunch.context`: whether a line number is expected after a text that is outside of literals and comments.
* `Crunch.body_append`: a text before a blank is crunched on its own.
* `Crunch.namesLine`: whether a line number comes while one is expected.
* `Crunch.tab_for_space_iff`: when a tab may stand for a space.
-/

namespace LineBasic

open Token Code

theorem Crunch.afterQuote_append {inside : List UInt8} (hquote : quote ∉ inside) (rest : List UInt8) :
    afterQuote (inside ++ quote :: rest) = (inside ++ [quote], rest) := by
  have hp : ∀ b ∈ inside, decide (b ≠ quote) = true := fun b hb =>
    decide_eq_true (ne_of_mem_of_not_mem hb hquote)
  simp only [afterQuote, List.takeWhile_append_of_pos hp, List.dropWhile_append_of_pos hp]
  simp

/-! ## Tokens -/

namespace Code

/-- The tokens of code: a lead byte with its operand, a string literal, or a comment.  Blanks between them
are left out. -/
def tokens : List UInt8 → List (List UInt8)
  | [] => []
  | c :: rest =>
    if isBlank c then tokens rest
    else if c = rem then [c :: rest]
    else if c = quote then (c :: (Crunch.afterQuote rest).1) :: tokens (Crunch.afterQuote rest).2
    else (c :: rest.take (operandLength c)) :: tokens (rest.drop (operandLength c))
termination_by code => code.length
decreasing_by
  · exact Nat.lt_succ_self _
  · exact Nat.lt_succ_of_le (Crunch.length_afterQuote_le rest)
  · rw [List.length_drop, List.length_cons]
    omega

/-- The tokens of a crunched line.  The marker of a numbered line is one of them. -/
def lineTokens : List UInt8 → List (List UInt8)
  | first :: a :: b :: lo :: hi :: rest =>
    if first = endLine then [first, a, b, lo, hi] :: tokens rest
    else tokens (first :: a :: b :: lo :: hi :: rest)
  | code => tokens code

theorem lineTokens_direct {b : UInt8} (hb : b ≠ endLine) (code : List UInt8) :
    lineTokens (b :: code) = tokens (b :: code) := by
  unfold lineTokens
  split
  · rename_i heq
    obtain ⟨rfl, rfl⟩ := List.cons.inj heq
    exact if_neg hb
  · rfl

/-- A blank is no token. -/
theorem tokens_blank {b : UInt8} (hb : isBlank b = true) (rest : List UInt8) :
    tokens (b :: rest) = tokens rest := by
  rw [tokens, if_pos hb]

/-- What does not begin with a blank begins with a token. -/
theorem exists_tokens_cons {b : UInt8} (hb : isBlank b = false) (rest : List UInt8) :
    ∃ more others, tokens (b :: rest) = (b :: more) :: others := by
  rw [tokens, if_neg (by simp [hb])]
  split
  · exact ⟨_, _, rfl⟩
  · split <;> exact ⟨_, _, rfl⟩

theorem tokens_token {lead : UInt8} {operand : List UInt8} (hlead : lead ∉ [endLine, quote, rem])
    (hoperand : operand.length = operandLength lead) (rest : List UInt8) :
    tokens (lead :: (operand ++ rest)) =
      (if isBlank lead then [] else [lead :: operand]) ++ tokens rest := by
  simp only [List.mem_cons, List.not_mem_nil, or_false, not_or] at hlead
  by_cases hb : isBlank lead = true
  · rw [LexicalIn.operandLength_of_isBlank hb] at hoperand
    rw [List.eq_nil_of_length_eq_zero hoperand, if_pos hb]
    exact tokens_blank hb rest
  · rw [tokens, if_neg hb, if_neg hb, if_neg hlead.2.2, if_neg hlead.2.1, ← hoperand, List.take_left,
      List.drop_left]
    rfl

/-- A literal is one token. -/
theorem tokens_literal {inside : List UInt8} (hquote : quote ∉ inside) (rest : List UInt8) :
    tokens (quote :: (inside ++ quote :: rest)) = (quote :: (inside ++ [quote])) :: tokens rest := by
  rw [tokens, if_neg (by decide), if_neg (by decide), if_pos rfl, Crunch.afterQuote_append hquote]

/-- The tokens of code that ends between lexemes do not depend on what follows it. -/
theorem tokens_append {code : List UInt8} (hcode : Closed code) (rest : List UInt8) :
    tokens (code ++ rest) = tokens code ++ tokens rest := by
  induction hcode with
  | nil => rw [tokens]; rfl
  | @token lead operand more hlead hoperand _ ih =>
    rw [List.cons_append, List.append_assoc, tokens_token hlead hoperand, tokens_token hlead hoperand, ih,
      List.append_assoc]
  | @literal inside more hquote _ ih =>
    rw [List.cons_append, List.append_assoc, List.cons_append, tokens_literal hquote,
      tokens_literal hquote, ih, List.cons_append]

/-- Code that stays made of whole lexemes if a colon is put behind it ends between lexemes: the colon is
in no literal and no comment. -/
theorem Closed.of_lexicalIn {code : List UInt8} (hcode : LexicalIn (fun _ => False) code)
    (hcolon : LexicalIn (fun _ => False) (code ++ [colon])) : Closed code := by
  induction hcode with
  | nil => exact .nil
  | @token lead operand rest hlead hoperand _ ih =>
    refine .token hlead hoperand (ih ?_)
    have happend : lead :: (operand ++ rest) ++ [colon] = (lead :: operand) ++ (rest ++ [colon]) := by simp
    rw [happend] at hcolon
    exact hcolon.of_closed_append (.single hlead hoperand)
  | @literal inside rest hquote _ _ ih =>
    refine .literal hquote (ih ?_)
    have happend : quote :: (inside ++ quote :: rest) ++ [colon] =
        (quote :: (inside ++ quote :: [])) ++ (rest ++ [colon]) := by simp
    rw [happend] at hcolon
    exact hcolon.of_closed_append (.literal hquote .nil)
  | @openLiteral inside hquote _ =>
    obtain ⟨hlead, -⟩ | ⟨-, inside', after, hsplit, -⟩ | ⟨-, -, hfalse⟩ | ⟨hrem, -⟩ := hcolon.cons_cases
    · simp at hlead
    · have hmem : quote ∈ inside ++ [colon] := by
        rw [show inside ++ [colon] = inside' ++ quote :: after from hsplit]
        simp
      rcases List.mem_append.1 hmem with hmem | hmem
      · exact absurd hmem hquote
      · exact absurd (List.mem_singleton.1 hmem) (by decide)
    · exact (hfalse colon (by simp)).elim
    · exact absurd hrem (by decide)
  | @comment text _ =>
    obtain ⟨hlead, -⟩ | ⟨hquote, -⟩ | ⟨hquote, -⟩ | ⟨-, hfalse⟩ := hcolon.cons_cases
    · simp at hlead
    · exact absurd hquote (by decide)
    · exact absurd hquote (by decide)
    · exact (hfalse colon (by simp)).elim

/-- Code without texts in it is closed if more may follow it. -/
theorem Closed.of_append {code : List UInt8} (h : ∀ {rest : List UInt8}, LexicalIn (fun _ => False) rest →
    LexicalIn (fun _ => False) (code ++ rest)) : Closed code := by
  have hnil := h .nil
  rw [List.append_nil] at hnil
  exact .of_lexicalIn hnil (h (.plain (by decide) .nil))

end Code

/-! ## Text before a blank -/

namespace Crunch

open Source

/-- The blanks that may be typed between lexemes. -/
def isSeparator (b : UInt8) : Bool :=
  b = space || b = tab

theorem isSeparator_spec {b : UInt8} (hb : isSeparator b = true) :
    isDigit b = false ∧ b ≠ point ∧ isUpper (upper b) = false ∧ isNameByte b = false ∧ isSigil b = false := by
  simp only [isSeparator, Bool.or_eq_true, decide_eq_true_eq] at hb
  rcases hb with rfl | rfl <;> decide

/-- Whether the first lexeme of a text is a comment or a string literal without an end, and so takes what
follows. -/
def runsOn (c : UInt8) (rest : List UInt8) : Bool :=
  c = apostrophe || (c = quote && !rest.contains quote) ||
    (isLetter c && keyword? (c :: rest) = some .REM)

/-- A lexeme that takes nothing of what follows it is no comment, and a literal with both its quotes. -/
theorem runsOn_eq_false {c : UInt8} {rest : List UInt8} (h : runsOn c rest = false) :
    c ≠ apostrophe ∧ (c = quote → ∃ inside after, quote ∉ inside ∧ rest = inside ++ quote :: after) ∧
      (isLetter c = true → keyword? (c :: rest) ≠ some .REM) := by
  simp only [runsOn, Bool.or_eq_false_iff, decide_eq_false_iff_not, Bool.and_eq_false_iff,
    Bool.not_eq_false'] at h
  obtain ⟨⟨hapostrophe, hquoted⟩, hremark⟩ := h
  refine ⟨hapostrophe, fun hquote => ?_, fun hletter => by simpa [hletter] using hremark⟩
  have hmem : quote ∈ rest := by simpa using hquoted.resolve_left (fun h => h hquote)
  obtain ⟨inside, after, hrest, hinside⟩ := List.eq_append_cons_of_mem hmem
  exact ⟨inside, after, hinside, hrest⟩

/-- Whether a line number is expected after a text; none if it ends within a comment or a string
literal. -/
def context (expectsLine : Bool) : List UInt8 → Option Bool
  | [] => some expectsLine
  | c :: rest =>
    if runsOn c rest then none
    else context (lexeme expectsLine c rest).expectsLine (lexeme expectsLine c rest).rest
termination_by src => src.length
decreasing_by exact length_lexeme_rest_lt _ _ _

section

variable {b : UInt8} (hb : isSeparator b = true) (post : List UInt8)

theorem span_append {p : UInt8 → Bool} (hp : p b = false) (src : List UInt8) :
    (src ++ b :: post).takeWhile p = src.takeWhile p ∧
      (src ++ b :: post).dropWhile p = src.dropWhile p ++ b :: post := by
  induction src with
  | nil => simp [hp]
  | cons c src ih =>
    by_cases hc : p c = true
    · simp [hc, ih]
    · simp [hc]

include hb

/-- A separator after a number does not change it. -/
theorem number_append (expectsLine : Bool) (src : List UInt8) :
    number expectsLine (src ++ b :: post) =
      ⟨(number expectsLine src).code, (number expectsLine src).rest ++ b :: post,
        (number expectsLine src).expectsLine⟩ := by
  obtain ⟨hdigit, hpoint, -⟩ := isSeparator_spec hb
  obtain ⟨htake, hdrop⟩ := span_append post hdigit src
  by_cases h : ∃ rest, src.dropWhile isDigit = 0x2E :: rest
  · obtain ⟨rest, h⟩ := h
    obtain ⟨htake', hdrop'⟩ := span_append post hdigit rest
    simp only [number, htake, hdrop, h, List.cons_append, htake', hdrop']
  · rw [crunch_number_whole expectsLine (not_exists.1 h), crunch_number_whole expectsLine, htake, hdrop]
    intro rest hrest
    rw [hdrop] at hrest
    cases hsrc : src.dropWhile isDigit with
    | nil =>
      rw [hsrc] at hrest
      exact hpoint (List.cons.inj hrest).1
    | cons c r =>
      rw [hsrc] at hrest
      obtain ⟨rfl, -⟩ := List.cons.inj hrest
      exact h ⟨r, hsrc⟩

/-- Nor does one after a keyword. -/
theorem keyword?_append (src : List UInt8) : keyword? (src ++ b :: post) = keyword? src := by
  obtain ⟨-, -, hupper, -⟩ := isSeparator_spec hb
  refine keyword?_congr ?_
  unfold letters
  rw [List.map_append, List.map_cons]
  induction src with
  | nil => simp [hupper]
  | cons c src ih => by_cases hc : isUpper (upper c) = true <;> simp [hc, ih]

/-- Nor one after a name. -/
theorem splitName_append (src : List UInt8) :
    splitName (src ++ b :: post) = ((splitName src).1, (splitName src).2 ++ b :: post) := by
  obtain ⟨-, -, -, hname, hsigil⟩ := isSeparator_spec hb
  obtain ⟨htake, hdrop⟩ := span_append post hname src
  unfold splitName
  rw [htake, hdrop]
  cases src.dropWhile isNameByte with
  | nil => simp [hsigil]
  | cons c rest => by_cases hc : isSigil c = true <;> simp [hc]

theorem word_append (expectsLine : Bool) {src : List UInt8} (hrem : keyword? src ≠ some .REM) :
    word expectsLine (src ++ b :: post) =
      ⟨(word expectsLine src).code, (word expectsLine src).rest ++ b :: post,
        (word expectsLine src).expectsLine⟩ := by
  have hkey := keyword?_append hb post src
  cases h : keyword? src with
  | none =>
    rw [h] at hkey
    simp only [word, hkey, h, splitName_append hb]
  | some k =>
    rw [h] at hkey
    obtain ⟨typed, htyped, happend⟩ := exists_typed_of_keyword? h
    have hlength : k.word.utf8ByteSize = typed.length := by
      rw [← List.length_map (f := upper), htyped]
      rfl
    have hdrop : (src ++ b :: post).drop k.word.utf8ByteSize =
        src.drop k.word.utf8ByteSize ++ b :: post := by
      refine List.drop_append_of_le_length ?_
      rw [hlength, happend, List.length_append]
      omega
    have hword : ∀ src', keyword? src' = some k → word expectsLine src' =
        ⟨k.code, src'.drop k.word.utf8ByteSize, expectsLine || k.expectsLine⟩ := by
      intro src' hsrc
      unfold word
      rw [hsrc]
      cases k <;> first
        | rfl
        | exact absurd h hrem
    rw [hword _ hkey, hword _ h, hdrop]

/-- A lexeme that ends is the same before a blank. -/
theorem lexeme_append {c : UInt8} {rest : List UInt8} (hruns : runsOn c rest = false) (expectsLine : Bool) :
    lexeme expectsLine c (rest ++ b :: post) =
      ⟨(lexeme expectsLine c rest).code, (lexeme expectsLine c rest).rest ++ b :: post,
        (lexeme expectsLine c rest).expectsLine⟩ := by
  obtain ⟨hdigit, -⟩ := isSeparator_spec hb
  obtain ⟨hapostrophe, hquoted, hremark⟩ := runsOn_eq_false hruns
  have hhead : (rest ++ b :: post).head?.any isDigit = rest.head?.any isDigit := by
    cases rest with
    | nil => simp [hdigit]
    | cons d rest => rfl
  unfold lexeme
  simp only [hhead]
  by_cases hquote : c = quote
  · obtain ⟨inside, after, hinside, rfl⟩ := hquoted hquote
    simp only [hquote, if_true]
    rw [List.append_assoc, List.cons_append, afterQuote_append hinside, afterQuote_append hinside]
  · simp only [hquote, hapostrophe, if_false]
    split
    · rw [← List.cons_append, number_append hb]
    · split
      · rename_i hletter
        rw [← List.cons_append, word_append hb post _ (hremark hletter)]
      · rfl

end

/-- A lexeme that ends is closed code. -/
theorem closed_lexeme {c : UInt8} {rest : List UInt8} (hruns : runsOn c rest = false) (expectsLine : Bool) :
    Closed (lexeme expectsLine c rest).code := by
  obtain ⟨hapostrophe, hquoted, hremark⟩ := runsOn_eq_false hruns
  unfold lexeme
  by_cases hquote : c = quote
  · obtain ⟨inside, after, hinside, rfl⟩ := hquoted hquote
    simp only [hquote, if_true]
    rw [afterQuote_append hinside]
    exact .literal hinside .nil
  · simp only [hquote, hapostrophe, if_false]
    split
    · exact .of_append fun hmore => lexicalIn_number _ _ hmore
    · split
      · rename_i hletter
        refine .of_append fun hmore => ?_
        unfold word
        split
        · rename_i hrem
          exact absurd hrem (hremark hletter)
        · rename_i k hk _
          exact lexicalIn_keyword (fun h => hk (h ▸ rfl)) hmore
        · exact lexicalIn_splitName _ hmore
      · exact .plains fun b hb => isPlain_symbol hquote hb

/-- A text that ends outside of literals and comments is crunched on its own, if a blank comes next. -/
theorem body_append {expectsLine expectsLine' : Bool} {src : List UInt8}
    (h : context expectsLine src = some expectsLine') :
    Closed (body expectsLine src) ∧ ∀ {b : UInt8}, isSeparator b = true → ∀ post,
      body expectsLine (src ++ b :: post) = body expectsLine src ++ body expectsLine' (b :: post) := by
  fun_induction context expectsLine src with
  | case1 expectsLine =>
    cases h
    rw [body]
    exact ⟨.nil, fun _ _ => rfl⟩
  | case2 expectsLine c rest hruns => cases h
  | case3 expectsLine c rest hruns ih =>
    have hruns : runsOn c rest = false := by simpa using hruns
    obtain ⟨hclosed, happend⟩ := ih h
    rw [body]
    refine ⟨(closed_lexeme hruns expectsLine).append hclosed, fun hb post => ?_⟩
    rw [List.cons_append, body, lexeme_append hb post hruns]
    simp only
    rw [happend hb post, List.append_assoc]

/-! ## Where numbers are line numbers -/

/-- Whether a text starts with a number that may be that of a line. -/
def startsWithLine (src : List UInt8) : Bool :=
  !(src.takeWhile isDigit).isEmpty && (src.dropWhile isDigit).head? ≠ some point &&
    decimalValue (src.takeWhile isDigit) ≤ 65535

/-- Whether a text, at a place where line numbers are expected, has one before anything after which they
are not. -/
def namesLine : List UInt8 → Bool
  | [] => false
  | c :: rest => keepsExpecting c && (startsWithLine (c :: rest) || namesLine (lexeme true c rest).rest)
termination_by src => src.length
decreasing_by exact length_lexeme_rest_lt _ _ _

theorem body_space (expectsLine : Bool) (rest : List UInt8) :
    body expectsLine (space :: rest) = space :: body expectsLine rest := by
  have hcode : lexeme expectsLine space rest = ⟨[space], rest, expectsLine && keepsExpecting space⟩ := rfl
  have hkeeps : keepsExpecting space = true := by decide
  rw [body, hcode, hkeeps, Bool.and_true]
  rfl

/-- After a tab no line number is expected. -/
theorem body_tab (expectsLine : Bool) (rest : List UInt8) :
    body expectsLine (tab :: rest) = tab :: body false rest := by
  have hcode : lexeme expectsLine tab rest = ⟨[tab], rest, expectsLine && keepsExpecting tab⟩ := rfl
  have hkeeps : keepsExpecting tab = false := by decide
  rw [body, hcode, hkeeps, Bool.and_false]
  rfl

/-- A number above 65535 is crunched alike, whether or not a line number is expected. -/
theorem wholeNumber_of_lt {digits : List UInt8} (h : 65535 < decimalValue digits) (expectsLine : Bool) :
    wholeNumber expectsLine digits = wholeNumber false digits := by
  have hlarge : ¬ min (decimalValue digits) 4294967295 ≤ 65535 := by omega
  simp [wholeNumber, hlarge]

/-- Where a line number is expected, its token is another. -/
theorem exists_leads {digits : List UInt8} (h : decimalValue digits ≤ 65535) :
    (∃ operand, wholeNumber true digits = lineNumber :: operand) ∧
      ∃ b operand, wholeNumber false digits = b :: operand ∧ isBlank b = false ∧ b ≠ lineNumber := by
  have hmin : min (decimalValue digits) 4294967295 = decimalValue digits := by omega
  unfold wholeNumber
  simp only [hmin]
  constructor
  · simp [h]
  · have hsmall : ∀ n : Fin 10, isBlank (zero + UInt8.ofNat n.val) = false ∧
        zero + UInt8.ofNat n.val ≠ lineNumber := by decide
    simp only [Bool.false_and, Bool.false_eq_true, if_false]
    split
    · rename_i hle
      exact ⟨_, _, rfl, hsmall ⟨_, Nat.lt_succ_of_le hle⟩⟩
    · split
      · exact ⟨_, _, rfl, by decide⟩
      · split <;> exact ⟨_, _, rfl, by decide⟩

theorem lexeme_digit {c : UInt8} (hc : isDigit c = true) (expectsLine : Bool) (rest : List UInt8) :
    lexeme expectsLine c rest = number expectsLine (c :: rest) := by
  have hspec : c ≠ quote ∧ c ≠ apostrophe := by grind [isDigit, quote, apostrophe]
  have hkeeps : keepsExpecting c = true := by simp [keepsExpecting, hc]
  simp [lexeme, hspec.1, hspec.2, hc, hkeeps]

/-- After what a line number may still follow, code is the same whether or not one is expected, unless it is
a line number itself. -/
theorem lexeme_of_keeps {c : UInt8} {rest : List UInt8} (hc : keepsExpecting c = true)
    (hline : startsWithLine (c :: rest) = false) :
    ∃ code after, Closed code ∧ ∀ expectsLine, lexeme expectsLine c rest = ⟨code, after, expectsLine⟩ := by
  have hruns : runsOn c rest = false := by
    have hnot : c ≠ apostrophe ∧ c ≠ quote ∧ isLetter c = false := by
      grind [keepsExpecting, space, comma, hyphen, isDigit, apostrophe, quote, isLetter, isUpper, isLower]
    simp [runsOn, hnot]
  have hclosed := closed_lexeme hruns false
  by_cases hdigit : isDigit c = true
  · rw [lexeme_digit hdigit] at hclosed
    refine ⟨_, (number false (c :: rest)).rest, hclosed, fun expectsLine => ?_⟩
    rw [lexeme_digit hdigit]
    by_cases hpoint : ∃ after, (c :: rest).dropWhile isDigit = 0x2E :: after
    · obtain ⟨after, hpoint⟩ := hpoint
      simp only [number, hpoint]
    · have hhead : ((c :: rest).dropWhile isDigit).head? ≠ some point := fun hhead => by
        obtain ⟨after, hafter⟩ := List.head?_eq_some_iff.1 hhead
        exact hpoint ⟨after, hafter⟩
      have hlarge : 65535 < decimalValue ((c :: rest).takeWhile isDigit) := by
        have hne : ((c :: rest).takeWhile isDigit).isEmpty = false := by simp [hdigit]
        simpa [startsWithLine, hne, hhead] using hline
      rw [crunch_number_whole expectsLine (not_exists.1 hpoint),
        crunch_number_whole false (not_exists.1 hpoint), wholeNumber_of_lt hlarge]
  · have hsymbol : c = space ∨ c = comma ∨ c = hyphen := by
      simpa [keepsExpecting, hdigit, or_assoc] using hc
    refine ⟨_, rest, hclosed, fun expectsLine => ?_⟩
    rcases hsymbol with rfl | rfl | rfl <;> cases expectsLine <;> rfl

/-- The first token of a text tells whether a line number is expected, if it is one. -/
theorem tokens_ne_of_startsWithLine {c : UInt8} {rest : List UInt8}
    (hline : startsWithLine (c :: rest) = true) (tail : List UInt8) :
    tokens (body true (c :: rest) ++ tail) ≠ tokens (body false (c :: rest) ++ tail) := by
  simp only [startsWithLine, Bool.and_eq_true, decide_eq_true_eq] at hline
  obtain ⟨⟨hne, hpoint⟩, hle⟩ := hline
  have hdigit : isDigit c = true := by
    by_contra hdigit
    simp [hdigit] at hne
  have hwhole : ∀ after, (c :: rest).dropWhile isDigit ≠ 0x2E :: after := fun after hafter =>
    hpoint (by rw [hafter]; rfl)
  obtain ⟨⟨operand, htrue⟩, b, operand', hfalse, hblank, hb⟩ := exists_leads hle
  intro htokens
  simp only [body, lexeme_digit hdigit, crunch_number_whole _ hwhole, htrue, hfalse,
    List.cons_append] at htokens
  obtain ⟨more, others, hleft⟩ := exists_tokens_cons (b := lineNumber) (by decide)
    (operand ++ body true ((c :: rest).dropWhile isDigit) ++ tail)
  obtain ⟨more', others', hright⟩ := exists_tokens_cons hblank
    (operand' ++ body false ((c :: rest).dropWhile isDigit) ++ tail)
  rw [hleft, hright] at htokens
  exact hb (List.cons.inj (List.cons.inj htokens).1).1.symm

/-- The tokens of a text tell whether a line number is expected before it exactly if it names a line. -/
theorem tokens_body_iff (src tail : List UInt8) :
    tokens (body true src ++ tail) = tokens (body false src ++ tail) ↔ namesLine src = false := by
  fun_induction namesLine src with
  | case1 => simp [body]
  | case2 c rest ih =>
    by_cases hc : keepsExpecting c = true
    · by_cases hline : startsWithLine (c :: rest) = true
      · exact iff_of_false (tokens_ne_of_startsWithLine hline tail) (by simp [hc, hline])
      · obtain ⟨code, after, hclosed, hlexeme⟩ := lexeme_of_keeps hc (by simpa using hline)
        simp only [hlexeme] at ih
        simp only [body, hlexeme, List.append_assoc, tokens_append hclosed, List.append_cancel_left_eq, ih]
        simp [hc, hline]
    · -- nothing after this lexeme is a line number because of what stands before it
      have hlexeme : lexeme true c rest = lexeme false c rest := by
        simp [lexeme, hc]
      simp [body, hlexeme, hc]

/-! ## Lines -/

/-- The text of a line after its number and the spaces behind that. -/
def lineText (src : List UInt8) : List UInt8 :=
  ((lineNumber? (src.dropWhile isSeparator)).map Prod.snd).getD (src.dropWhile isSeparator)

/-- What the code of a numbered line begins with. -/
def lineMark (src : List UInt8) : List UInt8 :=
  ((lineNumber? (src.dropWhile isSeparator)).map fun r => endLine :: unlinked ++ Endian.word r.1).getD []

/-- A crunched line: its mark, its code and its end. -/
theorem bytes_eq (src : List UInt8) :
    bytes src = lineMark (trimEnd src) ++ (body false (lineText (trimEnd src)) ++ [endLine]) := by
  have hblanks : (fun b => decide (b = space) || decide (b = tab)) = isSeparator := rfl
  unfold bytes lineMark lineText
  simp only [hblanks]
  cases lineNumber? ((trimEnd src).dropWhile isSeparator) with
  | some r => simp
  | none => rfl

theorem lineTokens_bytes (src : List UInt8) :
    lineTokens (bytes src) = (if lineMark (trimEnd src) = [] then [] else [lineMark (trimEnd src)]) ++
      tokens (body false (lineText (trimEnd src)) ++ [endLine]) := by
  have hlexical := @lexicalIn_body (fun _ => True) false (lineText (trimEnd src)) fun _ _ => trivial
  rw [bytes_eq]
  unfold lineMark
  generalize body false (lineText (trimEnd src)) = code at hlexical
  cases lineNumber? ((trimEnd src).dropWhile isSeparator) with
  | some r => rfl
  | none =>
    show lineTokens (code ++ [endLine]) = tokens (code ++ [endLine])
    cases code with
    | nil => rfl
    | cons b code => exact lineTokens_direct hlexical.head_ne_endLine (code ++ [endLine])

/-- Spaces before a text do not matter to its tokens. -/
theorem tokens_dropWhile_space (src tail : List UInt8) :
    tokens (body false (src.dropWhile (· = space)) ++ tail) = tokens (body false src ++ tail) := by
  induction src with
  | nil => rfl
  | cons c src ih =>
    by_cases hc : c = space
    · subst hc
      rw [List.dropWhile_cons_of_pos (by decide), ih, body_space, List.cons_append,
        tokens_blank (by decide)]
    · rw [List.dropWhile_cons_of_neg (by simpa using hc)]

section

variable {b : UInt8} (hb : isSeparator b = true) (post : List UInt8)

include hb

theorem lineNumber?_append (src : List UInt8) :
    lineNumber? (src ++ b :: post) = (lineNumber? src).map fun r =>
      (r.1, (src.dropWhile isDigit ++ b :: post).dropWhile (· = space)) := by
  obtain ⟨hdigit, -⟩ := isSeparator_spec hb
  obtain ⟨htake, hdrop⟩ := span_append post hdigit src
  unfold lineNumber?
  simp only [htake, hdrop]
  split <;> rfl

/-- A blank inside a line changes nothing before it. -/
theorem tokens_lineText_append {before tail : List UInt8} {expectsLine : Bool}
    (hbefore : before.dropWhile isSeparator ≠ [])
    (hcontext : context false (lineText before) = some expectsLine) :
    lineMark (before ++ b :: post) = lineMark before ∧
      tokens (body false (lineText (before ++ b :: post)) ++ tail) =
        tokens (body false (lineText before)) ++ tokens (body expectsLine (b :: post) ++ tail) := by
  obtain ⟨hclosed, happend⟩ := body_append hcontext
  have hdrop : (before ++ b :: post).dropWhile isSeparator = before.dropWhile isSeparator ++ b :: post := by
    rw [List.dropWhile_append, if_neg (by simpa using hbefore)]
  have hnumber := lineNumber?_append hb post (before.dropWhile isSeparator)
  unfold lineMark
  rw [hdrop, hnumber]
  refine ⟨by rw [Option.map_map]; rfl, ?_⟩
  rw [← tokens_append hclosed, ← List.append_assoc, ← happend hb post]
  unfold lineText at hcontext ⊢
  rw [hdrop, hnumber]
  cases h : lineNumber? (before.dropWhile isSeparator) with
  | none => rfl
  | some r =>
    rw [h] at hcontext
    have hrest : r.2 = ((before.dropWhile isSeparator).dropWhile isDigit).dropWhile (· = space) := by
      unfold lineNumber? at h
      simp only at h
      split at h
      · cases h
      · cases h
        rfl
    show tokens (body false (((before.dropWhile isSeparator).dropWhile isDigit ++ b :: post).dropWhile
      (· = space)) ++ tail) = tokens (body false (r.2 ++ b :: post) ++ tail)
    rw [List.dropWhile_append, ← hrest]
    split
    · rename_i hnil
      rw [List.isEmpty_iff.1 hnil, List.nil_append]
      exact tokens_dropWhile_space _ _
    · rfl

end

/-- A tab and a space that stand at one place of a line, outside of string literals and comments, lead to
the same tokens exactly if no line number is expected there, or none comes before something after which
none is expected. -/
theorem tab_for_space_iff {before : String} {expectsLine : Bool} (after : String)
    (hcontext : context false (lineText (Text.utf8 before)) = some expectsLine) :
    lineTokens (line (before ++ "\t" ++ after)) = lineTokens (line (before ++ " " ++ after)) ↔
      (expectsLine = true → namesLine (trimEnd (Text.utf8 after)) = false) := by
  have htab : isSeparator tab = true := by decide
  have hspace : isSeparator space = true := by decide
  have hutf8 : Text.utf8 "\t" = [tab] ∧ Text.utf8 " " = [space] := by decide
  simp only [line, Text.utf8_append, hutf8, List.append_assoc, List.singleton_append]
  rw [lineTokens_bytes, lineTokens_bytes, Program.trimEnd_append_cons (by decide),
    Program.trimEnd_append_cons (by decide)]
  generalize Text.utf8 before = before at hcontext ⊢
  generalize trimEnd (Text.utf8 after) = after
  by_cases hbefore : before.dropWhile isSeparator = []
  · -- blanks at the start of a line are dropped
    have hdrop : ∀ b, isSeparator b = true →
        (before ++ b :: after).dropWhile isSeparator = after.dropWhile isSeparator := fun b hb => by
      rw [List.dropWhile_append, if_pos (by simp [hbefore]), List.dropWhile_cons_of_pos hb]
    have hexpects : expectsLine = false := by
      unfold lineText at hcontext
      rw [hbefore] at hcontext
      simpa [lineNumber?, context] using hcontext.symm
    unfold lineMark lineText
    rw [hdrop tab htab, hdrop space hspace]
    simp [hexpects]
  · obtain ⟨hmark, htokens⟩ :=
      @tokens_lineText_append tab htab after before [endLine] expectsLine hbefore hcontext
    obtain ⟨hmark', htokens'⟩ :=
      @tokens_lineText_append space hspace after before [endLine] expectsLine hbefore hcontext
    rw [hmark, hmark', htokens, htokens', body_tab, body_space, List.cons_append, List.cons_append,
      tokens_blank (by decide), tokens_blank (by decide), List.append_cancel_left_eq,
      List.append_cancel_left_eq]
    cases expectsLine with
    | false => simp
    | true =>
      rw [eq_comm, tokens_body_iff]
      simp

/-- A line number may come after `RESUME`, but here a word does. -/
theorem tab_for_space_resume :
    lineTokens (line "10 RESUME\tNEXT:GOTO 20") = lineTokens (line "10 RESUME NEXT:GOTO 20") := by
  have hcontext : context false (lineText (Text.utf8 "10 RESUME")) = some true := by cbv
  have hnames : namesLine (trimEnd (Text.utf8 "NEXT:GOTO 20")) = false := by cbv
  exact (tab_for_space_iff "NEXT:GOTO 20" hcontext).2 fun _ => hnames

/-- After a tab the target of a jump is no line number. -/
theorem tab_changes_target :
    lineTokens (line "GOTO\t10") = [Keyword.GOTO.code, [byteConstant, 10], [endLine]] ∧
      lineTokens (line "GOTO 10") = [Keyword.GOTO.code, [lineNumber, 10, 0], [endLine]] := by
  constructor <;> cbv

end Crunch

end LineBasic

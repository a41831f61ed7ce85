import LineBasic.Proofs.Code.Lexical

/-!
# The lexemes of source text

A line of text is a sequence of statements, and a statement a sequence of lexemes.  Colons separate
statements; an apostrophe does too, and starts a comment.

* `Lexeme`, `split`: the lexemes of the statements of a line.
* `encode`: the code of the lexemes of a statement.
* `body_eq_code`: crunching a line gives the code of its lexemes.
-/

namespace LineBasic.Source

open Token

/-- A piece of source text. -/
inductive Lexeme where
  | blank
  | word (k : Keyword)
  /-- A comment, up to the end of the line. -/
  | remark (text : List UInt8)
  /-- A name in upper case, with its type mark. -/
  | name (text : List UInt8)
  | whole (digits : List UInt8)
  | fraction (digits decimals : List UInt8)
  /-- A string literal; the end of the line closes one that is left open. -/
  | text (inside : List UInt8) (closed : Bool)
  | operator (o : Operator)
  | symbol (b : UInt8)
  deriving DecidableEq, Repr

/-- The characters of source text. -/
def isPrintable (b : UInt8) : Bool :=
  0x20 ≤ b && b ≤ 0x7E

/-! ## From text to lexemes -/

/-- A number: digits, then perhaps a point and more digits. -/
def number (src : List UInt8) : Lexeme × List UInt8 :=
  match src.dropWhile isDigit with
  | 0x2E :: rest =>
    (.fraction (src.takeWhile isDigit) (rest.takeWhile isDigit), rest.dropWhile isDigit)
  | rest => (.whole (src.takeWhile isDigit), rest)

/-- A keyword or, failing that, a name. -/
def word (src : List UInt8) : Lexeme × List UInt8 :=
  match Crunch.keyword? src with
  | some .REM => (.remark (src.drop 3), [])
  | some k => (.word k, src.drop k.word.utf8ByteSize)
  | none => (.name (splitName src).1, (splitName src).2)

/-- A character that stands alone. -/
def single (c : UInt8) : Lexeme :=
  if c = space then .blank
  else if c = question then .word .PRINT
  else match Operator.ofSymbol? c with
    | some o => .operator o
    | none => .symbol c

/-- The first lexeme of the text `c :: rest`, and the text after it. -/
def lexeme (c : UInt8) (rest : List UInt8) : Lexeme × List UInt8 :=
  if c = quote then
    (.text (rest.takeWhile (· ≠ quote)) (rest.contains quote), (Crunch.afterQuote rest).2)
  else if isDigit c || (c = point && rest.head?.any isDigit) then number (c :: rest)
  else if isLetter c then word (c :: rest)
  else (single c, rest)

/-- A number without a point is whole. -/
theorem number_whole {src : List UInt8} (h : ∀ rest, src.dropWhile isDigit ≠ 0x2E :: rest) :
    number src = (.whole (src.takeWhile isDigit), src.dropWhile isDigit) := by
  unfold number
  split
  · rename_i rest hpoint
    exact absurd hpoint (h rest)
  · rfl

theorem crunch_number_whole (expectsLine : Bool) {src : List UInt8}
    (h : ∀ rest, src.dropWhile isDigit ≠ 0x2E :: rest) :
    Crunch.number expectsLine src =
      ⟨Crunch.wholeNumber expectsLine (src.takeWhile isDigit), src.dropWhile isDigit, expectsLine⟩ := by
  unfold Crunch.number
  split
  · rename_i rest hpoint
    exact absurd hpoint (h rest)
  · rfl

theorem number_rest (expectsLine : Bool) (src : List UInt8) :
    (number src).2 = (Crunch.number expectsLine src).rest := by
  by_cases h : ∃ rest, src.dropWhile isDigit = 0x2E :: rest
  · obtain ⟨rest, h⟩ := h
    simp only [number, Crunch.number, h]
  · rw [number_whole (not_exists.1 h), crunch_number_whole expectsLine (not_exists.1 h)]

theorem word_rest (expectsLine : Bool) (src : List UInt8) :
    (word src).2 = (Crunch.word expectsLine src).rest := by
  unfold word Crunch.word
  cases Crunch.keyword? src with
  | none => rfl
  | some k => cases k <;> rfl

theorem lexeme_rest (expectsLine : Bool) {c : UInt8} (hc : c ≠ apostrophe) (rest : List UInt8) :
    (lexeme c rest).2 = (Crunch.lexeme expectsLine c rest).rest := by
  unfold lexeme Crunch.lexeme
  simp only [hc, if_false]
  split
  · rfl
  · split
    · exact number_rest _ _
    · split
      · exact word_rest _ _
      · rfl

theorem length_lexeme_rest_lt {c : UInt8} (hc : c ≠ apostrophe) (rest : List UInt8) :
    (lexeme c rest).2.length < (c :: rest).length := by
  rw [lexeme_rest false hc]
  exact Crunch.length_lexeme_rest_lt false c rest

/-- The lexemes of the first statement of a line, and of the statements after it. -/
def split : List UInt8 → List Lexeme × List (List Lexeme)
  | [] => ([], [])
  | c :: rest =>
    if _hc : c = apostrophe then ([], [[.remark (c :: rest)]])
    else if c = colon then ([], (split rest).1 :: (split rest).2)
    else
      ((lexeme c rest).1 :: (split (lexeme c rest).2).1, (split (lexeme c rest).2).2)
termination_by src => src.length
decreasing_by
  all_goals first
    | exact length_lexeme_rest_lt _hc rest
    | exact Nat.lt_succ_self _

/-- Lexemes without the blanks. -/
def strip (ls : List Lexeme) : List Lexeme :=
  ls.filter (· ≠ .blank)

/-! ## From lexemes to code -/

namespace Lexeme

/-- The code of a lexeme; a whole number may be a line number. -/
def code (asLine : Bool) : Lexeme → List UInt8
  | blank => [space]
  | word k => k.code
  | remark t => rem :: t
  | name t => t
  | whole digits => Crunch.wholeNumber asLine digits
  | fraction digits decimals => Crunch.fraction digits decimals
  | text inside closed => quote :: (inside ++ if closed then [quote] else [])
  | operator o => [o.code]
  | symbol b => [b]

/-- Whether a number after this lexeme may still be a line number, if one before it might. -/
def keeps : Lexeme → Bool
  | blank | whole _ => true
  | fraction digits _ => !digits.isEmpty
  | operator o => o = .minus
  | symbol b => b = comma
  | _ => false

/-- Whether a number after this lexeme is a line number. -/
def expects : Lexeme → Bool
  | word k => k.expectsLine
  | _ => false

end Lexeme

/-- The code of the lexemes of a statement. -/
def encode (expectsLine : Bool) : List Lexeme → List UInt8
  | [] => []
  | l :: rest =>
    l.code (expectsLine && l.keeps) ++ encode ((expectsLine && l.keeps) || l.expects) rest

/-- The code of statements, each after a colon. -/
def encodeAfter (pieces : List (List Lexeme)) : List UInt8 :=
  pieces.flatMap fun piece => colon :: encode false piece

/-! ## Crunching gives the code of the lexemes -/

/-- A crunched lexeme, told from the lexeme. -/
def crunched (expectsLine : Bool) (l : Lexeme) (rest : List UInt8) : Crunch.Lexeme where
  code := l.code (expectsLine && l.keeps)
  rest := rest
  expectsLine := (expectsLine && l.keeps) || l.expects

theorem keepsExpecting_letter {c : UInt8} : isLetter c = true → Crunch.keepsExpecting c = false :=
  forall_byte (P := fun c => isLetter c = true → Crunch.keepsExpecting c = false)
    (by decide +kernel) c

theorem single_spec {c : UInt8} (hp : isPrintable c = true) (hd : isDigit c = false) :
    (∀ asLine, (single c).code asLine = Crunch.symbol c) ∧
      (single c).keeps = Crunch.keepsExpecting c ∧ (single c).expects = false :=
  forall_byte (P := fun c => isPrintable c = true → isDigit c = false →
      (∀ asLine, (single c).code asLine = Crunch.symbol c) ∧
        (single c).keeps = Crunch.keepsExpecting c ∧ (single c).expects = false)
    (by decide +kernel) c hp hd

theorem crunched_text (expectsLine : Bool) (src : List UInt8) :
    quote :: (Crunch.afterQuote src).1 =
      (Lexeme.text (src.takeWhile (· ≠ quote)) (src.contains quote)).code expectsLine := by
  rcases Crunch.afterQuote_cases src with ⟨hq, h⟩ | ⟨inside, rest, hq, rfl, h⟩
  · have hp : ∀ b ∈ src, decide (b ≠ quote) = true := fun b hb =>
      decide_eq_true (ne_of_mem_of_not_mem hb hq)
    rw [h, List.takeWhile_eq_self_iff.2 hp]
    simp [Lexeme.code, hq]
  · have hp : ∀ b ∈ inside, decide (b ≠ quote) = true := fun b hb =>
      decide_eq_true (ne_of_mem_of_not_mem hb hq)
    rw [h, List.takeWhile_append_of_pos hp]
    simp [Lexeme.code]

theorem crunched_number {expectsLine : Bool} {c : UInt8} {rest : List UInt8}
    (hc : isDigit c = true ∨ c = point) :
    Crunch.number (expectsLine && Crunch.keepsExpecting c) (c :: rest) =
      crunched expectsLine (number (c :: rest)).1 (number (c :: rest)).2 := by
  rcases hc with hc | rfl
  · have hk : Crunch.keepsExpecting c = true := by simp [Crunch.keepsExpecting, hc]
    rw [hk, Bool.and_true]
    by_cases h : ∃ after, (c :: rest).dropWhile isDigit = 0x2E :: after
    · obtain ⟨after, h⟩ := h
      simp only [Crunch.number, number, h]
      simp [crunched, Lexeme.code, Lexeme.keeps, Lexeme.expects, hc]
    · rw [number_whole (not_exists.1 h), crunch_number_whole expectsLine (not_exists.1 h)]
      simp [crunched, Lexeme.code, Lexeme.keeps, Lexeme.expects]
  · -- A number that starts with its point has no digits before it.
    have hd : isDigit point = false := by decide
    have hk : Crunch.keepsExpecting point = false := by decide
    have hdrop : (point :: rest).dropWhile isDigit = 0x2E :: rest := by
      rw [List.dropWhile_cons, hd]
      rfl
    unfold Crunch.number number
    simp only [hdrop]
    simp [crunched, Lexeme.code, Lexeme.keeps, Lexeme.expects, hk, hd]

theorem crunched_word {expectsLine : Bool} {c : UInt8} {rest : List UInt8}
    (hc : isLetter c = true) :
    Crunch.word (expectsLine && Crunch.keepsExpecting c) (c :: rest) =
      crunched expectsLine (word (c :: rest)).1 (word (c :: rest)).2 := by
  rw [keepsExpecting_letter hc, Bool.and_false]
  unfold Crunch.word word
  cases Crunch.keyword? (c :: rest) with
  | none => simp [crunched, Lexeme.code, Lexeme.keeps, Lexeme.expects]
  | some k => cases k <;> simp [crunched, Lexeme.code, Lexeme.keeps, Lexeme.expects]

/-- Crunching a text starts with the code of its first lexeme. -/
theorem crunched_lexeme (expectsLine : Bool) {c : UInt8} (rest : List UInt8)
    (hp : isPrintable c = true) (hc : c ≠ apostrophe) :
    Crunch.lexeme expectsLine c rest =
      crunched expectsLine (lexeme c rest).1 (lexeme c rest).2 := by
  unfold Crunch.lexeme lexeme
  simp only [hc, if_false]
  split
  · rename_i hq
    have hk : Crunch.keepsExpecting quote = false := by decide
    rw [hq, hk, Bool.and_false, crunched_text false]
    simp [crunched, Lexeme.keeps, Lexeme.expects]
  · split
    · rename_i hn
      apply crunched_number
      simp only [Bool.or_eq_true, Bool.and_eq_true, decide_eq_true_eq] at hn
      exact hn.imp id And.left
    · rename_i hn
      split
      · exact crunched_word ‹_›
      · have hd : isDigit c = false := by
          rw [Bool.or_eq_true, not_or] at hn
          exact Bool.eq_false_iff.2 hn.1
        obtain ⟨hcode, hkeeps, hexpects⟩ := single_spec hp hd
        rw [crunched, hcode, hkeeps, hexpects, Bool.or_false]

/-- Crunching a line gives the code of its statements, with colons between them. -/
theorem body_eq_code (expectsLine : Bool) {src : List UInt8}
    (hp : ∀ b ∈ src, isPrintable b = true) :
    Crunch.body expectsLine src = encode expectsLine (split src).1 ++ encodeAfter (split src).2 := by
  fun_induction split src generalizing expectsLine with
  | case1 => simp [Crunch.body, encode, encodeAfter]
  | case2 rest =>
    have hcode : (Crunch.lexeme expectsLine apostrophe rest) =
        ⟨colon :: rem :: apostrophe :: rest, [], expectsLine && Crunch.keepsExpecting apostrophe⟩ :=
      rfl
    rw [Crunch.body, hcode]
    simp [Crunch.body, encode, encodeAfter, Lexeme.code]
  | case3 rest hc ih =>
    have hcode : (Crunch.lexeme expectsLine colon rest) =
        ⟨[colon], rest, expectsLine && Crunch.keepsExpecting colon⟩ := rfl
    have hk : Crunch.keepsExpecting colon = false := by decide
    rw [Crunch.body, hcode, hk, Bool.and_false, ih false fun b hb => hp b (List.mem_cons_of_mem _ hb)]
    simp [encode, encodeAfter]
  | case4 c rest hc hcolon ih =>
    have hrest : ∀ b ∈ (lexeme c rest).2, isPrintable b = true := fun b hb => by
      rw [lexeme_rest false hc] at hb
      exact hp b ((Crunch.lexeme_suffix false c rest).subset hb)
    rw [Crunch.body, crunched_lexeme expectsLine rest (hp c List.mem_cons_self) hc]
    simp only [crunched]
    rw [ih _ hrest, encode, List.append_assoc]

end LineBasic.Source

import LineBasic.Proofs.Source.Spelling
import LineBasic.Proofs.Text.Bytes
import LineBasic.Token.Listing

/-!
# What a text is listed as

Listing undoes crunching: the code of a text is listed as the respelled text.

* `Listing.Shows`: what code is listed as, whatever stands before and after it.
* `Source.Cuts.go_code`: the code of a lexeme is listed as its spelling.
* `Source.text_body`: the code of a text is listed as its respelling.
-/

namespace LineBasic

open Token Code

namespace Listing

/-- Code is listed as a text, whatever stands before and after it. -/
def Shows (code text : List UInt8) : Prop :=
  ∀ shown more, go shown (code ++ more) = go ((text.map Text.byteChar).reverse ++ shown) more

theorem Shows.nil : Shows [] [] := fun _ _ => rfl

/-- Code after code is listed as text after text. -/
theorem Shows.append {code₁ code₂ text₁ text₂ : List UInt8} (h₁ : Shows code₁ text₁)
    (h₂ : Shows code₂ text₂) : Shows (code₁ ++ code₂) (text₁ ++ text₂) := by
  intro shown more
  rw [List.append_assoc, h₁, h₂]
  simp

/-! ## Bytes that stand for themselves -/

/-- A byte that stands for itself. -/
theorem shows_byte {b : UInt8} (hb : isTyped b = true) (hquote : b ≠ quote) : Shows [b] [b] := by
  have hplain : b ≠ endLine ∧ b ≠ rem ∧ (zero ≤ b && b ≤ ten) = false ∧ isNumber b = false ∧
      ¬ 0xFD ≤ b ∧ ¬ 0x80 ≤ b := by
    grind [isTyped, tab, endLine, rem, zero, ten, isNumber, octal, byteConstant, singleConstant,
      doubleConstant]
  obtain ⟨hend, hrem, hsmall, hnumber, hpage, hhigh⟩ := hplain
  intro shown more
  rw [List.singleton_append, go]
  simp [hend, hquote, hrem, hsmall, hnumber, hpage, hhigh]

theorem shows_bytes {l : List UInt8} (hl : ∀ b ∈ l, isTyped b = true ∧ b ≠ quote) : Shows l l := by
  induction l with
  | nil => exact .nil
  | cons b l ih =>
    obtain ⟨hb, hquote⟩ := hl b List.mem_cons_self
    exact (shows_byte hb hquote).append (ih fun c hc => hl c (List.mem_cons_of_mem _ hc))

/-! ## Keywords and operators -/

/-- A keyword other than `REM` is listed as its word. -/
theorem shows_keyword {k : Keyword} (hk : k ≠ .REM) : Shows k.code (Text.utf8 k.word) := by
  have hword : (keyword k.code).toList = (Text.utf8 k.word).map Text.byteChar := by
    cases k <;> rfl
  have hcode : (∃ c, k.code = [c] ∧ c ≠ endLine ∧ c ≠ quote ∧ c ≠ rem ∧
        (zero ≤ c && c ≤ ten) = false ∧ isNumber c = false ∧ ¬ 0xFD ≤ c ∧ 0x80 ≤ c ∧
        Operator.ofCode? c = none) ∨ ∃ d, k.code = [page, d] := by
    cases k <;> first
      | exact absurd rfl hk
      | exact .inl ⟨_, rfl, by decide⟩
      | exact .inr ⟨_, rfl⟩
  intro shown more
  rw [← hword]
  rcases hcode with ⟨c, hc, hend, hquote, hrem, hsmall, hnumber, hpage, hhigh, hop⟩ | ⟨d, hd⟩
  · rw [hc, List.singleton_append, go]
    simp [hend, hquote, hrem, hsmall, hnumber, hpage, hhigh, hop]
  · rw [hd, List.cons_append, go]
    rfl

theorem shows_operator (o : Operator) : Shows [o.code] [o.symbol] := by
  intro shown more
  rw [List.singleton_append, go]
  cases o <;> rfl

/-! ## Numbers -/

/-- A numeric constant is listed as a number. -/
theorem go_constant {lead : UInt8} {operand : List UInt8} (hlead : isNumber lead = true)
    (hten : (zero ≤ lead && lead ≤ ten) = false) (hoperand : operand.length = operandLength lead)
    (shown : List Char) (more : List UInt8) :
    go shown (lead :: operand ++ more) = go ((constant lead operand).toList.reverse ++ shown) more := by
  obtain ⟨hend, hquote, hrem⟩ : lead ≠ endLine ∧ lead ≠ quote ∧ lead ≠ rem := by
    grind [isNumber, octal, byteConstant, zero, singleConstant, doubleConstant, endLine, quote, rem]
  rw [List.cons_append, go, ← hoperand, List.take_left, List.drop_left]
  simp [hend, hquote, hrem, hten, hlead]

theorem value_bytes_of_lt {n : Nat} (h : n < 65536) : Endian.value (Endian.bytes 2 n) = n := by
  rw [Endian.value_bytes]
  exact Nat.mod_eq_of_lt h

theorem constant_lineNumber {n : Nat} (h : n ≤ 65535) :
    constant lineNumber (Endian.bytes 2 n) = toString n := by
  have hvalue : Endian.value (Endian.bytes 2 n) = n := value_bytes_of_lt (by omega)
  show toString (Endian.value (Endian.bytes 2 n)) = toString n
  rw [hvalue]

theorem constant_byte {n : Nat} (h : n ≤ 255) :
    constant byteConstant [UInt8.ofNat n] = toString n := by
  have hvalue : Endian.value [UInt8.ofNat n] = n := by
    show (UInt8.ofNat n).toNat + 256 * 0 = n
    rw [UInt8.toNat_ofNat']
    omega
  show toString (Endian.value [UInt8.ofNat n]) = toString n
  rw [hvalue]

theorem constant_integer {n : Nat} (h : n ≤ 32767) :
    constant integerConstant (Endian.bytes 2 n) = toString n := by
  have hvalue : Endian.value (Endian.bytes 2 n) = n := value_bytes_of_lt (by omega)
  show toString (signed16 (Endian.value (Endian.bytes 2 n))) = toString n
  rw [hvalue, signed16, if_pos (by omega)]
  rfl

theorem go_digit {n : Nat} (h : n ≤ 9) (shown : List Char) (more : List UInt8) :
    go shown ([zero + UInt8.ofNat n] ++ more) = go ((toString n).toList.reverse ++ shown) more := by
  have hdigit : ∀ n : Fin 10, let c := zero + UInt8.ofNat n.val
      c ≠ endLine ∧ c ≠ quote ∧ c ≠ rem ∧ (zero ≤ c && c ≤ ten) = true ∧
        (toString (c - zero)).toList = (toString n.val).toList := by
    decide
  obtain ⟨hend, hquote, hrem, hten, htext⟩ := hdigit ⟨n, Nat.lt_succ_of_le h⟩
  rw [List.singleton_append, go, if_neg hend, if_neg hquote, if_neg hrem, if_pos hten, htext]

/-- An integer constant is listed in decimal digits. -/
theorem shows_wholeNumber {asLine : Bool} {digits : List UInt8}
    (h : (Source.Lexeme.whole digits).isListable asLine = true) :
    Shows (Crunch.wholeNumber asLine digits) (Source.decimal (Crunch.decimalValue digits)) := by
  have hbound : Crunch.decimalValue digits ≤ if asLine then 65535 else 32767 := by
    simpa [Source.Lexeme.isListable] using h
  have hmin : min (Crunch.decimalValue digits) 4294967295 = Crunch.decimalValue digits := by
    split at hbound <;> omega
  intro shown more
  rw [Source.map_byteChar_decimal]
  unfold Crunch.wholeNumber
  simp only [hmin]
  generalize Crunch.decimalValue digits = n at hbound
  split
  · rename_i hline
    simp only [Bool.and_eq_true, decide_eq_true_eq] at hline
    rw [go_constant (by decide) (by decide) (by rw [Endian.length_bytes]; decide),
      constant_lineNumber hline.2]
  · rename_i hline
    have hinteger : n ≤ 32767 := by
      cases asLine with
      | false => simpa using hbound
      | true => exact absurd hbound (by simpa using hline)
    split
    · exact go_digit ‹_› shown more
    · split
      · exact (go_constant (by decide) (by decide) rfl shown more).trans (by rw [constant_byte ‹_›])
      · rw [go_constant (by decide) (by decide) (by rw [Endian.length_bytes]; decide),
          constant_integer hinteger]

/-! ## String literals and comments -/

theorem quoted_append {inside : List UInt8} (hquote : quote ∉ inside) (hend : endLine ∉ inside)
    (more : List UInt8) : quoted (inside ++ quote :: more) = (inside ++ [quote], more) := by
  have hp : ∀ b ∈ inside, (b ≠ endLine && b ≠ quote) = true := fun b hb => by
    simp [ne_of_mem_of_not_mem hb hquote, ne_of_mem_of_not_mem hb hend]
  simp only [quoted, List.takeWhile_append_of_pos hp, List.dropWhile_append_of_pos hp]
  simp

theorem quoted_open {inside : List UInt8} (hquote : quote ∉ inside) (hend : endLine ∉ inside) :
    quoted inside = (inside, []) := by
  have hp : ∀ b ∈ inside, (b ≠ endLine && b ≠ quote) = true := fun b hb => by
    simp [ne_of_mem_of_not_mem hb hquote, ne_of_mem_of_not_mem hb hend]
  simp only [quoted, List.takeWhile_eq_self_iff.2 hp, List.dropWhile_eq_nil_iff.2 hp]

theorem byteChar_quote : Text.byteChar quote = '"' := by decide

/-- A literal is listed as it stands. -/
theorem shows_literal {inside : List UInt8} (hquote : quote ∉ inside) (hend : endLine ∉ inside) :
    Shows (quote :: (inside ++ [quote])) (quote :: (inside ++ [quote])) := by
  intro shown more
  rw [List.cons_append, List.append_assoc, List.singleton_append, go, if_neg (by decide),
    if_pos rfl, quoted_append hquote hend]
  simp [byteChar_quote]

/-- So is one that is not closed. -/
theorem go_openLiteral {inside : List UInt8} (hquote : quote ∉ inside) (hend : endLine ∉ inside)
    (shown : List Char) :
    go shown (quote :: inside) = shown.reverse ++ (quote :: inside).map Text.byteChar := by
  rw [go, if_neg (by decide), if_pos rfl, quoted_open hquote hend, go]
  simp [byteChar_quote]

theorem takeWhile_of_typed {t : List UInt8} (ht : ∀ b ∈ t, isTyped b = true) :
    t.takeWhile (· ≠ endLine) = t :=
  List.takeWhile_eq_self_iff.2 fun b hb => by
    simpa using fun he => not_mem_of_typed (by simp) ht (he ▸ hb)

/-- The short form of a comment replaces the colon before it. -/
theorem go_shortComment {t : List UInt8} (ht : ∀ b ∈ t, isTyped b = true) (shown : List Char) :
    go shown (colon :: rem :: apostrophe :: t) =
      shown.reverse ++ (apostrophe :: t).map Text.byteChar := by
  have hcolon : go shown (colon :: rem :: apostrophe :: t) = go (':' :: shown) (rem :: apostrophe :: t) :=
    shows_byte (by decide) (by decide) shown (rem :: apostrophe :: t)
  have hrem : go (':' :: shown) (rem :: apostrophe :: t) =
      shown.reverse ++ '\'' :: (t.takeWhile (· ≠ endLine)).map Text.byteChar := by
    rw [go]
    rfl
  rw [hcolon, hrem, takeWhile_of_typed ht]
  rfl

/-- A comment is listed as it stands, after its word. -/
theorem go_comment {t : List UInt8} (ht : ∀ b ∈ t, isTyped b = true) {shown : List Char}
    (hshown : shown.head? = some ':' → t.head? ≠ some apostrophe) :
    go shown (rem :: t) =
      shown.reverse ++ (Text.utf8 Keyword.REM.word ++ t).map Text.byteChar := by
  have hword : "REM".toList = (Text.utf8 Keyword.REM.word).map Text.byteChar := rfl
  have hcomment : comment shown t =
      shown.reverse ++ "REM".toList ++ (t.takeWhile (· ≠ endLine)).map Text.byteChar := by
    unfold comment
    split
    · exact absurd rfl (hshown rfl)
    · rfl
  have hgo : go shown (rem :: t) = comment shown t := by
    rw [go]
    rfl
  rw [hgo, hcomment, takeWhile_of_typed ht, hword, List.append_assoc, ← List.map_append]

end Listing

namespace Source

open Listing

/-! ## The code of a lexeme -/

theorem shows_single {c : UInt8} (asLine : Bool) (hc : isTyped c = true)
    (hnot : c ∉ [quote, apostrophe, question]) :
    Shows ((single c).code asLine) (single c).spelling := by
  simp only [List.mem_cons, List.not_mem_nil, or_false, not_or] at hnot
  unfold single
  split
  · exact shows_byte (by decide) (by decide)
  · split
    · exact absurd ‹_› hnot.2.2
    · split
      · exact shows_operator _
      · exact shows_byte hc hnot.1

theorem exists_last {t : List UInt8} (hne : t ≠ []) (h : ∀ b ∈ t, b ≠ colon) :
    ∃ init b, t = init ++ [b] ∧ b ≠ colon :=
  ⟨_, _, (List.dropLast_concat_getLast hne).symm, h _ (List.getLast_mem hne)⟩

namespace Cuts

variable {src rest : List UInt8} {l : Lexeme}

/-- The code of a lexeme is listed as its spelling.  A comment must not be shortened: only one that is
`REM'` after a colon is. -/
theorem go_code {asLine : Bool} {more : List UInt8} {shown : List Char} (h : Cuts src l rest)
    (htyped : ∀ b ∈ src, isTyped b = true) (hlist : l.isListable asLine = true)
    (hmore : rest = [] → more = []) (hshown : shown.head? = some ':' → opensRemark src = false) :
    go shown (l.code asLine ++ more) = go ((l.spelling.map Text.byteChar).reverse ++ shown) more := by
  have hend : endLine ∉ src := not_mem_of_typed (by simp) htyped
  cases h with
  | @literal inside _ hquote =>
    refine shows_literal hquote (fun hb => hend ?_) shown more
    exact List.mem_cons_of_mem _ (List.mem_append_left _ hb)
  | @openLiteral inside hquote =>
    have hgo := go_openLiteral hquote (fun hb => hend (List.mem_cons_of_mem _ hb)) shown
    rw [hmore rfl, List.append_nil, go]
    simpa [Lexeme.code, Lexeme.spelling] using hgo
  | whole _ _ _ => exact shows_wholeNumber hlist shown more
  | word hk _ _ => exact shows_keyword hk shown more
  | @remark typed t hword hkey =>
    have hlength : typed.length = 3 := by
      rw [← List.length_map (f := upper), hword]
      decide
    have hcolon : shown.head? = some ':' → t.head? ≠ some apostrophe := fun h => by
      have hopens := hshown h
      rw [opensRemark, hkey, List.drop_left' hlength] at hopens
      simpa using hopens
    have hgo := go_comment (fun b hb => htyped b (List.mem_append_right _ hb)) hcolon
    rw [hmore rfl, List.append_nil, go]
    simpa [Lexeme.code, Lexeme.spelling] using hgo
  | name _ _ hends =>
    refine shows_bytes (fun b hb => ?_) shown more
    obtain ⟨hb, hquote, -⟩ := typed_of_name (hends.symm.imp And.left id) b hb
    exact ⟨hb, hquote⟩
  | single hc hnot _ _ => exact shows_single asLine hc hnot shown more

/-- The spelling of a lexeme ends with a colon only if it is one, or if it ends the line. -/
theorem last_ne_colon (h : Cuts src l rest) (hsrc : src.head? ≠ some colon) :
    rest = [] ∨ ∃ init b, l.spelling = init ++ [b] ∧ b ≠ colon := by
  cases h with
  | @literal inside _ _ => exact .inr ⟨quote :: inside, quote, rfl, by decide⟩
  | openLiteral _ => exact .inl rfl
  | whole _ _ _ =>
    refine .inr (exists_last (decimal_ne_nil _) fun b hb => ?_)
    have hdigit : ∀ b, isDigit b = true → b ≠ colon := by grind [isDigit, colon]
    exact hdigit b (isDigit_of_mem_decimal hb)
  | @word k _ _ _ _ _ =>
    have hupper : ∀ b, isUpper b = true → b ≠ colon := by grind [isUpper, colon]
    obtain ⟨c, tail, hword, -⟩ := exists_letter_of_word k
    refine .inr (exists_last (by simp [Lexeme.spelling, hword]) fun b hb => ?_)
    exact hupper b (isUpper_of_mem_word k b hb)
  | remark _ _ => exact .inl rfl
  | name _ _ hends =>
    have hname := hends.symm.imp And.left id
    obtain ⟨c, tail, ht, -⟩ := Lexeme.isLetter_head hname
    refine .inr (exists_last (by simp [Lexeme.spelling, ht]) fun b hb => ?_)
    exact (typed_of_name hname b hb).2.2
  | @single c _ _ hnot _ _ =>
    refine .inr ⟨[], c, spelling_single fun h => hnot (by simp [h]), fun h => hsrc ?_⟩
    rw [h, List.head?_cons]

end Cuts

/-! ## The code of a text -/

theorem opensRemark_nil : opensRemark [] = false := by decide

theorem byteChar_injective {b c : UInt8} (h : Text.byteChar b = Text.byteChar c) : b = c := by
  rw [← UInt8.toNat_inj, ← Text.toNat_byteChar, ← Text.toNat_byteChar, h]

/-- After a colon comes no comment `REM'`, unless it has been respelled. -/
theorem opensRemark_rest {c : UInt8} {rest : List UInt8}
    (hcuts : Cuts (c :: rest) (lexeme c rest).1 (lexeme c rest).2)
    (hremark : ¬ (c = colon && opensRemark rest) = true) (shown : List Char) :
    (((lexeme c rest).1.spelling.map Text.byteChar).reverse ++ shown).head? = some ':' →
      opensRemark (lexeme c rest).2 = false := by
  intro hhead
  by_cases hc : c = colon
  · subst hc
    show opensRemark rest = false
    simpa using hremark
  · rcases hcuts.last_ne_colon (by simpa using hc) with hnil | ⟨init, b, hlast, hb⟩
    · rw [hnil, opensRemark_nil]
    · rw [hlast] at hhead
      simp only [List.map_append, List.map_cons, List.map_nil, List.reverse_append, List.reverse_cons,
        List.reverse_nil, List.nil_append, List.cons_append, List.head?_cons, Option.some.injEq] at hhead
      exact absurd (byteChar_injective hhead) hb

/-- Listing goes on with the respelled text. -/
theorem go_body {expectsLine : Bool} {src : List UInt8} {shown : List Char}
    (htyped : ∀ b ∈ src, isTyped b = true) (h : isListable expectsLine src = true)
    (hshown : shown.head? = some ':' → opensRemark src = false) :
    go shown (Crunch.body expectsLine src) = shown.reverse ++ (respell src).map Text.byteChar := by
  fun_induction respell src generalizing expectsLine shown with
  | case1 => simp [Crunch.body, go]
  | case2 rest =>
    rw [body_apostrophe]
    exact go_shortComment (fun b hb => htyped b (List.mem_cons_of_mem _ hb)) shown
  | case3 c rest hc hremark =>
    simp only [Bool.and_eq_true, decide_eq_true_eq] at hremark
    obtain ⟨rfl, hopens⟩ := hremark
    obtain ⟨hkey, t, ht⟩ := exists_of_opensRemark hopens
    rw [body_colon, body_remark false hkey, ht]
    refine go_shortComment (fun b hb => htyped b ?_) shown
    exact List.mem_cons_of_mem _ (List.mem_of_mem_drop (ht ▸ List.mem_cons_of_mem _ hb))
  | case4 c rest hc hremark ih =>
    obtain ⟨-, hlexeme, hlist⟩ := isListable_cons hc h
    have hcuts := cuts_of_isListable hc htyped h
    have hmore : (lexeme c rest).2 = [] → Crunch.body ((expectsLine && (lexeme c rest).1.keeps) ||
        (lexeme c rest).1.expects) (lexeme c rest).2 = [] := fun hnil => by rw [hnil, Crunch.body]
    rw [(starts_lexeme hc htyped).body, hcuts.go_code htyped hlexeme hmore hshown,
      ih (typed_lexeme_rest hc htyped) hlist ?_]
    · simp
    · exact opensRemark_rest hcuts hremark shown

/-- The code of a text is listed as the respelled text. -/
theorem text_body {expectsLine : Bool} {src : List UInt8} (htyped : ∀ b ∈ src, isTyped b = true)
    (h : isListable expectsLine src = true) :
    Listing.text (Crunch.body expectsLine src) = Text.ofBytes (respell src) := by
  rw [Listing.text, go_body htyped h (by simp)]
  rfl

end Source

end LineBasic

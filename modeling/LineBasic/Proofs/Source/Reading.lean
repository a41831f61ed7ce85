import Mathlib.Data.List.DropRight
import Mathlib.Data.List.TakeWhile
import LineBasic.Proofs.Source.Code
import LineBasic.Proofs.Source.Syntax

/-!
# Reading expressions

The scanner that evaluates an expression while it reads its code agrees with the syntax of the
expression.

* `Reads`: a scanner gives a result and leaves the code of given lexemes.
* `value_reads`: reading the code of an expression gives what the expression is worth.
-/

namespace LineBasic.Source

open Token Scan

/-! ## Scanners on code of lexemes -/

/-- Reading code gives a result and leaves the code of the lexemes `rest`, in less than `bound` bytes. -/
def Reads {α : Type} (tail : List UInt8) (p : Scanner α) (code : List UInt8)
    (result : Except BasicError α) (rest : List Lexeme) (bound : Nat) : Prop :=
  match result with
  | .ok a => ∃ code' e, p code = .ok a code' ∧ Codes tail e rest code' ∧ code'.length < bound
  | .error err => ∃ code', p code = .error err code'

namespace Reads

variable {α β : Type} {tail code : List UInt8} {p : Scanner α} {f : α → Scanner β}
  {result : Except BasicError α} {next : α → Except BasicError β} {rest rest' : List Lexeme}
  {bound bound' : Nat}

/-- Reading one thing after the other. -/
theorem bind (h : Reads tail p code result rest bound)
    (hf : ∀ a code' e, result = .ok a → Codes tail e rest code' → code'.length < bound →
      Reads tail (f a) code' (next a) rest' bound') :
    Reads tail (p >>= f) code (result >>= next) rest' bound' := by
  cases result with
  | error err =>
    obtain ⟨code', hp⟩ := h
    exact ⟨code', by simp [hp]⟩
  | ok a =>
    obtain ⟨code', e, hp, hcodes, hlen⟩ := h
    have hnext := hf a code' e rfl hcodes hlen
    have hrun : (p >>= f) code = f a code' := by simp [hp]
    have hresult : (Except.ok a : Except BasicError α) >>= next = next a := rfl
    rw [hresult]
    unfold Reads at hnext ⊢
    simpa only [hrun] using hnext

/-- A result computed from what was read. -/
theorem except (g : α → Except BasicError β) (h : Reads tail p code result rest bound) :
    Reads tail (do Expression.ofExcept (g (← p))) code (result >>= g) rest bound := by
  refine h.bind fun a code' e _ hcodes hlen => ?_
  cases hg : g a with
  | error err => exact ⟨code', by simp [Expression.ofExcept]⟩
  | ok b => exact ⟨code', e, by simp [Expression.ofExcept], hcodes, hlen⟩

/-- Another scanner that does the same, perhaps from another place. -/
theorem congr {q : Scanner α} {code' : List UInt8} (h : Reads tail q code' result rest bound)
    (heq : p code = q code') : Reads tail p code result rest bound := by
  unfold Reads at h ⊢
  simpa only [heq] using h

theorem mono (h : Reads tail p code result rest bound) (hle : bound ≤ bound') :
    Reads tail p code result rest bound' := by
  cases result with
  | error err => exact h
  | ok a =>
    obtain ⟨code', e, hp, hcodes, hlen⟩ := h
    exact ⟨code', e, hp, hcodes, Nat.lt_of_lt_of_le hlen hle⟩

end Reads

/-! ## Operands -/

theorem ofInt_of_le {n : Nat} (h : n ≤ 32767) : Value.ofInt n = .integer (Int16.ofNat n) := by
  have hfit : Value.fit? n = some (Int16.ofInt n) := if_pos (by simp; omega)
  rw [Value.ofInt, hfit, Int16.ofInt_eq_ofNat]

theorem ofInt_of_lt {n : Nat} (h : 32767 < n) : Value.ofInt n = .single (.ofNat n) := by
  have hfit : Value.fit? n = none := if_neg (by simp; omega)
  rw [Value.ofInt, hfit, Single.ofNat]

theorem constant_single (x : Single) :
    Expression.constant singleConstant (Endian.bytes 4 x.bits.toNat) = .single x := by
  show Value.single ⟨UInt32.ofNat (Endian.value (Endian.bytes 4 x.bits.toNat))⟩ = .single x
  rw [Endian.value_bytes, Nat.mod_eq_of_lt (show x.bits.toNat < Nat.pow 256 4 from x.bits.toNat_lt),
    UInt32.ofNat_toNat]

section

variable (scope : Scope) (parenthesised : Scanner Value) (fuel : Nat) {code rest : List UInt8}

theorem term_constant {lead : UInt8} {operand : List UInt8}
    (hlead : lead ∈ [byteConstant, integerConstant, lineNumber, singleConstant])
    (hlen : operand.length = operandLength lead)
    (hdrop : code.dropWhile isBlank = lead :: (operand ++ rest)) :
    Expression.term scope parenthesised (fuel + 1) code =
      .ok (Expression.constant lead operand) rest := by
  have hread : Expression.term scope parenthesised (fuel + 1) code =
      (do
        let operand ← take (operandLength lead)
        if operand.length < operandLength lead then throw (.of .syntaxError)
        return Expression.constant lead operand : Scanner Value) (operand ++ rest) := by
    simp only [Expression.term, Effect.bind_apply, next?_apply, hdrop, List.head?_cons]
    simp only [List.mem_cons, List.not_mem_nil, or_false] at hlead
    rcases hlead with rfl | rfl | rfl | rfl <;> rfl
  rw [hread, ← hlen]
  simp [take]

theorem term_digit {n : Nat} (hn : n ≤ 9)
    (hdrop : code.dropWhile isBlank = (zero + UInt8.ofNat n) :: rest) :
    Expression.term scope parenthesised (fuel + 1) code = .ok (.integer (Int16.ofNat n)) rest := by
  simp only [Expression.term, Effect.bind_apply, next?_apply, hdrop, List.head?_cons]
  obtain rfl | rfl | rfl | rfl | rfl | rfl | rfl | rfl | rfl | rfl :
    n = 0 ∨ n = 1 ∨ n = 2 ∨ n = 3 ∨ n = 4 ∨ n = 5 ∨ n = 6 ∨ n = 7 ∨ n = 8 ∨ n = 9 := by omega
  all_goals rfl

/-- A whole number is worth the same whatever its code. -/
theorem term_whole {asLine : Bool} {digits : List UInt8}
    (hdrop : code.dropWhile isBlank = Crunch.wholeNumber asLine digits ++ rest) :
    Expression.term scope parenthesised (fuel + 1) code =
      .ok (.ofInt (min (Crunch.decimalValue digits) 4294967295 : Nat)) rest := by
  unfold Crunch.wholeNumber at hdrop
  simp only at hdrop
  generalize min (Crunch.decimalValue digits) 4294967295 = n at hdrop ⊢
  have htwo : n < 65536 → Endian.value (Endian.bytes 2 n) = n := fun h => by
    rw [Endian.value_bytes, Nat.mod_eq_of_lt h]
  split at hdrop
  · rename_i hline
    have hn : n < 65536 := by
      simp only [Bool.and_eq_true, decide_eq_true_eq] at hline
      omega
    rw [term_constant scope parenthesised fuel (by simp) (by simp; rfl) hdrop]
    show EStateM.Result.ok (Value.ofInt (Endian.value (Endian.bytes 2 n))) rest = _
    rw [htwo hn]
  · split at hdrop
    · rename_i hle
      have hdrop : code.dropWhile isBlank = (zero + UInt8.ofNat n) :: rest := hdrop
      rw [term_digit scope parenthesised fuel hle hdrop, ofInt_of_le (by omega)]
    · split at hdrop
      · rename_i hle
        have hdrop : code.dropWhile isBlank = byteConstant :: ([UInt8.ofNat n] ++ rest) := hdrop
        rw [term_constant scope parenthesised fuel (by simp) rfl hdrop]
        show EStateM.Result.ok (Value.ofInt (Endian.value (Endian.bytes 1 n))) rest = _
        rw [Endian.value_bytes, Nat.mod_eq_of_lt (show n < Nat.pow 256 1 by simp; omega)]
      · split at hdrop
        · rename_i hle
          rw [term_constant scope parenthesised fuel (by simp) (by simp; rfl) hdrop]
          show EStateM.Result.ok (Value.integer (Int16.ofNat (Endian.value (Endian.bytes 2 n)))) rest = _
          rw [htwo (by omega), ofInt_of_le hle]
        · rw [term_constant scope parenthesised fuel (by simp) (by simp; rfl) hdrop, constant_single,
            ofInt_of_lt (by omega)]

/-- The bytes that no operand starts with. -/
def opensNothing (b : UInt8) : Bool :=
  !(isLetter b || Lexeme.isWholeLead b) &&
    !([endLine, colon, quote, Operator.minus.code, Operator.plus.code, openParen, 0xD4, 0xD5].contains b)

theorem term_of_opensNothing {b : UInt8} (hb : opensNothing b = true)
    (hdrop : code.dropWhile isBlank = b :: rest) :
    Expression.term scope parenthesised (fuel + 1) code = .error (.of .syntaxError) rest := by
  simp only [opensNothing, Lexeme.isWholeLead, Bool.and_eq_true, Bool.not_eq_true', Bool.or_eq_false_iff,
    decide_eq_false_iff_not, List.contains_eq_mem, List.mem_cons, List.not_mem_nil, or_false,
    not_or] at hb
  obtain ⟨⟨hletter, ⟨hline, hbyte, hinteger, hsingle⟩, hdigit⟩, hend, hcolon, hquote, hminus, hplus,
    hparen, herl, herr⟩ := hb
  simpa [Expression.term, hdrop, hend, hcolon, hletter, hquote, hbyte, hinteger, hline, hsingle,
    hminus, hplus, hparen, Keyword.code, herl, herr] using hdigit

/-- An operand is read from its code. -/
theorem term_operand {tail : List UInt8} {e : Bool} {l : Lexeme} {ls : List Lexeme}
    (h : Codes tail e (l :: ls) code) (hminus : l ≠ .operator .minus) (hplus : l ≠ .operator .plus)
    (hparen : l ≠ .symbol openParen) :
    Reads tail (Expression.term scope parenthesised (fuel + 1)) code ((operand l).eval scope) ls
      code.length := by
  obtain ⟨code', hdrop, hne, hvalid, hends, hrest, hlen⟩ := h.dropWhile_cons
  have hnothing : ∀ {b more}, l.code (e && l.keeps) = b :: more → opensNothing b = true →
      ∃ code', Expression.term scope parenthesised (fuel + 1) code =
        .error (.of .syntaxError) code' := fun hcode hb => by
    rw [hcode] at hdrop
    exact ⟨_, term_of_opensNothing scope parenthesised fuel hb hdrop⟩
  cases l with
  | blank => exact absurd rfl hne
  | word k =>
    cases k
    case ERR =>
      refine ⟨code', _, ?_, hrest, hlen⟩
      simp only [Expression.term, Effect.bind_apply, next?_apply, hdrop]
      rfl
    case ERL =>
      refine ⟨code', _, ?_, hrest, hlen⟩
      simp only [Expression.term, Effect.bind_apply, next?_apply, hdrop]
      rfl
    all_goals exact hnothing rfl (by decide)
  | remark t => exact hnothing rfl (by decide)
  | name t =>
    obtain ⟨c, more, ht, hc⟩ := Lexeme.isLetter_head hvalid
    have hlead : (Lexeme.name t).Leads c := hc
    obtain ⟨-, hend, hcolon⟩ := hlead.not_end hne
    have hcodes : Codes tail e (.name t :: ls) (code.dropWhile isBlank) :=
      hdrop ▸ .cons hne hvalid hends hrest
    obtain ⟨code₁, e₁, hname, hcodes₁, hlen₁⟩ := hcodes.name_cons
    have hhead : code.dropWhile isBlank = c :: (more ++ code') := by
      rw [hdrop]
      simp [Lexeme.code, ht]
    refine ⟨code₁, e₁, ?_, hcodes₁, Nat.lt_of_lt_of_le hlen₁ (List.length_dropWhile_le _ code)⟩
    rw [hhead] at hname
    simp [Expression.term, hhead, hend, hcolon, hc, hname]
  | whole digits =>
    exact ⟨code', _, term_whole scope parenthesised fuel hdrop, hrest, hlen⟩
  | fraction digits decimals =>
    refine ⟨code', _, ?_, hrest, hlen⟩
    rw [term_constant scope parenthesised fuel (by simp) (by simp; rfl) hdrop, constant_single]
  | text inside closed =>
    refine ⟨code', _, ?_, hrest, hlen⟩
    have hdrop : code.dropWhile isBlank =
        quote :: (inside ++ (if closed then [quote] else []) ++ code') := hdrop
    have hread : Expression.term scope parenthesised (fuel + 1) code =
        (modifyGet fun code => (Value.string (Text.ofBytes (Expression.splitString code).1),
          (Expression.splitString code).2) : Scanner Value)
          (inside ++ (if closed then [quote] else []) ++ code') := by
      simp only [Expression.term, Effect.bind_apply, next?_apply, hdrop]
      rfl
    rw [hread, Effect.modifyGet_apply, splitString_append hvalid hends]
  | operator o =>
    cases o
    case minus => exact absurd rfl hminus
    case plus => exact absurd rfl hplus
    all_goals exact hnothing rfl (by decide)
  | symbol b =>
    refine hnothing rfl ?_
    have hb : isSymbol b = true → b ≠ openParen → opensNothing b = true :=
      forall_byte (P := fun b => isSymbol b = true → b ≠ openParen → opensNothing b = true)
        (by decide +kernel) b
    exact hb hvalid fun h => hparen (by rw [h])

end

/-! ## Terms, sums and expressions -/

section

variable {tail : List UInt8} (htail : Stops tail) (scope : Scope)

/-- Reading up to a closing parenthesis that is there. -/
theorem Reads.closed {p : Scanner Value} {code : List UInt8} {result : Except BasicError Value}
    {after : List Lexeme} {bound : Nat}
    (h : Reads tail p code result (.symbol closeParen :: after) bound) :
    Reads tail
      (do
        let v ← p
        expect [closeParen]
        return v) code result after bound := by
  cases result with
  | error err =>
    obtain ⟨code', hp⟩ := h
    exact ⟨code', by simp [hp]⟩
  | ok v =>
    obtain ⟨code', e, hp, hcodes, hlen⟩ := h
    obtain ⟨code'', e', hdrop, hcodes', hlen'⟩ := hcodes.dropWhile_byte rfl
    exact ⟨code'', e', by simp [hp, expect_apply, hdrop], hcodes', Nat.lt_trans hlen' hlen⟩

include htail in
/-- Reading up to a closing parenthesis that is not there. -/
theorem Reads.unclosed {p : Scanner Value} {code : List UInt8} {result : Except BasicError Value}
    {rest after : List Lexeme} {bound bound' : Nat} (h : Reads tail p code result rest bound)
    (hrest : rest.head? ≠ some (.symbol closeParen)) :
    Reads tail
      (do
        let v ← p
        expect [closeParen]
        return v) code (result >>= fun _ => .error (.of .syntaxError)) after bound' := by
  refine h.bind fun v code' e _ hcodes _ => ?_
  have hhead := mt (hcodes.head_eq_iff htail (t := .symbol closeParen) (b := closeParen) rfl).1 hrest
  exact ⟨code'.dropWhile isBlank, by simp [expect_apply, hhead]⟩

include htail in
/-- An operand is read as its lexemes say. -/
theorem term_reads {parenthesised : Scanner Value} {depth : Nat}
    (hp : ∀ e ls code, Codes tail e ls code → code.length < depth →
      Reads tail parenthesised code ((expression ls).expr.eval scope) (expression ls).rest code.length)
    {fuel : Nat} {e : Bool} {ls : List Lexeme} {code : List UInt8} (h : Codes tail e ls code)
    (hfuel : code.length < fuel) (hdepth : code.length ≤ depth) :
    Reads tail (Expression.term scope parenthesised fuel) code ((term ls).expr.eval scope)
      (term ls).rest code.length := by
  induction fuel generalizing e ls code with
  | zero => exact absurd hfuel (Nat.not_lt_zero _)
  | succ fuel ih =>
    cases ls with
    | nil =>
      obtain ⟨b, more, rfl, hb, -⟩ := htail.exists_cons
      have hdrop := h.dropWhile_nil htail
      rw [term]
      refine ⟨b :: more, ?_⟩
      simp only [statementEnds, List.mem_cons, List.not_mem_nil, or_false] at hb
      simp [Expression.term, hdrop, hb]
    | cons l after =>
      rw [term]
      split
      · rename_i hl
        subst hl
        obtain ⟨code', e', hdrop, hcodes, hlen⟩ := h.dropWhile_byte rfl
        have hread := ih hcodes (by omega) (by omega)
        refine ((hread.except Value.negate).mono (Nat.le_of_lt hlen)).congr ?_
        simp only [Expression.term, Effect.bind_apply, next?_apply, hdrop]
        rfl
      · split
        · rename_i hl
          subst hl
          obtain ⟨code', e', hdrop, hcodes, hlen⟩ := h.dropWhile_byte rfl
          have hread := ih hcodes (by omega) (by omega)
          refine (hread.mono (Nat.le_of_lt hlen)).congr ?_
          simp only [Expression.term, Effect.bind_apply, next?_apply, hdrop]
          rfl
        · split
          · rename_i hl
            subst hl
            obtain ⟨code', e', hdrop, hcodes, hlen⟩ := h.dropWhile_byte rfl
            have hinner := (hp e' after code' hcodes (by omega)).mono (Nat.le_of_lt hlen)
            have hrun : Expression.term scope parenthesised (fuel + 1) code =
                (do
                  let v ← parenthesised
                  expect [closeParen]
                  return v : Scanner Value) code' := by
              simp only [Expression.term, Effect.bind_apply, next?_apply, hdrop]
              rfl
            split
            · rename_i hclosed
              obtain ⟨more, hmore⟩ := List.head?_eq_some_iff.1 hclosed
              rw [hmore] at hinner
              simp only [hmore, List.tail_cons]
              exact hinner.closed.congr hrun
            · rename_i hopen
              exact (hinner.unclosed htail hopen).congr hrun
          · exact term_operand scope parenthesised fuel h ‹_› ‹_› ‹_›

/-- A sum fails as soon as its left end does. -/
theorem eval_sum_of_error {left : Expr} {err : BasicError} (hleft : left.eval scope = .error err)
    (ls : List Lexeme) : (sum left ls).expr.eval scope = .error err := by
  obtain ⟨n, hn⟩ : ∃ n, ls.length = n := ⟨_, rfl⟩
  induction n using Nat.strongRecOn generalizing left ls with
  | ind n ih =>
    cases ls with
    | nil =>
      rw [sum]
      exact hleft
    | cons l after =>
      have hlen : (term after).rest.length < n :=
        hn ▸ Nat.lt_succ_of_le (term after).length_rest_le
      rw [sum]
      split
      · exact ih _ hlen (by rw [Expr.eval, hleft]; rfl) _ rfl
      · split
        · exact ih _ hlen (by rw [Expr.eval, hleft]; rfl) _ rfl
        · exact hleft

/-- One more term of a sum: `joined` is the sum with it. -/
theorem sum_step (operand : Scanner Value) (fuel : Nat) {p : Scanner Value} {code : List UInt8}
    {ls : List Lexeme} {joined : Expr} {bound bound' : Nat}
    (hread : Reads tail p code (joined.eval scope) ls bound)
    (hnext : ∀ v code' e, joined.eval scope = .ok v → Codes tail e ls code' → code'.length < bound →
      Reads tail (Expression.sum operand fuel v) code' ((sum joined ls).expr.eval scope)
        (sum joined ls).rest bound') :
    Reads tail (do Expression.sum operand fuel (← p)) code ((sum joined ls).expr.eval scope)
      (sum joined ls).rest bound' := by
  cases hjoined : joined.eval scope with
  | error err =>
    rw [hjoined] at hread
    obtain ⟨code', hp⟩ := hread
    rw [eval_sum_of_error scope hjoined]
    exact ⟨code', by simp [hp]⟩
  | ok v =>
    rw [hjoined] at hread
    obtain ⟨code', e, hp, hcodes, hlen⟩ := hread
    exact (hnext v code' e hjoined hcodes hlen).congr (by simp [hp])

theorem sum_apply (operand : Scanner Value) (fuel : Nat) (v : Value) (code : List UInt8) :
    Expression.sum operand (fuel + 1) v code =
      if (code.dropWhile isBlank).head? = some Operator.plus.code then
        (do Expression.sum operand fuel (← do Expression.ofExcept (v.add (← operand))) : Scanner Value)
          (code.dropWhile isBlank).tail
      else if (code.dropWhile isBlank).head? = some Operator.minus.code then
        (do
          Expression.sum operand fuel (← do Expression.ofExcept (v.subtract (← operand))) :
            Scanner Value) (code.dropWhile isBlank).tail
      else .ok v (code.dropWhile isBlank) := by
  have hidem : (code.dropWhile isBlank).dropWhile isBlank = code.dropWhile isBlank :=
    List.dropWhile_idempotent isBlank code
  by_cases hplus : (code.dropWhile isBlank).head? = some Operator.plus.code
  · simp [Expression.sum, accept_apply, hplus]
  · have hne : Operator.minus.code ≠ Operator.plus.code := by decide
    by_cases hminus : (code.dropWhile isBlank).head? = some Operator.minus.code <;>
      simp [Expression.sum, accept_apply, hidem, hplus, hminus, hne]

include htail in
/-- So is a sum. -/
theorem sum_reads {operand : Scanner Value} {bound : Nat}
    (hp : ∀ e ls code, Codes tail e ls code → code.length < bound →
      Reads tail operand code ((term ls).expr.eval scope) (term ls).rest code.length)
    {fuel : Nat} {left : Expr} {v : Value} (hleft : left.eval scope = .ok v) {e : Bool}
    {ls : List Lexeme} {code : List UInt8} (h : Codes tail e ls code) (hfuel : code.length < fuel)
    (hbound : code.length ≤ bound) :
    Reads tail (Expression.sum operand fuel v) code ((sum left ls).expr.eval scope)
      (sum left ls).rest (code.length + 1) := by
  induction fuel generalizing left v e ls code with
  | zero => exact absurd hfuel (Nat.not_lt_zero _)
  | succ fuel ih =>
    have hplus := h.head_eq_iff htail (t := .operator .plus) (b := Operator.plus.code) rfl
    have hminus := h.head_eq_iff htail (t := .operator .minus) (b := Operator.minus.code) rfl
    have hstep : ∀ {after : List Lexeme} {code' : List UInt8} {e' : Bool} {joined : Expr}
        (f : Value → Value → Except BasicError Value), Codes tail e' after code' →
        code'.length < code.length →
        joined.eval scope = (term after).expr.eval scope >>= f v →
        Expression.sum operand (fuel + 1) v code =
          (do Expression.sum operand fuel (← do Expression.ofExcept (f v (← operand))) : Scanner Value)
            code' →
        Reads tail (Expression.sum operand (fuel + 1) v) code
          ((sum joined (term after).rest).expr.eval scope) (sum joined (term after).rest).rest
          (code.length + 1) := by
      intro after code' e' joined f hcodes hlen hjoined hrun
      have hterm := (hp e' after code' hcodes (by omega)).except (f v)
      rw [← hjoined] at hterm
      refine (sum_step scope operand fuel hterm fun w code'' e'' hw hcodes' hlen' => ?_).congr
        (hrun.trans (by rw [bind_assoc]))
      exact (ih hw hcodes' (by omega) (by omega)).mono (by omega)
    cases ls with
    | nil =>
      rw [sum]
      simp only [hleft]
      refine ⟨code.dropWhile isBlank, e, ?_, h.dropWhile htail,
        Nat.lt_succ_of_le (List.length_dropWhile_le _ code)⟩
      rw [sum_apply, if_neg (by simp [hplus]), if_neg (by simp [hminus])]
    | cons l after =>
      rw [List.head?_cons, Option.some.injEq] at hplus hminus
      rw [sum]
      split
      · rename_i hl
        subst hl
        obtain ⟨code', e', hdrop, hcodes, hlen⟩ := h.dropWhile_byte rfl
        refine hstep Value.add hcodes hlen (by rw [Expr.eval, hleft]; rfl) ?_
        rw [sum_apply, if_pos (hplus.2 rfl), hdrop]
        rfl
      · rename_i hl
        split
        · rename_i hl'
          subst hl'
          obtain ⟨code', e', hdrop, hcodes, hlen⟩ := h.dropWhile_byte rfl
          refine hstep Value.subtract hcodes hlen (by rw [Expr.eval, hleft]; rfl) ?_
          rw [sum_apply, if_neg (mt hplus.1 hl), if_pos (hminus.2 rfl), hdrop]
          rfl
        · rename_i hl'
          simp only [hleft]
          refine ⟨code.dropWhile isBlank, e, ?_, h.dropWhile htail,
            Nat.lt_succ_of_le (List.length_dropWhile_le _ code)⟩
          rw [sum_apply, if_neg (mt hplus.1 hl), if_neg (mt hminus.1 hl')]

include htail in
/-- So is an expression, however deep it is nested. -/
theorem nested_reads {depth : Nat} {e : Bool} {ls : List Lexeme} {code : List UInt8}
    (h : Codes tail e ls code) (hdepth : code.length < depth) :
    Reads tail (Expression.nested scope depth) code ((expression ls).expr.eval scope)
      (expression ls).rest code.length := by
  induction depth generalizing e ls code with
  | zero => exact absurd hdepth (Nat.not_lt_zero _)
  | succ depth ih =>
    have hterm : ∀ e ls code', Codes tail e ls code' → code'.length < code.length + 1 →
        Reads tail (Expression.term scope (Expression.nested scope depth) (code.length + 1)) code'
          ((term ls).expr.eval scope) (term ls).rest code'.length := fun e ls code' hcodes hlen =>
      term_reads htail scope (fun e ls code hcodes hlen => ih hcodes hlen) hcodes hlen (by omega)
    rw [expression]
    refine (sum_step scope (Expression.term scope (Expression.nested scope depth) (code.length + 1))
      (code.length + 1) (hterm e ls code h (Nat.lt_succ_self _))
      fun v code' e' hv hcodes hlen => ?_).congr rfl
    exact (sum_reads htail scope hterm hv hcodes (by omega) (by omega)).mono (by omega)

include htail in
/-- Reading the code of an expression gives what the expression is worth. -/
theorem value_reads {e : Bool} {ls : List Lexeme} {code : List UInt8} (h : Codes tail e ls code) :
    Reads tail (Expression.value scope) code ((expression ls).expr.eval scope) (expression ls).rest
      code.length := by
  refine (nested_reads htail scope h (Nat.lt_succ_self _)).congr ?_
  unfold Expression.value
  rw [Effect.bind_apply, Effect.get_apply]

end

end LineBasic.Source

import Mathlib.Data.List.Basic
import LineBasic.Proofs.Code.Closed
import LineBasic.Proofs.Code.Scanner
import LineBasic.Proofs.Statement.Condition
import LineBasic.Statement.Expression

/-!
# How far operands read

A scanner on the code of a line stays in that line and stops between two lexemes.  If it fails it may have
stopped inside a lexeme, but it has not left the line.  This is shown of a scanner from the scanners that
it is made of.

* `Scan.Stays`: a scanner stops between lexemes of the line, or at the end of the line, or fails in the line.
* `Scan.stays_accept`, `Scan.stays_jumpTarget?`, `Scan.stays_name`: tokens, line numbers and names.
* `Expression.stays_value`: expressions.
-/

namespace LineBasic

open Token Code

namespace Scan

variable {α β : Type}

/-- From `left`, the rest of a line, a scanner has come to `rest`, between two lexemes of the same line or
at its end. -/
def Passes (left t rest : List UInt8) : Prop :=
  ∃ code left', left = code ++ left' ∧ rest = left' ++ endLine :: t ∧ (Closed code ∨ left' = [])

theorem Passes.refl (left t : List UInt8) : Passes left t (left ++ endLine :: t) :=
  ⟨[], left, rfl, rfl, .inl .nil⟩

/-- Whole lexemes may come first. -/
theorem Passes.closed {code left t rest : List UInt8} (hcode : Closed code)
    (h : Passes left t rest) : Passes (code ++ left) t rest := by
  obtain ⟨more, left', rfl, rfl, hmore⟩ := h
  exact ⟨code ++ more, left', by simp, rfl, hmore.imp hcode.append id⟩

/-- It has come to `rest`, anywhere in the same line. -/
def Within (left t rest : List UInt8) : Prop :=
  ∃ left', rest = left' ++ endLine :: t ∧ left' <:+ left

/-- It has failed there, with a condition that has no place yet. -/
structure FailsIn (left t : List UInt8) (e : BasicError) (rest : List UInt8) : Prop where
  bare : ∃ code, e = .of code
  within : Within left t rest

/-- What passes whole lexemes stays on the line. -/
theorem Passes.within {left t rest : List UInt8} (h : Passes left t rest) : Within left t rest := by
  obtain ⟨code, left', rfl, hrest, -⟩ := h
  exact ⟨left', hrest, List.suffix_append code left'⟩

theorem Within.length_le {left t rest : List UInt8} (h : Within left t rest) :
    rest.length ≤ (left ++ endLine :: t).length := by
  obtain ⟨left', rfl, hsuffix⟩ := h
  have hle := hsuffix.length_le
  rw [List.length_append, List.length_append]
  omega

/-- A failure further on in the line is one in the line. -/
theorem FailsIn.after {left left' t rest : List UInt8} {e : BasicError} (hsuffix : left' <:+ left)
    (h : FailsIn left' t e rest) : FailsIn left t e rest := by
  obtain ⟨hbare, left'', hrest, hsuffix'⟩ := h
  exact ⟨hbare, left'', hrest, hsuffix'.trans hsuffix⟩

/-- What is left of a line after a scan is typed code again, and the scan can go on. -/
theorem Passes.next {left t rest : List UInt8} (hleft : Typed left) (h : Passes left t rest) :
    ∃ left', rest = left' ++ endLine :: t ∧ Typed left' ∧ left' <:+ left ∧
      ∀ rest', Passes left' t rest' → Passes left t rest' := by
  obtain ⟨code, left', rfl, rfl, hcode | rfl⟩ := h
  · exact ⟨left', rfl, hleft.of_closed_append hcode, List.suffix_append code left',
      fun rest' h => h.closed hcode⟩
  · refine ⟨[], rfl, .nil, List.nil_suffix, ?_⟩
    rintro rest' ⟨more, left', hnil, rfl, -⟩
    obtain ⟨rfl, rfl⟩ := List.append_eq_nil_iff.1 hnil.symm
    exact ⟨code, [], rfl, rfl, .inr rfl⟩

/-- A scanner that starts at `left` stays in the line, whether it succeeds or fails. -/
structure StaysAt (p : Scanner α) (left t : List UInt8) : Prop where
  passes : ∀ ⦃a rest⦄, p (left ++ endLine :: t) = .ok a rest → Passes left t rest
  fails : ∀ ⦃e rest⦄, p (left ++ endLine :: t) = .error e rest → FailsIn left t e rest

/-- A scanner whose outcome is known, if it succeeds. -/
theorem StaysAt.of_ok {p : Scanner α} {left t rest : List UInt8} {a : α}
    (h : p (left ++ endLine :: t) = .ok a rest) (hpasses : Passes left t rest) :
    StaysAt p left t where
  passes a' rest' h' := by
    rw [h] at h'
    cases h'
    exact hpasses
  fails e rest' h' := by
    rw [h] at h'
    cases h'

/-- A scanner whose outcome is known, if it fails. -/
theorem StaysAt.of_error {p : Scanner α} {left left' t : List UInt8} (code : ErrorCode)
    (h : p (left ++ endLine :: t) = .error (.of code) (left' ++ endLine :: t))
    (hsuffix : left' <:+ left) : StaysAt p left t where
  passes a rest h' := by
    rw [h] at h'
    cases h'
  fails e rest h' := by
    rw [h] at h'
    cases h'
    exact ⟨⟨code, rfl⟩, left', rfl, hsuffix⟩

/-- A scanner stays in the line wherever it starts. -/
def Stays (p : Scanner α) : Prop :=
  ∀ ⦃left : List UInt8⦄ (t : List UInt8), Typed left → StaysAt p left t

/-- One scanner after another. -/
theorem StaysAt.bind {p : Scanner α} {f : α → Scanner β} {left t : List UInt8} (hleft : Typed left)
    (hp : StaysAt p left t) (hf : ∀ a, Stays (f a)) : StaysAt (p >>= f) left t := by
  cases hread : p (left ++ endLine :: t) with
  | ok a rest =>
    obtain ⟨left₁, rfl, hleft₁, hsuffix, hnext⟩ := (hp.passes hread).next hleft
    have hbind : (p >>= f) (left ++ endLine :: t) = f a (left₁ ++ endLine :: t) := by
      rw [Effect.bind_apply, hread]
    constructor
    · intro b rest h
      exact hnext _ ((hf a t hleft₁).passes (hbind.symm.trans h))
    · intro e rest h
      exact ((hf a t hleft₁).fails (hbind.symm.trans h)).after hsuffix
  | error e rest =>
    obtain ⟨⟨code, rfl⟩, left', rfl, hsuffix⟩ := hp.fails hread
    exact .of_error code (by rw [Effect.bind_apply, hread]) hsuffix

theorem Stays.bind {p : Scanner α} {f : α → Scanner β} (hp : Stays p) (hf : ∀ a, Stays (f a)) :
    Stays (p >>= f) :=
  fun _ t hleft => (hp t hleft).bind hleft hf

theorem Stays.pure (a : α) : Stays (pure a : Scanner α) :=
  fun left t _ => .of_ok rfl (.refl left t)

theorem Stays.throw (code : ErrorCode) : Stays (throw (.of code) : Scanner α) :=
  fun left _ _ => .of_error code rfl (List.suffix_refl left)

theorem Stays.get : Stays (MonadState.get : Scanner (List UInt8)) :=
  fun left t _ => .of_ok rfl (.refl left t)

/-- A scanner that passes some lexemes, and after that does what another one does. -/
theorem StaysAt.closed {p q : Scanner α} {code left t : List UInt8} (hcode : Closed code)
    (hp : StaysAt p left t) (h : q (code ++ left ++ endLine :: t) = p (left ++ endLine :: t)) :
    StaysAt q (code ++ left) t where
  passes _ _ hq := (hp.passes (h.symm.trans hq)).closed hcode
  fails _ _ hq := (hp.fails (h.symm.trans hq)).after (List.suffix_append code left)

theorem Stays.ite {c : Prop} [Decidable c] {p q : Scanner α} (hp : Stays p) (hq : Stays q) :
    Stays (if c then p else q) := by
  split
  · exact hp
  · exact hq

theorem StaysAt.ite {c : Prop} [Decidable c] {p q : Scanner α} {left t : List UInt8}
    (hp : c → StaysAt p left t) (hq : ¬ c → StaysAt q left t) :
    StaysAt (if c then p else q) left t := by
  split
  · exact hp ‹c›
  · exact hq ‹¬ c›

theorem Stays.ofExcept {kind : ErrorCode → Prop} {x : Except BasicError α} (hx : Raises kind x) :
    Stays (Expression.ofExcept x) := by
  cases x with
  | ok a => exact .pure a
  | error e =>
    obtain ⟨code, -, rfl⟩ := hx e rfl
    exact .throw code

/-! ## Single bytes and tokens -/

/-- Bytes of a kind are passed up to the end of the line at most. -/
theorem dropWhile_append_endLine {p : UInt8 → Bool} (hp : p endLine = false) (left t : List UInt8) :
    (left ++ endLine :: t).dropWhile p = left.dropWhile p ++ endLine :: t := by
  rw [List.dropWhile_append]
  split
  · rename_i hempty
    rw [List.isEmpty_iff.1 hempty, List.dropWhile_cons_of_neg (by simp [hp])]
    rfl
  · rfl

theorem isPlain_of_isBlank {b : UInt8} : isBlank b = true → isPlain b = true :=
  forall_byte (P := fun b => isBlank b = true → isPlain b = true) (by decide +kernel) b

theorem closed_takeWhile {p : UInt8 → Bool} (hp : ∀ b, p b = true → isPlain b = true)
    (left : List UInt8) : Closed (left.takeWhile p) :=
  .plains fun b hb => hp b (List.mem_takeWhile_imp hb)

/-- Plain bytes are passed one by one. -/
theorem stays_skipWhile {p : UInt8 → Bool} (hend : p endLine = false)
    (hp : ∀ b, p b = true → isPlain b = true) : Stays (skipWhile p) := by
  intro left t _
  refine .of_ok (by rw [skipWhile_apply, dropWhile_append_endLine hend]) ?_
  exact ⟨left.takeWhile p, left.dropWhile p, List.takeWhile_append_dropWhile.symm, rfl,
    .inl (closed_takeWhile hp left)⟩

theorem stays_blanks : Stays (skipWhile isBlank) :=
  stays_skipWhile (by decide) fun _ => isPlain_of_isBlank

theorem stays_next : Stays next? :=
  stays_blanks.bind fun _ => Stays.get.bind fun _ => .pure _

/-- After blanks comes the end of the line, or a lexeme. -/
theorem Stays.ofNext {f : Option UInt8 → Scanner α}
    (hend : ∀ t, StaysAt (f (some endLine)) [] t)
    (hlexeme : ∀ b rest t, Typed (b :: rest) → StaysAt (f (some b)) (b :: rest) t) :
    Stays (next? >>= f) := by
  intro left t hleft
  have hdrop := hleft.dropWhile_isBlank
  have hread : (next? >>= f) (left ++ endLine :: t) =
      f (left.dropWhile isBlank ++ endLine :: t).head? (left.dropWhile isBlank ++ endLine :: t) := by
    rw [Effect.bind_apply, next?_apply, dropWhile_append_endLine (by decide)]
  have hsplit := List.takeWhile_append_dropWhile (p := isBlank) (l := left)
  nth_rewrite 1 [← hsplit] at hread
  rw [← hsplit]
  refine .closed (closed_takeWhile (fun _ => isPlain_of_isBlank) left) ?_ hread
  cases hcode : left.dropWhile isBlank with
  | nil => exact hend t
  | cons b after =>
    rw [hcode] at hdrop
    exact hlexeme b after t hdrop

/-- The first byte of a line can be passed if it is a token of its own. -/
theorem StaysAt.byte {f : Option UInt8 → Scanner α} {b : UInt8} {rest t : List UInt8}
    (hb : isPlain b = true) (h : StaysAt (f (some b)) rest t) :
    StaysAt (byte? >>= f) (b :: rest) t :=
  StaysAt.closed (.plain hb) h rfl

/-- After a plain byte comes another lexeme. -/
theorem tail_of_isPlain {b : UInt8} {rest : List UInt8} (hb : isPlain b = true)
    (h : Typed (b :: rest)) : Typed rest :=
  LexicalIn.of_closed_append (.plain hb) h

/-- Bytes that are a token with its operand. -/
def IsToken (token : List UInt8) : Prop :=
  ∃ lead operand, token = lead :: operand ∧ lead ∉ [endLine, quote, rem] ∧
    operand.length = operandLength lead

theorem isToken_plain {b : UInt8} (hb : isPlain b = true) : IsToken [b] := by
  simp only [isPlain, Bool.and_eq_true, decide_eq_true_eq] at hb
  exact ⟨b, [], rfl, hb.1, hb.2.symm⟩

/-- Any keyword but `REM` is a token that can be passed. -/
theorem isToken_keyword {k : Keyword} (hk : k ≠ .REM) : IsToken k.code := by
  cases k <;> first
    | exact absurd rfl hk
    | exact isToken_plain (by decide)
    | exact ⟨_, [_], rfl, by decide, by decide⟩

/-- A token that comes next is one of the line. -/
theorem exists_of_take_eq {token left t : List UInt8} (htoken : IsToken token) (hleft : Typed left)
    (h : (left ++ endLine :: t).take token.length = token) : ∃ after, left = token ++ after := by
  obtain ⟨lead, operand, rfl, hlead, hlength⟩ := htoken
  cases left with
  | nil =>
    simp only [List.nil_append, List.length_cons, List.take_succ_cons, List.cons.injEq] at h
    simp [h.1] at hlead
  | cons b rest =>
    simp only [List.cons_append, List.length_cons, List.take_succ_cons, List.cons.injEq] at h
    obtain ⟨rfl, htake⟩ := h
    obtain ⟨-, operand', after, rfl, hlength', -⟩ | ⟨rfl, -⟩ | ⟨rfl, -⟩ | ⟨rfl, -⟩ := hleft.cons_cases
    · rw [List.append_assoc, hlength, ← hlength', List.take_left] at htake
      exact ⟨after, by rw [htake, List.cons_append]⟩
    · simp at hlead
    · simp at hlead
    · simp at hlead

theorem IsToken.closed {token : List UInt8} (h : IsToken token) : Closed token := by
  obtain ⟨lead, operand, rfl, hlead, hlength⟩ := h
  exact .single hlead hlength

/-- A token is passed if it comes next. -/
theorem acceptAny_apply (token code : List UInt8) :
    acceptAny [token] code =
      if code.take token.length = token then .ok true (code.drop token.length)
      else .ok false code := by
  simp only [acceptAny, Effect.bind_apply, Effect.get_apply, List.mem_singleton, Effect.ite_apply]
  by_cases h : code.take token.length = token
  · rw [if_pos h, if_pos ⟨congrArg List.length h, h⟩]
    rfl
  · rw [if_neg h, if_neg fun hfound => h hfound.2]
    rfl

theorem stays_acceptAny {token : List UInt8} (htoken : IsToken token) : Stays (acceptAny [token]) := by
  intro left t hleft
  by_cases hfound : (left ++ endLine :: t).take token.length = token
  · obtain ⟨after, rfl⟩ := exists_of_take_eq htoken hleft hfound
    refine .closed htoken.closed (Stays.pure true t (hleft.of_closed_append htoken.closed)) ?_
    rw [acceptAny_apply, if_pos hfound, List.append_assoc, List.drop_left]
    rfl
  · exact .of_ok (by rw [acceptAny_apply, if_neg hfound]) (.refl left t)

theorem stays_accept {token : List UInt8} (htoken : IsToken token) : Stays (accept token) :=
  stays_blanks.bind fun _ => stays_acceptAny htoken

theorem stays_expect {token : List UInt8} (htoken : IsToken token) : Stays (expect token) :=
  stays_blanks.bind fun _ => (stays_acceptAny htoken).bind fun _ => .ite (.pure _) (.throw _)

/-! ## Line numbers and names -/

theorem stays_jumpTarget? : Stays jumpTarget? := by
  simp only [jumpTarget?, accept, bind_assoc]
  refine stays_blanks.bind fun _ left t hleft => ?_
  by_cases hfound : (left ++ endLine :: t).take [lineNumber].length = [lineNumber]
  · -- the number is an operand, which the line holds as a whole
    cases left with
    | nil => cases hfound
    | cons b more =>
      obtain rfl : b = lineNumber := (List.cons.inj hfound).1
      obtain ⟨-, operand, after, rfl, hlength, -⟩ | ⟨hb, -⟩ | ⟨hb, -⟩ | ⟨hb, -⟩ := hleft.cons_cases
      · obtain ⟨lo, hi, rfl⟩ := List.length_eq_two.1 hlength
        refine .of_ok (by rw [Effect.bind_apply, acceptAny_apply, if_pos hfound]; rfl) ?_
        exact (Passes.refl after t).closed (.single (by decide) hlength)
      · exact absurd hb (by decide)
      · exact absurd hb (by decide)
      · exact absurd hb (by decide)
  · refine .of_ok (a := none) ?_ (.refl left t)
    rw [Effect.bind_apply, acceptAny_apply, if_neg hfound]
    rfl

theorem stays_jumpTarget : Stays jumpTarget :=
  stays_jumpTarget?.bind fun line => by
    cases line with
    | none => exact .throw _
    | some line => exact .pure line

theorem isPlain_of_isNameByte {b : UInt8} : isNameByte b = true → isPlain b = true :=
  forall_byte (P := fun b => isNameByte b = true → isPlain b = true) (by decide +kernel) b

/-- A name is passed with its mark. -/
theorem passes_splitName (left t : List UInt8) :
    Passes left t (splitName (left ++ endLine :: t)).2 := by
  have hstem := closed_takeWhile (fun _ => isPlain_of_isNameByte) left
  have hsplit := List.takeWhile_append_dropWhile (p := isNameByte) (l := left)
  simp only [splitName, dropWhile_append_endLine (p := isNameByte) (by decide)]
  cases hrest : left.dropWhile isNameByte with
  | nil =>
    rw [hrest] at hsplit
    exact ⟨_, [], hsplit.symm, rfl, .inr rfl⟩
  | cons b rest =>
    rw [hrest] at hsplit
    simp only [List.cons_append]
    by_cases hb : isSigil b = true
    · simp only [hb, if_true]
      refine ⟨left.takeWhile isNameByte ++ [b], rest, by simpa using hsplit.symm, rfl, .inl ?_⟩
      exact hstem.append (.plain (Crunch.isPlain_sigil hb))
    · simp only [hb, Bool.false_eq_true, if_false]
      exact ⟨_, b :: rest, hsplit.symm, rfl, .inl hstem⟩

theorem stays_name? : Stays name? := by
  refine stays_next.bind fun found => ?_
  cases found with
  | none => exact .pure _
  | some b =>
    refine Stays.ite (fun left t _ => ?_) (.pure _)
    exact .of_ok rfl (passes_splitName left t)

theorem stays_name : Stays name :=
  stays_name?.bind fun _ => .ite ((Stays.throw _).bind fun _ => .pure _) (.pure _)

end Scan

namespace Expression

open Scan

/-! ## Expressions -/

/-- A literal ends behind its closing quote, or at the end of the line. -/
theorem splitString_of_inside {inside : List UInt8} {b : UInt8} (rest : List UInt8)
    (hquote : quote ∉ inside) (hend : endLine ∉ inside) (hb : b = quote ∨ b = endLine) :
    (splitString (inside ++ b :: rest)).2 = if b = quote then rest else b :: rest := by
  have hpass : ∀ c ∈ inside, (c ≠ endLine && c ≠ quote) = true := by
    intro c hc
    simp [ne_of_mem_of_not_mem hc hend, ne_of_mem_of_not_mem hc hquote]
  have hstop : ¬ (b ≠ endLine && b ≠ quote) = true := by
    rcases hb with rfl | rfl <;> simp
  have hdrop : (inside ++ b :: rest).dropWhile (fun c => c ≠ endLine && c ≠ quote) = b :: rest := by
    rw [List.dropWhile_append_of_pos hpass]
    exact List.dropWhile_cons_of_neg hstop
  simp only [splitString, hdrop]
  split <;> rfl

/-- A string literal is read whole, or to the end of the line. -/
theorem staysAt_literal {rest t : List UInt8} {f : List UInt8 → Value × List UInt8}
    (hf : ∀ code, (f code).2 = (splitString code).2) (hleft : Typed (quote :: rest)) :
    StaysAt (do let _ ← byte?; modifyGet f : Scanner Value) (quote :: rest) t := by
  have hread : (do let _ ← byte?; modifyGet f : Scanner Value) (quote :: rest ++ endLine :: t) =
      .ok (f (rest ++ endLine :: t)).1 (splitString (rest ++ endLine :: t)).2 := by
    rw [← hf]
    rfl
  refine .of_ok hread ?_
  obtain ⟨hlead, -⟩ | ⟨-, inside, after, rfl, hquote, hinside, -⟩ | ⟨-, hquote, hinside⟩ | ⟨hrem, -⟩ :=
    hleft.cons_cases
  · simp at hlead
  · rw [List.append_assoc, List.cons_append, splitString_of_inside _ hquote
      (not_mem_of_typed (by simp) hinside) (.inl rfl)]
    exact ⟨quote :: (inside ++ [quote]), after, by simp, by simp, .inl (.literal hquote .nil)⟩
  · rw [splitString_of_inside _ hquote (not_mem_of_typed (by simp) hinside) (.inr rfl)]
    exact ⟨quote :: rest, [], by simp, by simp; decide, .inr rfl⟩
  · exact absurd hrem (by decide)

/-- A numeric constant is read with its operand. -/
theorem staysAt_constant {b : UInt8} {rest t : List UInt8}
    (hb : b ∈ [byteConstant, integerConstant, lineNumber, singleConstant])
    (hleft : Typed (b :: rest)) :
    StaysAt (do
      let _ ← byte?
      let operand ← take (operandLength b)
      if operand.length < operandLength b then throw (.of .syntaxError)
      return constant b operand : Scanner Value) (b :: rest) t := by
  have hlead : b ∉ [endLine, quote, rem] := by
    simp only [List.mem_cons, List.not_mem_nil, or_false] at hb
    rcases hb with rfl | rfl | rfl | rfl <;> decide
  obtain ⟨-, operand, after, rfl, hlength, -⟩ | ⟨rfl, -⟩ | ⟨rfl, -⟩ | ⟨rfl, -⟩ := hleft.cons_cases
  · refine .of_ok (a := constant b operand) ?_ ((Passes.refl after t).closed (.single hlead hlength))
    simp only [Effect.bind_apply, List.cons_append, byte?_apply, take, Effect.modifyGet_apply,
      List.tail_cons, List.append_assoc, ← hlength, List.take_left, List.drop_left,
      Nat.lt_irrefl, if_false, Effect.ite_apply, Effect.pure_apply]
  · simp at hlead
  · simp at hlead
  · simp at hlead

/-- The bytes that a term may start with, apart from letters, quotes and constants with operands, are
tokens of their own. -/
theorem not_opens_of_not_isPlain {b : UInt8} : isPlain b = false →
    (zero ≤ b && b ≤ ten) = false ∧ b ≠ Operator.minus.code ∧ b ≠ Operator.plus.code ∧
      b ≠ openParen ∧ [b] ≠ Keyword.ERR.code ∧ [b] ≠ Keyword.ERL.code :=
  forall_byte (P := fun b => isPlain b = false →
    (zero ≤ b && b ≤ ten) = false ∧ b ≠ Operator.minus.code ∧ b ≠ Operator.plus.code ∧
      b ≠ openParen ∧ [b] ≠ Keyword.ERR.code ∧ [b] ≠ Keyword.ERL.code) (by decide +kernel) b

/-- An operand is read on its own line, if what is in parentheses is. -/
theorem stays_term (scope : Scope) {parenthesised : Scanner Value} (hparens : Stays parenthesised)
    (fuel : Nat) : Stays (term scope parenthesised fuel) := by
  induction fuel with
  | zero => exact .throw _
  | succ fuel ih =>
    unfold term
    refine Stays.ofNext ?_ ?_
    · exact fun t => .of_error _ rfl (List.suffix_refl [])
    · intro b rest t hleft
      refine .ite (fun _ => Stays.throw _ t hleft) fun _ => ?_
      refine .ite (fun _ => (stays_name.bind fun _ => .pure _) t hleft) fun _ => ?_
      by_cases hquote : b = quote
      · subst hquote
        simp only [if_true]
        exact staysAt_literal (fun _ => rfl) hleft
      · by_cases hconstant : b ∈ [byteConstant, integerConstant, lineNumber, singleConstant]
        · have hdigit : ¬ (zero ≤ b && b ≤ ten) = true := by
            simp only [List.mem_cons, List.not_mem_nil, or_false] at hconstant
            rcases hconstant with rfl | rfl | rfl | rfl <;> decide
          simp only [hquote, hdigit, hconstant, if_true, if_false]
          exact staysAt_constant hconstant hleft
        · simp only [hquote, hconstant, if_false]
          by_cases hplain : isPlain b = true
          · have hrest := tail_of_isPlain hplain hleft
            refine StaysAt.byte hplain ?_
            refine .ite (fun _ => Stays.pure _ t hrest) fun _ => ?_
            refine .ite (fun _ => (ih.bind fun v => .ofExcept v.raises_negate) t hrest) fun _ => ?_
            refine .ite (fun _ => ih t hrest) fun _ => ?_
            refine .ite (fun _ => ?_) fun _ => ?_
            · exact (hparens.bind fun v => (stays_expect (isToken_plain (by decide))).bind fun _ =>
                .pure v) t hrest
            · exact (Stays.ite (.pure _) (.ite (.pure _) (.throw _))) t hrest
          · obtain ⟨hdigit, hminus, hplus, hparen, herr, herl⟩ :=
              not_opens_of_not_isPlain (Bool.eq_false_iff.2 hplain)
            refine .of_error .syntaxError ?_ (List.suffix_cons b rest)
            simp [hdigit, hminus, hplus, hparen, herr, herl]

theorem stays_sum {operand : Scanner Value} (hoperand : Stays operand) (fuel : Nat) (v : Value) :
    Stays (sum operand fuel v) := by
  induction fuel generalizing v with
  | zero => exact .pure v
  | succ fuel ih =>
    unfold sum
    refine (stays_accept (isToken_plain (by decide))).bind fun _ => ?_
    refine .ite (hoperand.bind fun w => (Stays.ofExcept (v.raises_add w)).bind ih) ?_
    refine (stays_accept (isToken_plain (by decide))).bind fun _ => ?_
    exact .ite (hoperand.bind fun w => (Stays.ofExcept (v.raises_subtract w)).bind ih) (.pure v)

/-- So is an expression, however deep it is nested. -/
theorem stays_nested (scope : Scope) (depth : Nat) : Stays (nested scope depth) := by
  induction depth with
  | zero => exact .throw _
  | succ depth ih =>
    refine Stays.get.bind fun _ => ?_
    have hterm := stays_term scope ih
    exact (hterm _).bind fun v => stays_sum (hterm _) _ v

theorem stays_value (scope : Scope) : Stays (value scope) :=
  Stays.get.bind fun _ => stays_nested scope _

theorem stays_integer (scope : Scope) : Stays (integer scope) :=
  (stays_value scope).bind fun v => .ofExcept v.raises_toInteger

theorem stays_string (scope : Scope) : Stays (string scope) :=
  (stays_value scope).bind fun v => by
    cases v with
    | string s => exact .pure s
    | _ => exact .throw _

end Expression

end LineBasic

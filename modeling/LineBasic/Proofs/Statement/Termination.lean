import LineBasic.Proofs.Statement.Progress

/-!
# Reading comes to an end

Sums are read term by term, `PRINT` item by item and `CLOSE` number by number.  Each time at least one byte
is taken, so these loops end by themselves, on any bytes, and never because they have run too long.

* `Expression.Evaluates`, `Parse.Prints`, `Parse.Closes`: the loops as finite derivations, without a bound.
* `Parse.Terminates`, `Parse.terminates`: every loop has such a derivation, with the result that the
  scanner gives.
-/

namespace LineBasic

open Token Effect

namespace Expression

open Scan

/-! ## Expressions -/

/-- The operators of sums, and what they do. -/
def combine? : Operator → Option (Value → Value → Except BasicError Value)
  | .plus => some Value.add
  | .minus => some Value.subtract
  | _ => none

/-- What is left to be read of an expression. -/
inductive Part where
  | operand
  /-- The operators and operands after a value. -/
  | sum (v : Value)
  | whole

/-- A result that is worked on. -/
def andThen {α β : Type} (r : EStateM.Result BasicError (List UInt8) α) (f : α → Scanner β) :
    EStateM.Result BasicError (List UInt8) β :=
  match r with
  | .ok a rest => f a rest
  | .error e rest => .error e rest

theorem bind_eq_andThen {α β : Type} (p : Scanner α) (f : α → Scanner β) (code : List UInt8) :
    (p >>= f) code = andThen (p code) f := by
  rw [bind_apply]
  cases p code <;> rfl

/-- An expression is read from code, in finitely many steps. -/
inductive Evaluates (scope : Scope) :
    Part → List UInt8 → EStateM.Result BasicError (List UInt8) Value → Prop where
  /-- What has no sign and no parenthesis is read at once. -/
  | atom {code : List UInt8} (hnext : ∀ c, (code.dropWhile isBlank).head? = some c →
      c ∉ [Operator.minus.code, Operator.plus.code, openParen]) :
      Evaluates scope .operand code (term scope (throw (.of .syntaxError)) 1 code)
  | minus {code rest : List UInt8} {r : EStateM.Result BasicError (List UInt8) Value}
      (hnext : code.dropWhile isBlank = Operator.minus.code :: rest)
      (h : Evaluates scope .operand rest r) :
      Evaluates scope .operand code (andThen r fun v => ofExcept v.negate)
  | plus {code rest : List UInt8} {r : EStateM.Result BasicError (List UInt8) Value}
      (hnext : code.dropWhile isBlank = Operator.plus.code :: rest)
      (h : Evaluates scope .operand rest r) : Evaluates scope .operand code r
  | parens {code rest : List UInt8} {r : EStateM.Result BasicError (List UInt8) Value}
      (hnext : code.dropWhile isBlank = openParen :: rest) (h : Evaluates scope .whole rest r) :
      Evaluates scope .operand code (andThen r fun v => do expect [closeParen]; return v)
  | failed {code rest : List UInt8} {e : BasicError}
      (h : Evaluates scope .operand code (.error e rest)) : Evaluates scope .whole code (.error e rest)
  | whole {code rest : List UInt8} {v : Value} {r : EStateM.Result BasicError (List UInt8) Value}
      (h : Evaluates scope .operand code (.ok v rest)) (hsum : Evaluates scope (.sum v) rest r) :
      Evaluates scope .whole code r
  | ended {code : List UInt8} (v : Value) (hnext : ∀ c, (code.dropWhile isBlank).head? = some c →
      c ∉ [Operator.plus.code, Operator.minus.code]) :
      Evaluates scope (.sum v) code (.ok v (code.dropWhile isBlank))
  | stuck {code rest after : List UInt8} {op : Operator}
      {f : Value → Value → Except BasicError Value} {v : Value} {e : BasicError}
      {r : EStateM.Result BasicError (List UInt8) Value} (hop : combine? op = some f)
      (hnext : code.dropWhile isBlank = op.code :: rest) (h : Evaluates scope .operand rest r)
      (hcombine : andThen r (fun w => ofExcept (f v w)) = .error e after) :
      Evaluates scope (.sum v) code (.error e after)
  | combined {code rest after : List UInt8} {op : Operator}
      {f : Value → Value → Except BasicError Value} {v u : Value}
      {r r' : EStateM.Result BasicError (List UInt8) Value} (hop : combine? op = some f)
      (hnext : code.dropWhile isBlank = op.code :: rest) (h : Evaluates scope .operand rest r)
      (hcombine : andThen r (fun w => ofExcept (f v w)) = .ok u after)
      (hsum : Evaluates scope (.sum u) after r') : Evaluates scope (.sum v) code r'

theorem evaluates_term {scope : Scope} {parenthesised : Scanner Value} {bound fuel : Nat}
    {code : List UInt8}
    (hparens : ∀ code, code.length < bound → Evaluates scope .whole code (parenthesised code))
    (hbound : code.length ≤ bound) (hfuel : code.length < fuel) :
    Evaluates scope .operand code (term scope parenthesised fuel code) := by
  induction fuel generalizing code with
  | zero => cases hfuel
  | succ fuel ih =>
    have hdrop := List.length_dropWhile_le isBlank code
    cases hcode : code.dropWhile isBlank with
    | nil =>
      have hatom := @Evaluates.atom scope code (by simp [hcode])
      rw [term_apply, hcode] at hatom ⊢
      exact hatom
    | cons c rest =>
      rw [hcode, List.length_cons] at hdrop
      by_cases hminus : c = Operator.minus.code
      · subst hminus
        have h := Evaluates.minus hcode (@ih rest (by omega) (by omega))
        rw [← bind_eq_andThen] at h
        rw [term_apply, hcode]
        exact h
      by_cases hplus : c = Operator.plus.code
      · subst hplus
        have h := Evaluates.plus hcode (@ih rest (by omega) (by omega))
        rw [term_apply, hcode]
        exact h
      by_cases hparen : c = openParen
      · subst hparen
        have h := Evaluates.parens hcode (hparens rest (by omega))
        rw [← bind_eq_andThen] at h
        rw [term_apply, hcode]
        exact h
      · have hatom := @Evaluates.atom scope code (by simp [hcode, hminus, hplus, hparen])
        rw [term_apply, hcode] at hatom ⊢
        simp only [afterFirst, hminus, hplus, hparen, if_false] at hatom ⊢
        exact hatom

theorem evaluates_sum {scope : Scope} {operand : Scanner Value} {bound fuel : Nat} {code : List UInt8}
    (v : Value) (hshrinks : Shrinks operand)
    (hoperand : ∀ code, code.length ≤ bound → Evaluates scope .operand code (operand code))
    (hbound : code.length ≤ bound) (hfuel : code.length < fuel) :
    Evaluates scope (.sum v) code (sum operand fuel v code) := by
  induction fuel generalizing code v with
  | zero => cases hfuel
  | succ fuel ih =>
    have hdrop := List.length_dropWhile_le isBlank code
    have hstep {op : Operator} {f : Value → Value → Except BasicError Value} {rest : List UInt8}
        (hop : combine? op = some f) (hnext : code.dropWhile isBlank = op.code :: rest) :
        Evaluates scope (.sum v) code
          ((do sum operand fuel (← do ofExcept (f v (← operand))) : Scanner Value) rest) := by
      rw [hnext, List.length_cons] at hdrop
      have hterm := hoperand rest (by omega)
      rw [← bind_assoc, bind_apply, bind_eq_andThen]
      cases hcombine : andThen (operand rest) fun w => ofExcept (f v w) with
      | error e after => exact .stuck hop hnext hterm hcombine
      | ok u after =>
        have hle : after.length ≤ rest.length :=
          (hshrinks.bind fun _ => .ofExcept _).length_le ((bind_eq_andThen _ _ _).trans hcombine)
        exact .combined hop hnext hterm hcombine (ih u (by omega) (by omega))
    rw [Source.sum_apply]
    by_cases hplus : (code.dropWhile isBlank).head? = some Operator.plus.code
    · obtain ⟨rest, hrest⟩ := List.head?_eq_some_iff.1 hplus
      rw [if_pos hplus, hrest]
      exact @hstep .plus _ _ rfl hrest
    · rw [if_neg hplus]
      by_cases hminus : (code.dropWhile isBlank).head? = some Operator.minus.code
      · obtain ⟨rest, hrest⟩ := List.head?_eq_some_iff.1 hminus
        rw [if_pos hminus, hrest]
        exact @hstep .minus _ _ rfl hrest
      · rw [if_neg hminus]
        refine .ended v fun c hc => ?_
        rintro (_ | ⟨_, _ | ⟨_, hnil⟩⟩)
        · exact hplus hc
        · exact hminus hc
        · cases hnil

theorem evaluates_nested {scope : Scope} {depth : Nat} {code : List UInt8} (hdepth : code.length < depth) :
    Evaluates scope .whole code (nested scope depth code) := by
  induction depth generalizing code with
  | zero => cases hdepth
  | succ depth ih =>
    have hshrinks := shrinks_term scope (shrinks_nested scope depth) (code.length + 1)
    have hoperand : ∀ code', code'.length ≤ code.length → Evaluates scope .operand code'
        (term scope (nested scope depth) (code.length + 1) code') := fun code' hle =>
      @evaluates_term scope _ code.length _ _ (fun inner hinner => ih (by omega)) hle (by omega)
    have hread : nested scope (depth + 1) code =
        (do sum (term scope (nested scope depth) (code.length + 1)) (code.length + 1)
              (← term scope (nested scope depth) (code.length + 1)) : Scanner Value) code := rfl
    rw [hread, bind_apply]
    have hfirst := hoperand code (Nat.le_refl _)
    cases hterm : term scope (nested scope depth) (code.length + 1) code with
    | error e rest =>
      rw [hterm] at hfirst
      exact .failed hfirst
    | ok v rest =>
      rw [hterm] at hfirst
      have hle := hshrinks.length_le hterm
      exact .whole hfirst (evaluates_sum v hshrinks hoperand hle (by omega))

theorem evaluates_value (scope : Scope) (code : List UInt8) :
    Evaluates scope .whole code (value scope code) :=
  evaluates_nested (Nat.lt_succ_self _)

end Expression

namespace Parse

open Scan Expression

variable {scope : Scope}

/-! ## Items and numbers -/

/-- The items of `PRINT` are read from code, in finitely many steps. -/
inductive Prints (scope : Scope) :
    Bool → String → List UInt8 → EStateM.Result BasicError (List UInt8) String → Prop where
  | ended {newline : Bool} {out : String} {code : List UInt8}
      (hnext : (code.dropWhile isBlank).head?.getD endLine ∈ statementEnds) :
      Prints scope newline out code
        (.ok (if newline then out ++ "\n" else out) (code.dropWhile isBlank))
  | semicolon {newline : Bool} {out : String} {code rest : List UInt8}
      {r : EStateM.Result BasicError (List UInt8) String}
      (hnext : code.dropWhile isBlank = semicolon :: rest) (h : Prints scope false out rest r) :
      Prints scope newline out code r
  /-- To the next zone. -/
  | comma {newline : Bool} {out : String} {code rest : List UInt8}
      {r : EStateM.Result BasicError (List UInt8) String}
      (hnext : code.dropWhile isBlank = comma :: rest)
      (h : Prints scope false
        (out ++ String.ofList (List.replicate (zoneWidth - out.utf8ByteSize % zoneWidth) ' ')) rest r) :
      Prints scope newline out code r
  | item {newline : Bool} {out : String} {code after : List UInt8} {v : Value}
      {r : EStateM.Result BasicError (List UInt8) String}
      (hnext : (code.dropWhile isBlank).head?.getD endLine ∉ [endLine, colon, semicolon, comma])
      (hvalue : Evaluates scope .whole (code.dropWhile isBlank) (.ok v after))
      (h : Prints scope true (out ++ v.text) after r) : Prints scope newline out code r
  | failed {newline : Bool} {out : String} {code after : List UInt8} {e : BasicError}
      (hnext : (code.dropWhile isBlank).head?.getD endLine ∉ [endLine, colon, semicolon, comma])
      (hvalue : Evaluates scope .whole (code.dropWhile isBlank) (.error e after)) :
      Prints scope newline out code (.error e after)

/-- The numbers of `CLOSE` are read from code, in finitely many steps. -/
inductive Closes (scope : Scope) : List UInt8 → List UInt8 →
    EStateM.Result BasicError (List UInt8) (List UInt8 × Except BasicError Unit) → Prop where
  | failed {closed code between after : List UInt8} {marked : Bool} {e : BasicError}
      {r : EStateM.Result BasicError (List UInt8) Value} (hmark : accept [hash] code = .ok marked between)
      (hvalue : Evaluates scope .whole between r) (hnumber : andThen r fileNumberOf = .error e after) :
      Closes scope closed code (.ok (closed.reverse, .error e) after)
  | last {closed code between after rest : List UInt8} {marked : Bool} {n : UInt8}
      {r : EStateM.Result BasicError (List UInt8) Value} (hmark : accept [hash] code = .ok marked between)
      (hvalue : Evaluates scope .whole between r) (hnumber : andThen r fileNumberOf = .ok n after)
      (hcomma : accept [comma] after = .ok false rest) :
      Closes scope closed code
        (andThen (attempt endOfStatement rest) fun x => pure ((n :: closed).reverse, x))
  | more {closed code between after rest : List UInt8} {marked : Bool} {n : UInt8}
      {r : EStateM.Result BasicError (List UInt8) Value}
      {r' : EStateM.Result BasicError (List UInt8) (List UInt8 × Except BasicError Unit)}
      (hmark : accept [hash] code = .ok marked between) (hvalue : Evaluates scope .whole between r)
      (hnumber : andThen r fileNumberOf = .ok n after) (hcomma : accept [comma] after = .ok true rest)
      (h : Closes scope (n :: closed) rest r') : Closes scope closed code r'

theorem prints_printItems {newline : Bool} {out : String} {fuel : Nat} {code : List UInt8}
    (hfuel : code.length < fuel) : Prints scope newline out code (printItems scope newline out fuel code) := by
  induction fuel generalizing newline out code with
  | zero => cases hfuel
  | succ fuel ih =>
    have hdrop := List.length_dropWhile_le isBlank code
    rw [Source.printItems_apply]
    dsimp only
    by_cases hend : (code.dropWhile isBlank).head?.getD endLine ∈ statementEnds
    · rw [if_pos hend]
      exact .ended hend
    rw [if_neg hend]
    obtain ⟨b, rest, hcode⟩ : ∃ b rest, code.dropWhile isBlank = b :: rest := by
      refine List.exists_cons_of_ne_nil fun hnil => hend ?_
      rw [hnil]
      decide
    have hhead : (code.dropWhile isBlank).head?.getD endLine = b := by rw [hcode]; rfl
    have htail : (code.dropWhile isBlank).tail = rest := by rw [hcode]; rfl
    have hlength : (code.dropWhile isBlank).length = rest.length + 1 := by rw [hcode]; rfl
    by_cases hsemicolon : (code.dropWhile isBlank).head?.getD endLine = Token.semicolon
    · rw [if_pos hsemicolon, htail]
      exact .semicolon (by rw [hcode, ← hhead, hsemicolon]) (ih (by omega))
    rw [if_neg hsemicolon]
    by_cases hcomma : (code.dropWhile isBlank).head?.getD endLine = Token.comma
    · rw [if_pos hcomma, htail]
      exact .comma (by rw [hcode, ← hhead, hcomma]) (ih (by omega))
    rw [if_neg hcomma, bind_apply]
    have hnext : (code.dropWhile isBlank).head?.getD endLine ∉
        [endLine, colon, Token.semicolon, Token.comma] := by
      simpa [statementEnds, hsemicolon, hcomma] using hend
    have hvalue := evaluates_value scope (code.dropWhile isBlank)
    cases hread : value scope (code.dropWhile isBlank) with
    | error e after =>
      rw [hread] at hvalue
      exact .failed hnext hvalue
    | ok v after =>
      have hlt := advances_value scope hread
      rw [hread] at hvalue
      exact .item hnext hvalue (ih (by omega))

/-- Whether a byte comes next is told without fail. -/
theorem exists_of_accept (b : UInt8) (code : List UInt8) :
    ∃ found rest, accept [b] code = .ok found rest := by
  rw [Source.accept_apply]
  split
  · exact ⟨true, _, rfl⟩
  · exact ⟨false, _, rfl⟩

theorem closes_closeNumbers {closed : List UInt8} {fuel : Nat} {code : List UInt8}
    (hfuel : code.length < fuel) : Closes scope closed code (closeNumbers scope closed fuel code) := by
  induction fuel generalizing closed code with
  | zero => cases hfuel
  | succ fuel ih =>
    obtain ⟨marked, between, hmark⟩ := exists_of_accept hash code
    have hbetween := (shrinks_accept [hash]).length_le hmark
    have hvalue := evaluates_value scope between
    have hnumber : fileNumber scope between = andThen (value scope between) fileNumberOf := by
      rw [fileNumber_eq, bind_eq_andThen]
    rw [closeNumbers, bind_apply, hmark]
    dsimp only
    rw [bind_apply, attempt, hnumber]
    cases hread : andThen (value scope between) fileNumberOf with
    | error e after => exact .failed hmark hvalue hread
    | ok n after =>
      obtain ⟨more, rest, hcomma⟩ := exists_of_accept comma after
      have hafter := advances_fileNumber scope (hnumber.trans hread)
      have hrest := (shrinks_accept [comma]).length_le hcomma
      dsimp only
      rw [bind_apply, hcomma]
      cases more with
      | true => exact .more hmark hvalue hread hcomma (ih (by omega))
      | false =>
        have h := @Closes.last scope closed _ _ _ _ _ _ _ hmark hvalue hread hcomma
        rw [← bind_eq_andThen] at h
        exact h

/-! ## All loops -/

/-- Every loop in the reading of a statement ends by itself, with the result of the scanner: any number of
rounds above the number of bytes is enough. -/
structure Terminates (scope : Scope) : Prop where
  expression : ∀ code, Evaluates scope .whole code (value scope code)
  items : ∀ newline out fuel code, code.length < fuel →
    Prints scope newline out code (printItems scope newline out fuel code)
  numbers : ∀ closed fuel code, code.length < fuel →
    Closes scope closed code (closeNumbers scope closed fuel code)

theorem terminates (scope : Scope) : Terminates scope where
  expression := evaluates_value scope
  items _ _ _ _ := prints_printItems
  numbers _ _ _ := closes_closeNumbers

end Parse

end LineBasic

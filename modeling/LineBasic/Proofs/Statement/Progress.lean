import LineBasic.Proofs.Source.Statements
import LineBasic.Proofs.Statement.Extent

/-!
# Reading makes progress

On any bytes at all, scanners go forward or stay.  Names, operands, keywords and whole statements take at
least one byte.

* `Scan.Shrinks`, `Scan.Advances`: scanners that never go back, and scanners that take something if they
  succeed.
* `Expression.advances_value`, `Parse.advances_fileNumber`, `Parse.advances_word`: what is read takes
  something.
* `Parse.length_lt_of_statement`: so does a statement, unless there is nothing to read.
-/

namespace LineBasic

open Token Effect

namespace Scan

variable {α β : Type}

/-- A scanner never goes back, whether it succeeds or fails. -/
def Shrinks (p : Scanner α) : Prop :=
  Always (fun code rest => rest.length ≤ code.length) p

/-- A scanner takes something if it succeeds. -/
def Advances (p : Scanner α) : Prop :=
  ∀ ⦃code a rest⦄, p code = .ok a rest → rest.length < code.length

/-- What is left is no longer than what there was. -/
theorem Shrinks.length_le {p : Scanner α} (hp : Shrinks p) {code rest : List UInt8} {a : α}
    (h : p code = .ok a rest) : rest.length ≤ code.length := by
  have hle := hp code
  rwa [h] at hle

theorem Shrinks.bind {p : Scanner α} {f : α → Scanner β} (hp : Shrinks p) (hf : ∀ a, Shrinks (f a)) :
    Shrinks (p >>= f) :=
  Always.bind hp hf (fun _ _ h => h) fun _ _ _ h h' => Nat.le_trans h' h

theorem Shrinks.pure (a : α) : Shrinks (pure a : Scanner α) :=
  fun code => Nat.le_refl code.length

theorem Shrinks.throw (e : BasicError) : Shrinks (throw e : Scanner α) :=
  fun code => Nat.le_refl code.length

theorem Shrinks.get : Shrinks (MonadState.get : Scanner (List UInt8)) :=
  fun code => Nat.le_refl code.length

theorem Shrinks.ite {c : Prop} [Decidable c] {p q : Scanner α} (hp : Shrinks p) (hq : Shrinks q) :
    Shrinks (if c then p else q) :=
  Always.ite hp hq

theorem Shrinks.ofExcept (x : Except BasicError α) : Shrinks (Expression.ofExcept x) := by
  cases x with
  | ok a => exact .pure a
  | error e => exact .throw e

theorem Advances.bind {p : Scanner α} {f : α → Scanner β} (hp : Advances p) (hf : ∀ a, Shrinks (f a)) :
    Advances (p >>= f) := by
  intro code b rest h
  rw [bind_apply] at h
  split at h
  · rename_i a between hread
    exact Nat.lt_of_le_of_lt ((hf a).length_le h) (hp hread)
  · cases h

/-- What takes something may come after what may take nothing. -/
theorem Shrinks.bind_advances {p : Scanner α} {f : α → Scanner β} (hp : Shrinks p)
    (hf : ∀ a, Advances (f a)) : Advances (p >>= f) := by
  intro code b rest h
  rw [bind_apply] at h
  split at h
  · rename_i a between hread
    exact Nat.lt_of_lt_of_le (hf a h) (hp.length_le hread)
  · cases h

/-! ## Scanners -/

/-- Bytes of a kind are passed. -/
theorem shrinks_skipWhile (p : UInt8 → Bool) : Shrinks (skipWhile p) :=
  List.length_dropWhile_le p

theorem shrinks_next : Shrinks next? :=
  (shrinks_skipWhile _).bind fun _ => Shrinks.get.bind fun _ => .pure _

theorem shrinks_byte : Shrinks byte? := by
  intro code
  rw [byte?_apply]
  exact (List.tail_suffix code).length_le

theorem shrinks_take (n : Nat) : Shrinks (take n) :=
  fun code => (List.drop_suffix n code).length_le

theorem shrinks_acceptAny (token : List UInt8) : Shrinks (acceptAny [token]) := by
  intro code
  rw [acceptAny_apply]
  split
  · exact (List.drop_suffix _ code).length_le
  · exact Nat.le_refl _

theorem shrinks_accept (token : List UInt8) : Shrinks (accept token) :=
  (shrinks_skipWhile _).bind fun _ => shrinks_acceptAny token

theorem shrinks_expect (token : List UInt8) : Shrinks (expect token) :=
  (shrinks_skipWhile _).bind fun _ => (shrinks_acceptAny token).bind fun _ =>
    .ite (.pure _) (.throw _)

theorem shrinks_endOfStatement : Shrinks endOfStatement :=
  shrinks_next.bind fun _ => .ite (.pure _) (.throw _)

theorem shrinks_jumpTarget? : Shrinks jumpTarget? := by
  refine (shrinks_accept _).bind fun _ => .ite ((shrinks_take 2).bind fun operand => ?_) (.pure _)
  split
  · exact .pure _
  · exact .throw _

theorem shrinks_jumpTarget : Shrinks jumpTarget := by
  refine shrinks_jumpTarget?.bind fun line => ?_
  cases line with
  | none => exact .throw _
  | some line => exact .pure line

/-- A search goes forward only. -/
theorem shrinks_forwardTo (set : List UInt8) (stop : Bool) : Shrinks (forwardTo set stop) :=
  length_skipTo_le set stop false false

/-- What a name takes is in the name. -/
theorem length_splitName (code : List UInt8) :
    (splitName code).1.length + (splitName code).2.length = code.length := by
  have hsplit := congrArg List.length (List.takeWhile_append_dropWhile (p := isNameByte) (l := code))
  rw [List.length_append] at hsplit
  unfold splitName
  dsimp only
  split
  · rename_i hrest
    rw [hrest] at hsplit
    simpa using hsplit
  · rename_i b rest hrest
    rw [hrest] at hsplit
    split
    · simp at hsplit ⊢
      omega
    · simpa using hsplit

theorem shrinks_name : Shrinks name := by
  intro code
  have hle := List.length_dropWhile_le isBlank code
  have hsplit := length_splitName (code.dropWhile isBlank)
  rw [Source.name_apply]
  repeat' split
  all_goals
    simp only [left]
    omega

/-- A name has at least its first letter. -/
theorem advances_name : Advances name := by
  intro code a rest h
  have hle := List.length_dropWhile_le isBlank code
  have hsplit := length_splitName (code.dropWhile isBlank)
  rw [Source.name_apply] at h
  split at h
  · split at h
    · cases h
    · rename_i hname
      cases h
      have hpos : 0 < (splitName (code.dropWhile isBlank)).1.length := by
        refine List.length_pos_iff.2 fun hnil => hname ?_
        rw [hnil]
        rfl
      omega
  · cases h

end Scan

namespace Expression

open Scan

/-! ## Expressions -/

theorem length_splitString_le (code : List UInt8) : (splitString code).2.length ≤ code.length := by
  have hdrop := List.length_dropWhile_le (fun b => b ≠ endLine && b ≠ quote) code
  unfold splitString
  dsimp only
  split
  · exact Nat.zero_le _
  · rename_i b rest hrest
    rw [hrest, List.length_cons] at hdrop
    split
    · dsimp only
      omega
    · exact hdrop

section Terms

variable (scope : Scope) {parenthesised : Scanner Value}

/-- What comes after the first byte of a term. -/
def afterFirst (parenthesised : Scanner Value) (again : Scanner Value) (c : UInt8) : Scanner Value := do
  if c = quote then
    modifyGet fun code => (.string (Text.ofBytes (splitString code).1), (splitString code).2)
  else if zero ≤ c && c ≤ ten then return .integer (Int16.ofNat (c - zero).toNat)
  else if c ∈ [byteConstant, integerConstant, lineNumber, singleConstant] then
    let operand ← take (operandLength c)
    if operand.length < operandLength c then throw (.of .syntaxError)
    return constant c operand
  else if c = Operator.minus.code then ofExcept (← again).negate
  else if c = Operator.plus.code then again
  else if c = openParen then
    let v ← parenthesised
    expect [closeParen]
    return v
  else if [c] = Keyword.ERR.code then return .integer (Int16.ofNat scope.err.toNat)
  else if [c] = Keyword.ERL.code then return .ofInt scope.erl.toNat
  else throw (.of .syntaxError)

/-- An operand, by the first byte after the blanks. -/
theorem term_apply (parenthesised : Scanner Value) (fuel : Nat) (code : List UInt8) :
    term scope parenthesised (fuel + 1) code =
      match code.dropWhile isBlank with
      | [] => .error (.of .missingOperand) []
      | c :: rest =>
        if c = endLine || c = colon then .error (.of .missingOperand) (c :: rest)
        else if isLetter c then (do return scope.vars.fetch (← name) : Scanner Value) (c :: rest)
        else afterFirst scope parenthesised (term scope parenthesised fuel) c rest := by
  rw [term, bind_apply, next?_apply]
  cases code.dropWhile isBlank with
  | nil => rfl
  | cons c rest =>
    simp only [List.head?_cons, Effect.ite_apply]
    rfl

variable (hparens : Shrinks parenthesised)

include hparens

theorem shrinks_afterFirst {again : Scanner Value} (hagain : Shrinks again) (c : UInt8) :
    Shrinks (afterFirst scope parenthesised again c) := by
  unfold afterFirst
  refine .ite length_splitString_le <| .ite (.pure _) <| .ite ?_ <|
    .ite (hagain.bind fun _ => .ofExcept _) <| .ite hagain <| .ite ?_ <| .ite (.pure _) <|
      .ite (.pure _) (.throw _)
  · exact (shrinks_take _).bind fun _ => .ite ((Shrinks.throw _).bind fun _ => .pure _) (.pure _)
  · exact hparens.bind fun _ => (shrinks_expect _).bind fun _ => .pure _

/-- An operand, however it is nested. -/
theorem shrinks_term (fuel : Nat) : Shrinks (term scope parenthesised fuel) := by
  induction fuel with
  | zero => exact .throw _
  | succ fuel ih =>
    intro code
    have hdrop := List.length_dropWhile_le isBlank code
    rw [term_apply]
    cases hcode : code.dropWhile isBlank with
    | nil => exact Nat.zero_le _
    | cons c rest =>
      rw [hcode] at hdrop
      refine Nat.le_trans ?_ hdrop
      dsimp only
      split
      · exact Nat.le_refl _
      · split
        · exact (shrinks_name.bind fun _ => .pure _) (c :: rest)
        · exact Nat.le_succ_of_le (shrinks_afterFirst scope hparens ih c rest)

/-- A term that is read takes its name or its first byte. -/
theorem advances_term (fuel : Nat) : Advances (term scope parenthesised fuel) := by
  intro code v rest h
  cases fuel with
  | zero => cases h
  | succ fuel =>
    have hdrop := List.length_dropWhile_le isBlank code
    rw [term_apply] at h
    cases hcode : code.dropWhile isBlank with
    | nil =>
      rw [hcode] at h
      cases h
    | cons c after =>
      rw [hcode] at h hdrop
      refine Nat.lt_of_lt_of_le ?_ hdrop
      dsimp only at h
      split at h
      · cases h
      · split at h
        · exact (advances_name.bind fun _ => .pure _) h
        · have hle := (shrinks_afterFirst scope hparens (shrinks_term scope hparens fuel) c).length_le h
          exact Nat.lt_succ_of_le hle

end Terms

/-- A sum, operand after operand. -/
theorem shrinks_sum {operand : Scanner Value} (hoperand : Shrinks operand) (fuel : Nat) (v : Value) :
    Shrinks (sum operand fuel v) := by
  induction fuel generalizing v with
  | zero => exact .pure v
  | succ fuel ih =>
    unfold sum
    refine (shrinks_accept _).bind fun _ => .ite ?_ <| (shrinks_accept _).bind fun _ => .ite ?_ (.pure v)
    · exact hoperand.bind fun _ => (Shrinks.ofExcept _).bind ih
    · exact hoperand.bind fun _ => (Shrinks.ofExcept _).bind ih

theorem shrinks_nested (scope : Scope) (depth : Nat) : Shrinks (nested scope depth) := by
  induction depth with
  | zero => exact .throw _
  | succ depth ih =>
    refine Shrinks.get.bind fun _ => (shrinks_term scope ih _).bind fun v => ?_
    exact shrinks_sum (shrinks_term scope ih _) _ v

/-- An expression has at least one byte. -/
theorem advances_nested (scope : Scope) (depth : Nat) : Advances (nested scope depth) := by
  cases depth with
  | zero =>
    intro code v rest h
    cases h
  | succ depth =>
    have hterm := shrinks_term scope (shrinks_nested scope depth)
    refine Shrinks.get.bind_advances fun _ => ?_
    exact (advances_term scope (shrinks_nested scope depth) _).bind fun v => shrinks_sum (hterm _) _ v

theorem shrinks_value (scope : Scope) : Shrinks (value scope) :=
  Shrinks.get.bind fun _ => shrinks_nested scope _

theorem advances_value (scope : Scope) : Advances (value scope) :=
  Shrinks.get.bind_advances fun _ => advances_nested scope _

end Expression

namespace Parse

open Scan Expression

/-! ## Statements -/

theorem shrinks_acceptWord (k : Keyword) : Shrinks (acceptWord k) :=
  shrinks_accept k.code

theorem shrinks_expectWord (k : Keyword) : Shrinks (expectWord k) :=
  shrinks_expect k.code

theorem shrinks_whole {p : Scanner Statement} (hp : Shrinks p) : Shrinks (whole p) :=
  hp.bind fun _ => shrinks_endOfStatement.bind fun _ => .pure _

/-- A failure that is taken for an answer leaves no more than there was. -/
theorem shrinks_attempt {α : Type} {p : Scanner α} (hp : Shrinks p) : Shrinks (attempt p) := by
  intro code
  have hle := hp code
  unfold attempt
  cases hread : p code with
  | ok a rest =>
    rw [hread] at hle
    exact hle
  | error e rest =>
    rw [hread] at hle
    exact hle

theorem shrinks_lineRange : Shrinks lineRange :=
  shrinks_jumpTarget?.bind fun _ => (shrinks_accept _).bind fun _ =>
    .ite (shrinks_jumpTarget?.bind fun _ => .pure _) (.pure _)

/-- The number of a file, from the value of its expression. -/
def fileNumberOf (v : Value) : Scanner UInt8 := do
  let n ← Expression.ofExcept v.toInteger
  Expression.ofExcept (checkRangeOr .badFileNumber 1 255 (some n.toInt))
  return UInt8.ofNat n.toInt.toNat

/-- A file number is a value that is checked. -/
theorem fileNumber_eq (scope : Scope) : fileNumber scope = value scope >>= fileNumberOf := by
  simp only [fileNumber, Expression.integer, bind_assoc]
  rfl

theorem shrinks_fileNumberOf (v : Value) : Shrinks (fileNumberOf v) :=
  (Shrinks.ofExcept _).bind fun _ => (Shrinks.ofExcept _).bind fun _ => .pure _

theorem shrinks_fileNumber (scope : Scope) : Shrinks (fileNumber scope) := by
  rw [fileNumber_eq]
  exact (shrinks_value scope).bind shrinks_fileNumberOf

theorem advances_fileNumber (scope : Scope) : Advances (fileNumber scope) := by
  rw [fileNumber_eq]
  exact (advances_value scope).bind shrinks_fileNumberOf

theorem shrinks_integer (scope : Scope) : Shrinks (Expression.integer scope) :=
  (shrinks_value scope).bind fun _ => .ofExcept _

theorem shrinks_keyNumber (scope : Scope) : Shrinks (keyNumber scope) :=
  (shrinks_expect _).bind fun _ => (shrinks_integer scope).bind fun _ =>
    (shrinks_expect _).bind fun _ => (Shrinks.ofExcept _).bind fun _ => .pure _

theorem shrinks_eventCommand : Shrinks eventCommand :=
  (shrinks_acceptWord _).bind fun _ => .ite (.pure _) <|
    (shrinks_acceptWord _).bind fun _ => .ite (.pure _) <|
      (shrinks_acceptWord _).bind fun _ => .ite (.pure _) (.throw _)

/-- An assignment takes its name and the sign of equality. -/
theorem advances_assignment (scope : Scope) : Advances (assignment scope) :=
  advances_name.bind fun _ => (shrinks_expect _).bind fun _ => (shrinks_value scope).bind fun _ =>
    shrinks_endOfStatement.bind fun _ => .pure _

theorem shrinks_assignment (scope : Scope) : Shrinks (assignment scope) :=
  shrinks_name.bind fun _ => (shrinks_expect _).bind fun _ => (shrinks_value scope).bind fun _ =>
    shrinks_endOfStatement.bind fun _ => .pure _

/-- The items of `PRINT`, one after the other. -/
theorem shrinks_printItems (scope : Scope) (newline : Bool) (out : String) (fuel : Nat) :
    Shrinks (printItems scope newline out fuel) := by
  induction fuel generalizing newline out with
  | zero => exact .throw _
  | succ fuel ih =>
    refine shrinks_next.bind fun _ => .ite (.pure _) <| .ite ?_ <| .ite ?_ ?_
    · exact shrinks_byte.bind fun _ => ih _ _
    · exact shrinks_byte.bind fun _ => ih _ _
    · exact (shrinks_value scope).bind fun _ => ih _ _

theorem shrinks_print (scope : Scope) : Shrinks (print scope) := by
  have hitems (file : Option UInt8) : Shrinks (do
      let code ← get
      let text ← printItems scope true "" (code.length + 1)
      pure (Statement.print file text)) :=
    Shrinks.get.bind fun _ => (shrinks_printItems scope _ _ _).bind fun _ => .pure _
  refine (shrinks_accept _).bind fun _ => .ite ?_ ((Shrinks.pure none).bind hitems)
  exact (shrinks_fileNumber scope).bind fun n => (shrinks_expect _).bind fun _ =>
    (Shrinks.pure (some n)).bind hitems

theorem shrinks_auto : Shrinks auto := by
  refine shrinks_jumpTarget?.bind fun line => (shrinks_accept _).bind fun _ => ?_
  have hincrement (increment : Option UInt16) : Shrinks (do
      endOfStatement
      pure (Statement.auto (line.getD 10) increment)) :=
    shrinks_endOfStatement.bind fun _ => .pure _
  exact .ite (shrinks_jumpTarget?.bind hincrement) ((Shrinks.pure none).bind hincrement)

theorem shrinks_delete : Shrinks delete :=
  shrinks_lineRange.bind fun _ => .ite
    ((Shrinks.throw _).bind fun _ => shrinks_endOfStatement.bind fun _ => .pure _)
    (shrinks_endOfStatement.bind fun _ => .pure _)

theorem shrinks_gosubLine : Shrinks gosubLine :=
  (shrinks_expectWord _).bind fun _ => shrinks_jumpTarget.bind fun _ =>
    shrinks_endOfStatement.bind fun _ => .pure _

theorem shrinks_timerSeconds (scope : Scope) : Shrinks (timerSeconds scope) :=
  (shrinks_expect _).bind fun _ => (shrinks_value scope).bind fun _ => (shrinks_expect _).bind fun _ =>
    (Shrinks.ofExcept _).bind fun _ => .ite ((Shrinks.throw _).bind fun _ => .pure _) (.pure _)

theorem shrinks_on (scope : Scope) : Shrinks (on scope) := by
  refine (shrinks_acceptWord _).bind fun _ => .ite ?_ <| (shrinks_acceptWord _).bind fun _ => .ite ?_ <|
    (shrinks_acceptWord _).bind fun _ => .ite ?_ (.throw _)
  · exact (shrinks_expectWord _).bind fun _ => shrinks_whole (shrinks_jumpTarget.bind fun _ => .pure _)
  · exact (shrinks_keyNumber scope).bind fun _ => shrinks_gosubLine.bind fun _ => .pure _
  · exact (shrinks_timerSeconds scope).bind fun _ =>
      (shrinks_attempt shrinks_gosubLine).bind fun _ => .pure _

theorem shrinks_raise (scope : Scope) : Shrinks (raise scope) :=
  (shrinks_integer scope).bind fun _ => (Shrinks.ofExcept _).bind fun _ =>
    shrinks_endOfStatement.bind fun _ => .pure _

theorem shrinks_resume : Shrinks resume := by
  refine shrinks_whole ((shrinks_acceptWord _).bind fun _ => .ite (.pure _) ?_)
  refine shrinks_jumpTarget?.bind fun line => ?_
  cases line with
  | none => exact .pure _
  | some line => exact .pure _

theorem shrinks_fileMode : Shrinks fileMode :=
  (shrinks_acceptWord _).bind fun _ => .ite (.pure _) <|
    (shrinks_acceptWord _).bind fun _ => .ite (.pure _) <|
      (shrinks_acceptWord _).bind fun _ => .ite (.pure _) <|
        (shrinks_acceptWord _).bind fun _ => .ite (.pure _) (.throw _)

theorem shrinks_openFile (scope : Scope) : Shrinks (openFile scope) := by
  have hstring : Shrinks (Expression.string scope) := by
    refine (shrinks_value scope).bind fun v => ?_
    cases v with
    | string s => exact .pure s
    | integer n => exact .throw _
    | single x => exact .throw _
  exact hstring.bind fun _ => (shrinks_expectWord _).bind fun _ => shrinks_fileMode.bind fun _ =>
    (shrinks_expectWord _).bind fun _ => (shrinks_accept _).bind fun _ =>
      (shrinks_fileNumber scope).bind fun _ => shrinks_endOfStatement.bind fun _ => .pure _

/-- The numbers of `CLOSE`, one after the other. -/
theorem shrinks_closeNumbers (scope : Scope) (closed : List UInt8) (fuel : Nat) :
    Shrinks (closeNumbers scope closed fuel) := by
  induction fuel generalizing closed with
  | zero => exact .pure _
  | succ fuel ih =>
    refine (shrinks_accept _).bind fun _ => (shrinks_attempt (shrinks_fileNumber scope)).bind fun found => ?_
    cases found with
    | error e => exact .pure _
    | ok n =>
      exact (shrinks_accept _).bind fun _ => .ite (ih _)
        ((shrinks_attempt shrinks_endOfStatement).bind fun _ => .pure _)

theorem shrinks_close (scope : Scope) : Shrinks (close scope) := by
  refine (shrinks_attempt shrinks_endOfStatement).bind fun found => ?_
  cases found with
  | ok => exact .pure _
  | error e =>
    exact Shrinks.get.bind fun _ => (shrinks_closeNumbers scope [] _).bind fun _ => .pure _

/-- The rest of a statement, whatever its keyword. -/
theorem shrinks_afterWord (scope : Scope) (k : Keyword) : Shrinks (afterWord scope k) := by
  cases k with
  | LET => exact shrinks_assignment scope
  | PRINT => exact shrinks_print scope
  | GOTO | GOSUB | EDIT => exact shrinks_whole (shrinks_jumpTarget.bind fun _ => .pure _)
  | RETURN | RUN => exact shrinks_whole (shrinks_jumpTarget?.bind fun _ => .pure _)
  | END | STOP | CONT | NEW | TRON | TROFF | SYSTEM => exact shrinks_whole (.pure _)
  | CLEAR | REM | ELSE => exact (shrinks_forwardTo _ _).bind fun _ => .pure _
  | LIST => exact shrinks_whole (shrinks_lineRange.bind fun _ => .pure _)
  | AUTO => exact shrinks_auto
  | DELETE => exact shrinks_delete
  | ON => exact shrinks_on scope
  | KEY =>
    exact shrinks_whole ((shrinks_keyNumber scope).bind fun _ => shrinks_eventCommand.bind fun _ => .pure _)
  | TIMER => exact shrinks_whole (shrinks_eventCommand.bind fun _ => .pure _)
  | ERROR => exact shrinks_raise scope
  | RESUME => exact shrinks_resume
  | OPEN => exact shrinks_openFile scope
  | CLOSE => exact shrinks_close scope
  | APPEND | AS | DATA | ERL | ERR | FOR | IF | INPUT | NEXT | OFF | OUTPUT | RANDOM | THEN | TO =>
    exact .throw _

/-- A keyword that is read has at least one byte. -/
theorem advances_word : Advances word := by
  intro code k rest h
  cases code with
  | nil => cases h
  | cons b more =>
    have htail := (List.tail_suffix more).length_le
    rw [List.length_cons]
    rw [word_apply, List.head?_cons, Option.getD_some, List.tail_cons] at h
    by_cases hpage : b = page
    · rw [if_pos hpage] at h
      cases hk : Keyword.ofCode? [page, more.head?.getD endLine] with
      | none => simp [hk] at h
      | some k' =>
        simp only [hk, EStateM.Result.ok.injEq] at h
        rw [← h.2]
        omega
    · rw [if_neg hpage] at h
      cases hk : Keyword.ofCode? [b] with
      | none => simp [hk] at h
      | some k' =>
        simp only [hk, EStateM.Result.ok.injEq] at h
        rw [← h.2]
        omega

/-- A statement takes something, unless its end comes first. -/
theorem length_lt_of_statement {scope : Scope} {code rest : List UInt8} {st : Statement}
    (h : statement scope code = .ok st rest) :
    (code.dropWhile isBlank).head?.getD endLine ∈ statementEnds ∧ rest = code.dropWhile isBlank ∨
      rest.length < code.length := by
  have hdrop := List.length_dropWhile_le isBlank code
  rw [statement, bind_apply, next?_apply] at h
  cases hcode : code.dropWhile isBlank with
  | nil =>
    rw [hcode] at h
    cases h
    exact .inl ⟨by simp [statementEnds], rfl⟩
  | cons b more =>
    rw [hcode] at h hdrop
    simp only [List.head?_cons, Effect.ite_apply] at h
    split at h
    · rename_i hend
      cases h
      exact .inl ⟨by simpa [statementEnds] using hend, rfl⟩
    · refine .inr (Nat.lt_of_lt_of_le ?_ hdrop)
      split at h
      · exact advances_assignment scope h
      · exact (advances_word.bind fun k => shrinks_afterWord scope k) h

end Parse

end LineBasic

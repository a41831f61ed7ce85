import LineBasic.Proofs.Statement.Operand
import LineBasic.Statement.Parse

/-!
# How far statements read

A statement reads up to its end: a colon between two lexemes, or the end of its line.  If reading fails, it
fails in the line of the statement.

* `Statement.flaw?`: the error of a statement whose end is malformed.
* `Parse.Finishes`: a scanner reads statements up to their end, or it fails in their line, at once or when
  the statement is executed.
* `Parse.finishes_statement`, `Parse.ends_of_statement`: every statement is read so.
-/

namespace LineBasic

open Token Code

/-- A statement whose end is malformed: it fails when it is executed. -/
def Statement.isMalformed : Statement → Bool
  | .onTimer _ (.error _) => true
  | .closeFiles _ (.error _) => true
  | _ => false

/-- The error with which it fails. -/
def Statement.flaw? : Statement → Option BasicError
  | .onTimer _ (.error e) => some e
  | .closeFiles _ (.error e) => some e
  | _ => none

/-- A statement is malformed exactly if it has a flaw. -/
theorem Statement.isMalformed_eq_isSome (st : Statement) : st.isMalformed = st.flaw?.isSome := by
  cases st with
  | onTimer seconds line => cases line <;> rfl
  | closeFiles numbers rest => cases rest <;> rfl
  | _ => rfl

namespace Parse

open Scan

/-! ## Statements stay in their line -/

variable {α β : Type}

theorem stays_acceptWord {k : Keyword} (hk : k ≠ .REM) : Stays (acceptWord k) :=
  stays_accept (isToken_keyword hk)

theorem stays_expectWord {k : Keyword} (hk : k ≠ .REM) : Stays (expectWord k) :=
  stays_expect (isToken_keyword hk)

theorem stays_endOfStatement : Stays endOfStatement :=
  stays_next.bind fun _ => .ite (.pure _) (.throw _)

theorem stays_lineRange : Stays lineRange :=
  stays_jumpTarget?.bind fun _ => (stays_accept (isToken_plain (by decide))).bind fun _ =>
    .ite (stays_jumpTarget?.bind fun _ => .pure _) (.pure _)

theorem stays_fileNumber (scope : Scope) : Stays (fileNumber scope) :=
  (Expression.stays_integer scope).bind fun _ =>
    (Stays.ofExcept (raises_checkRangeOr (by decide) _ _ _)).bind fun _ => .pure _

theorem stays_keyNumber (scope : Scope) : Stays (keyNumber scope) :=
  (stays_expect (isToken_plain (by decide))).bind fun _ =>
    (Expression.stays_integer scope).bind fun _ =>
      (stays_expect (isToken_plain (by decide))).bind fun _ =>
        (Stays.ofExcept (raises_checkRange _ _ _)).bind fun _ => .pure _

theorem stays_eventCommand : Stays eventCommand :=
  (stays_acceptWord (by decide)).bind fun _ => .ite (.pure _) <|
    (stays_acceptWord (by decide)).bind fun _ => .ite (.pure _) <|
      (stays_acceptWord (by decide)).bind fun _ => .ite (.pure _) (.throw _)

/-- The items of `PRINT` are read on their own line. -/
theorem stays_printItems (scope : Scope) (newline : Bool) (out : String) (fuel : Nat) :
    Stays (printItems scope newline out fuel) := by
  induction fuel generalizing newline out with
  | zero => exact .throw _
  | succ fuel ih =>
    unfold printItems
    refine Stays.ofNext (fun t => ?_) fun b rest t hleft => ?_
    · exact Stays.pure _ t .nil
    · refine .ite (fun _ => Stays.pure _ t hleft) fun _ => ?_
      refine .ite (fun hsemicolon => ?_) fun _ => .ite (fun hcomma => ?_) fun _ => ?_
      · have hb : isPlain b = true := by rw [show b = semicolon from hsemicolon]; decide
        exact StaysAt.byte hb (ih _ _ t (tail_of_isPlain hb hleft))
      · have hb : isPlain b = true := by rw [show b = comma from hcomma]; decide
        exact StaysAt.byte hb (ih _ _ t (tail_of_isPlain hb hleft))
      · exact ((Expression.stays_value scope).bind fun _ => ih _ _) t hleft

theorem stays_gosubLine : Stays gosubLine :=
  (stays_expectWord (by decide)).bind fun _ => stays_jumpTarget.bind fun _ =>
    stays_endOfStatement.bind fun _ => .pure _

theorem stays_timerSeconds (scope : Scope) : Stays (timerSeconds scope) :=
  (stays_expect (isToken_plain (by decide))).bind fun _ => (Expression.stays_value scope).bind fun v =>
    (stays_expect (isToken_plain (by decide))).bind fun _ => (Stays.ofExcept v.raises_toSingle).bind fun _ =>
      .ite ((Stays.throw _).bind fun _ => .pure _) (.pure _)

theorem stays_fileMode : Stays fileMode :=
  (stays_acceptWord (by decide)).bind fun _ => .ite (.pure _) <|
    (stays_acceptWord (by decide)).bind fun _ => .ite (.pure _) <|
      (stays_acceptWord (by decide)).bind fun _ => .ite (.pure _) <|
        (stays_acceptWord (by decide)).bind fun _ => .ite (.pure _) (.throw _)

/-! ## Statements stop before an end -/

/-- A scanner stops before a colon, the end of a line, or at the end of the code. -/
def Stops (p : Scanner α) : Prop :=
  ∀ ⦃code a rest⦄, p code = .ok a rest → rest.head?.getD endLine ∈ statementEnds

theorem Stops.bind {p : Scanner α} {f : α → Scanner β} (hf : ∀ a, Stops (f a)) :
    Stops (p >>= f) := by
  intro code b rest h
  rw [Effect.bind_apply] at h
  split at h
  · exact hf _ h
  · cases h

theorem Stops.map {p : Scanner α} (hp : Stops p) (g : α → β) : Stops (p >>= fun a => pure (g a)) := by
  intro code b rest h
  rw [Effect.bind_apply] at h
  split at h
  · rename_i hok
    cases h
    exact hp hok
  · cases h

theorem Stops.throw (e : BasicError) : Stops (throw e : Scanner α) := by
  intro code a rest h
  cases h

theorem Stops.ite {c : Prop} [Decidable c] {p q : Scanner α} (hp : Stops p) (hq : Stops q) :
    Stops (if c then p else q) := by
  split
  · exact hp
  · exact hq

/-- The end of a statement is where the statement ends. -/
theorem stops_endOfStatement : Stops endOfStatement := by
  intro code a rest h
  simp only [endOfStatement, require, Effect.bind_apply, next?_apply, Effect.ite_apply] at h
  split at h
  · rename_i hfound
    cases h
    simpa using hfound
  · cases h

/-- The items of `PRINT` go up to the end of the statement. -/
theorem stops_printItems (scope : Scope) (newline : Bool) (out : String) (fuel : Nat) :
    Stops (printItems scope newline out fuel) := by
  induction fuel generalizing newline out with
  | zero => exact .throw _
  | succ fuel ih =>
    intro code a rest h
    simp only [printItems, Effect.bind_apply, next?_apply] at h
    by_cases hend : ((code.dropWhile isBlank).head?.getD endLine = endLine ||
        (code.dropWhile isBlank).head?.getD endLine = colon) = true
    · simp only [hend, if_true] at h
      cases h
      simpa [statementEnds] using hend
    · simp only [hend, Bool.false_eq_true, if_false] at h
      exact (Stops.ite (.bind fun _ => ih _ _) (.ite (.bind fun _ => ih _ _) (.bind fun _ => ih _ _))) h

theorem stops_gosubLine : Stops gosubLine :=
  .bind fun _ => .bind fun _ => stops_endOfStatement.map _

/-! ## Statements read up to their end -/

/-- From `left`, a statement has been read up to a colon between lexemes, or to the end of the line. -/
def Ends (left t rest : List UInt8) : Prop :=
  ∃ code left', left = code ++ left' ∧ rest = left' ++ endLine :: t ∧ StopsAt code left'

/-- A scan that stays on the line and stops at an end of statement has read one. -/
theorem ends_of_passes {left t rest : List UInt8} (hleft : Typed left) (hpasses : Passes left t rest)
    (hstops : rest.head?.getD endLine ∈ statementEnds) : Ends left t rest := by
  obtain ⟨code, left', rfl, rfl, hcode⟩ := hpasses
  refine ⟨code, left', rfl, rfl, ?_⟩
  cases left' with
  | nil => exact .inl rfl
  | cons b more =>
    obtain hcode | hnil := hcode
    · have hb := (hleft.of_closed_append hcode).head_ne_endLine
      simp only [List.cons_append, List.head?_cons, Option.getD_some, statementEnds, List.mem_cons,
        hb, List.not_mem_nil, or_false, false_or] at hstops
      exact .inr ⟨congrArg some hstops, hcode⟩
    · cases hnil

/-- What may come of reading a statement from `left` on. -/
inductive Finished (left t : List UInt8) : EStateM.Result BasicError (List UInt8) Statement → Prop where
  /-- It has been read up to its end. -/
  | ended {st : Statement} {rest : List UInt8} (hflaw : st.flaw? = none) (hpasses : Passes left t rest)
      (hstops : rest.head?.getD endLine ∈ statementEnds) : Finished left t (.ok st rest)
  /-- Its end is malformed. -/
  | malformed {st : Statement} {e : BasicError} {rest : List UInt8} (hflaw : st.flaw? = some e)
      (hfails : FailsIn left t e rest) : Finished left t (.ok st rest)
  | failed {e : BasicError} {rest : List UInt8} (hfails : FailsIn left t e rest) :
      Finished left t (.error e rest)

/-- What stands before a statement does not matter to where it ends. -/
theorem Finished.closed {code left t : List UInt8}
    {result : EStateM.Result BasicError (List UInt8) Statement} (hcode : Closed code)
    (h : Finished left t result) : Finished (code ++ left) t result := by
  have hsuffix := List.suffix_append code left
  cases h with
  | ended hflaw hpasses hstops => exact .ended hflaw (hpasses.closed hcode) hstops
  | malformed hflaw hfails => exact .malformed hflaw (hfails.after hsuffix)
  | failed hfails => exact .failed (hfails.after hsuffix)

/-- A scanner reads statements up to their end, or fails in their line. -/
def Finishes (p : Scanner Statement) : Prop :=
  ∀ ⦃left⦄ (t : List UInt8), Typed left → Finished left t (p (left ++ endLine :: t))

/-- A scanner gives statements whose end is not malformed. -/
def Forms (p : Scanner Statement) : Prop :=
  ∀ ⦃code st rest⦄, p code = .ok st rest → st.flaw? = none

theorem Forms.pure {st : Statement} (hst : st.flaw? = none) : Forms (pure st) := by
  intro code st' rest h
  cases h
  exact hst

theorem Forms.bind {p : Scanner α} {f : α → Scanner Statement} (hf : ∀ a, Forms (f a)) :
    Forms (p >>= f) := by
  intro code st rest h
  rw [Effect.bind_apply] at h
  split at h
  · exact hf _ h
  · cases h

/-- A scanner that stays on the line and stops at its end reads a whole statement. -/
theorem Finishes.of_stays {p : Scanner Statement} (hforms : Forms p) (hstays : Stays p)
    (hstops : Stops p) : Finishes p := by
  intro left t hleft
  cases hread : p (left ++ endLine :: t) with
  | ok st rest => exact .ended (hforms hread) ((hstays t hleft).passes hread) (hstops hread)
  | error e rest => exact .failed ((hstays t hleft).fails hread)

/-- The end is also that of a statement of which some has been read before. -/
theorem Finishes.after {p : Scanner Statement} (hp : Finishes p) {left t before : List UInt8}
    (hleft : Typed left) (hbefore : Passes left t before) : Finished left t (p before) := by
  obtain ⟨left', rfl, hleft', hsuffix, hnext⟩ := hbefore.next hleft
  have hfinished := hp t hleft'
  generalize p (left' ++ endLine :: t) = result at hfinished
  cases hfinished with
  | ended hflaw hpasses hstops => exact .ended hflaw (hnext _ hpasses) hstops
  | malformed hflaw hfails => exact .malformed hflaw (hfails.after hsuffix)
  | failed hfails => exact .failed (hfails.after hsuffix)

theorem Finishes.bind {p : Scanner α} {f : α → Scanner Statement} (hp : Stays p)
    (hf : ∀ a, Finishes (f a)) : Finishes (p >>= f) := by
  intro left t hleft
  rw [Effect.bind_apply]
  cases hread : p (left ++ endLine :: t) with
  | ok a rest => exact (hf a).after hleft ((hp t hleft).passes hread)
  | error e rest => exact .failed ((hp t hleft).fails hread)

theorem Finishes.ite {c : Prop} [Decidable c] {p q : Scanner Statement} (hp : Finishes p)
    (hq : Finishes q) : Finishes (if c then p else q) := by
  split
  · exact hp
  · exact hq

theorem Finishes.throw (code : ErrorCode) : Finishes (throw (.of code)) :=
  fun left _ _ => .failed ⟨⟨code, rfl⟩, left, rfl, List.suffix_refl left⟩

theorem finishes_end {st : Statement} (hst : st.flaw? = none) :
    Finishes (do endOfStatement; return st) :=
  .of_stays (.bind fun _ => .pure hst) (stays_endOfStatement.bind fun _ => .pure st)
    (stops_endOfStatement.map fun _ => st)

/-- A statement that goes up to its end. -/
theorem finishes_whole {p : Scanner Statement} (hforms : Forms p) (hp : Stays p) :
    Finishes (whole p) := by
  intro left t hleft
  rw [whole, Effect.bind_apply]
  cases hread : p (left ++ endLine :: t) with
  | ok st rest => exact (finishes_end (hforms hread)).after hleft ((hp t hleft).passes hread)
  | error e rest => exact .failed ((hp t hleft).fails hread)

/-- A statement of one operand. -/
theorem finishes_operand {p : Scanner α} (hp : Stays p) {f : α → Statement}
    (hf : ∀ a, (f a).flaw? = none) : Finishes (whole do return f (← p)) :=
  finishes_whole (.bind fun a => .pure (hf a)) (hp.bind fun a => .pure (f a))

theorem finishes_assignment (scope : Scope) : Finishes (assignment scope) :=
  .bind stays_name fun _ => .bind (stays_expect (isToken_plain (by decide))) fun _ =>
    .bind (Expression.stays_value scope) fun _ => finishes_end rfl

theorem finishes_print (scope : Scope) : Finishes (print scope) := by
  refine .bind (stays_accept (isToken_plain (by decide))) fun _ => ?_
  have hitems (file : Option UInt8) : Finishes (do
      let code ← get
      let text ← printItems scope true "" (code.length + 1)
      pure (Statement.print file text)) :=
    .bind .get fun _ =>
      .of_stays (.bind fun _ => .pure rfl) ((stays_printItems scope _ _ _).bind fun _ => .pure _)
        ((stops_printItems scope _ _ _).map _)
  refine .ite ?_ (.bind (.pure none) hitems)
  exact .bind (stays_fileNumber scope) fun n =>
    .bind (stays_expect (isToken_plain (by decide))) fun _ => .bind (.pure (some n)) hitems

theorem finishes_auto : Finishes auto := by
  refine .bind stays_jumpTarget? fun line =>
    .bind (stays_accept (isToken_plain (by decide))) fun _ => ?_
  have hincrement (increment : Option UInt16) : Finishes (do
      endOfStatement
      pure (Statement.auto (line.getD 10) increment)) :=
    finishes_end rfl
  exact .ite (.bind stays_jumpTarget? hincrement) (.bind (.pure none) hincrement)

theorem finishes_delete : Finishes delete :=
  .bind stays_lineRange fun _ => .ite (.bind (.throw _) fun _ => finishes_end rfl) (finishes_end rfl)

theorem finishes_raise (scope : Scope) : Finishes (raise scope) :=
  .bind (Expression.stays_integer scope) fun _ =>
    .bind (.ofExcept (raises_checkRange _ _ _)) fun _ => finishes_end rfl

theorem finishes_resume : Finishes resume := by
  refine finishes_whole (.bind fun next => ?_)
    ((stays_acceptWord (by decide)).bind fun _ => .ite (.pure _) (stays_jumpTarget?.bind fun line => ?_))
  · cases next with
    | true => exact .pure rfl
    | false =>
      refine .bind fun line => ?_
      cases line with
      | none => exact .pure rfl
      | some line => exact .pure rfl
  · cases line with
    | none => exact .pure _
    | some line => exact .pure _

theorem finishes_openFile (scope : Scope) : Finishes (openFile scope) :=
  .bind (Expression.stays_string scope) fun _ => .bind (stays_expectWord (by decide)) fun _ =>
    .bind stays_fileMode fun _ => .bind (stays_expectWord (by decide)) fun _ =>
      .bind (stays_accept (isToken_plain (by decide))) fun _ => .bind (stays_fileNumber scope) fun _ =>
        finishes_end rfl

/-- What is attempted may fail, but then the statement is malformed. -/
theorem finishes_attempt {p : Scanner α} {f : Except BasicError α → Statement} (hstays : Stays p)
    (hstops : Stops p) (hok : ∀ a, (f (.ok a)).flaw? = none) (hf : ∀ e, (f (.error e)).flaw? = some e) :
    Finishes (attempt p >>= fun x => pure (f x)) := by
  intro left t hleft
  simp only [Effect.bind_apply, attempt]
  cases hread : p (left ++ endLine :: t) with
  | ok a rest => exact .ended (hok a) ((hstays t hleft).passes hread) (hstops hread)
  | error e rest => exact .malformed (hf e) ((hstays t hleft).fails hread)

/-- `ON TIMER` finishes even if what follows the period is malformed. -/
theorem finishes_on (scope : Scope) : Finishes (on scope) := by
  refine .bind (stays_acceptWord (by decide)) fun _ => .ite ?_ ?_
  · exact .bind (stays_expectWord (by decide)) fun _ =>
      finishes_operand stays_jumpTarget fun _ => rfl
  · refine .bind (stays_acceptWord (by decide)) fun _ => .ite ?_ ?_
    · exact .bind (stays_keyNumber scope) fun _ =>
        .of_stays (.bind fun _ => .pure rfl) (stays_gosubLine.bind fun _ => .pure _)
          (stops_gosubLine.map _)
    · refine .bind (stays_acceptWord (by decide)) fun _ => .ite ?_ (.throw _)
      exact .bind (stays_timerSeconds scope) fun _ =>
        finishes_attempt stays_gosubLine stops_gosubLine (fun _ => rfl) fun _ => rfl

/-- As `finishes_attempt`, with more to read if the attempt succeeds. -/
theorem Finishes.attempt {p : Scanner α} {f : Except BasicError α → Scanner Statement}
    (hp : Stays p) (hok : ∀ a, Finishes (f (.ok a)))
    (herror : ∀ e, ∃ st, st.flaw? = some e ∧ ∀ code, f (.error e) code = .ok st code) :
    Finishes (attempt p >>= f) := by
  intro left t hleft
  simp only [Effect.bind_apply, Parse.attempt]
  cases hread : p (left ++ endLine :: t) with
  | ok a rest => exact (hok a).after hleft ((hp t hleft).passes hread)
  | error e rest =>
    obtain ⟨st, hflaw, hst⟩ := herror e
    simp only [hst]
    exact .malformed hflaw ((hp t hleft).fails hread)

/-- `CLOSE` finishes even if one of its numbers is malformed. -/
theorem finishes_closeNumbers (scope : Scope) (closed : List UInt8) (fuel : Nat) :
    Finishes (closeNumbers scope closed fuel >>= fun r => pure (.closeFiles r.1 r.2)) := by
  induction fuel generalizing closed with
  | zero =>
    intro left t _
    exact .malformed rfl ⟨⟨_, rfl⟩, left, rfl, List.suffix_refl left⟩
  | succ fuel ih =>
    rw [closeNumbers, bind_assoc]
    refine .bind (stays_accept (isToken_plain (by decide))) fun _ => ?_
    rw [bind_assoc]
    refine .attempt (stays_fileNumber scope) (fun n => ?_) fun e => ⟨_, rfl, fun _ => rfl⟩
    simp only [bind_assoc]
    refine .bind (stays_accept (isToken_plain (by decide))) fun more => ?_
    cases more with
    | true => exact ih (n :: closed)
    | false =>
      simp only [Bool.false_eq_true, if_false, bind_assoc, pure_bind]
      exact finishes_attempt stays_endOfStatement stops_endOfStatement (fun _ => rfl) fun _ => rfl

/-- Where a statement does not end only blanks are passed. -/
theorem rest_of_endOfStatement_error {code rest : List UInt8} {e : BasicError}
    (h : endOfStatement code = .error e rest) : rest = code.dropWhile isBlank := by
  simp only [endOfStatement, require, Effect.bind_apply, next?_apply, Effect.ite_apply] at h
  split at h
  · cases h
  · cases h
    rfl

theorem finishes_close (scope : Scope) : Finishes (close scope) := by
  intro left t hleft
  simp only [close, Effect.bind_apply, attempt]
  cases hend : endOfStatement (left ++ endLine :: t) with
  | ok a rest =>
    exact .ended rfl ((stays_endOfStatement t hleft).passes hend) (stops_endOfStatement hend)
  | error e rest =>
    have hblanks : skipWhile isBlank (left ++ endLine :: t) = .ok ⟨⟩ rest := by
      rw [rest_of_endOfStatement_error hend]
      rfl
    exact (finishes_closeNumbers scope [] _).after hleft ((stays_blanks t hleft).passes hblanks)

/-- A statement that goes on to the next end, whatever comes before it. -/
theorem finishes_clear : Finishes (do forwardTo statementEnds true; return .clear) := by
  intro left t hleft
  obtain ⟨code, left', rfl, hstops, hskip⟩ := skipTo_statementEnds true hleft t
  simp only [Effect.bind_apply, forwardTo, Effect.modify_apply, hskip, skipTo_stops hstops]
  obtain rfl | ⟨hhead, hcode⟩ := hstops
  · exact .ended rfl ⟨code, [], rfl, rfl, .inr rfl⟩ (by simp [statementEnds])
  · obtain ⟨after, rfl⟩ := List.head?_eq_some_iff.1 hhead
    exact .ended rfl ⟨code, _, rfl, rfl, .inl hcode⟩ (by simp [statementEnds])

/-- A comment goes on to the end of the line. -/
theorem finishes_comment : Finishes (do forwardTo [endLine] true; return .comment) := by
  intro left t hleft
  simp only [Effect.bind_apply, forwardTo, Effect.modify_apply, skipTo_endLine_of_typed hleft]
  exact .ended rfl ⟨left, [], by simp, rfl, .inr rfl⟩ (by simp [statementEnds])

/-- Every statement that begins with a keyword. -/
theorem finishes_afterWord (scope : Scope) (k : Keyword) : Finishes (afterWord scope k) := by
  cases k with
  | LET => exact finishes_assignment scope
  | PRINT => exact finishes_print scope
  | GOTO | GOSUB | EDIT => exact finishes_operand stays_jumpTarget fun _ => rfl
  | RETURN | RUN => exact finishes_operand stays_jumpTarget? fun _ => rfl
  | END | STOP | CONT | NEW | TRON | TROFF | SYSTEM => exact finishes_whole (.pure rfl) (.pure _)
  | CLEAR => exact finishes_clear
  | LIST => exact finishes_operand stays_lineRange fun _ => rfl
  | REM | ELSE => exact finishes_comment
  | AUTO => exact finishes_auto
  | DELETE => exact finishes_delete
  | ON => exact finishes_on scope
  | KEY =>
    exact finishes_whole (.bind fun _ => .bind fun _ => .pure rfl)
      ((stays_keyNumber scope).bind fun _ => stays_eventCommand.bind fun _ => .pure _)
  | TIMER => exact finishes_operand stays_eventCommand fun _ => rfl
  | ERROR => exact finishes_raise scope
  | RESUME => exact finishes_resume
  | OPEN => exact finishes_openFile scope
  | CLOSE => exact finishes_close scope
  | APPEND | AS | DATA | ERL | ERR | FOR | IF | INPUT | NEXT | OFF | OUTPUT | RANDOM | THEN | TO =>
    exact .throw _

/-- A keyword that is found by its bytes has these bytes. -/
theorem code_of_ofCode? {bytes : List UInt8} {k : Keyword} (h : Keyword.ofCode? bytes = some k) :
    k.code = bytes := by
  simpa using List.find?_some h

/-- A keyword has one byte, or two if the first is that of the page. -/
theorem word_apply (code : List UInt8) :
    word code =
      if code.head?.getD endLine = page then
        match Keyword.ofCode? [page, code.tail.head?.getD endLine] with
        | some k => .ok k code.tail.tail
        | none => .error (.of .syntaxError) code.tail.tail
      else
        match Keyword.ofCode? [code.head?.getD endLine] with
        | some k => .ok k code.tail
        | none => .error (.of .syntaxError) code.tail := by
  simp only [word, Effect.bind_apply, byte?_apply, Effect.ite_apply, Effect.pure_apply]
  split
  · rename_i hpage
    rw [hpage]
    cases Keyword.ofCode? [page, code.tail.head?.getD endLine] <;> rfl
  · cases Keyword.ofCode? [code.head?.getD endLine] <;> rfl

/-- What stands in the place of a keyword is read as a byte, or as a page with its operand. -/
theorem word_of_typed {b : UInt8} {more : List UInt8} (t : List UInt8) (hleft : Typed (b :: more)) :
    ∃ token after, b :: more = token ++ after ∧
      word (b :: more ++ endLine :: t) =
        match Keyword.ofCode? token with
        | some k => .ok k (after ++ endLine :: t)
        | none => .error (.of .syntaxError) (after ++ endLine :: t) := by
  simp only [word_apply, List.cons_append, List.head?_cons, Option.getD_some, List.tail_cons]
  by_cases hpage : b = page
  · subst hpage
    obtain ⟨-, operand, after, rfl, hlength, -⟩ | ⟨hb, -⟩ | ⟨hb, -⟩ | ⟨hb, -⟩ := hleft.cons_cases
    · obtain ⟨c, rfl⟩ := List.length_eq_one_iff.1 hlength
      exact ⟨[page, c], after, rfl, if_pos rfl⟩
    · exact absurd hb (by decide)
    · exact absurd hb (by decide)
    · exact absurd hb (by decide)
  · exact ⟨[b], more, rfl, if_neg hpage⟩

/-- The keyword that comes next is read whole; the text of a comment is not. -/
theorem word_cases {b : UInt8} {more t rest : List UInt8} {k : Keyword} (hleft : Typed (b :: more))
    (h : word (b :: more ++ endLine :: t) = .ok k rest) :
    (k = .REM ∧ b = rem ∧ rest = more ++ endLine :: t) ∨
      k ≠ .REM ∧ ∃ after, b :: more = k.code ++ after ∧ rest = after ++ endLine :: t := by
  obtain ⟨token, after, htoken, hword⟩ := word_of_typed t hleft
  rw [hword] at h
  cases hk : Keyword.ofCode? token with
  | none =>
    rw [hk] at h
    cases h
  | some k' =>
    rw [hk] at h
    cases h
    have hcode := code_of_ofCode? hk
    by_cases hrem : k = .REM
    · subst hrem
      rw [← hcode] at htoken
      cases htoken
      exact .inl ⟨rfl, rfl, rfl⟩
    · exact .inr ⟨hrem, after, by rw [htoken, hcode], rfl⟩

/-- What is no keyword is passed. -/
theorem fails_word {b : UInt8} {more t rest : List UInt8} {e : BasicError} (hleft : Typed (b :: more))
    (h : word (b :: more ++ endLine :: t) = .error e rest) : FailsIn (b :: more) t e rest := by
  obtain ⟨token, after, htoken, hword⟩ := word_of_typed t hleft
  rw [hword] at h
  cases hk : Keyword.ofCode? token with
  | some k =>
    rw [hk] at h
    cases h
  | none =>
    rw [hk] at h
    cases h
    exact ⟨⟨_, rfl⟩, after, rfl, token, htoken.symm⟩

/-- A statement that starts with a keyword. -/
theorem finished_keyword (scope : Scope) {b : UInt8} {more : List UInt8} (t : List UInt8)
    (hleft : Typed (b :: more)) :
    Finished (b :: more) t
      ((do afterWord scope (← word) : Scanner Statement) (b :: more ++ endLine :: t)) := by
  rw [Effect.bind_apply]
  cases hword : word (b :: more ++ endLine :: t) with
  | error e rest => exact .failed (fails_word hleft hword)
  | ok k rest =>
    obtain ⟨rfl, rfl, rfl⟩ | ⟨hk, after, hcode, rfl⟩ := word_cases hleft hword
    · -- the comment is scanned as if it were code
      obtain ⟨hlead, -⟩ | ⟨hb, -⟩ | ⟨hb, -⟩ | ⟨-, htext⟩ := hleft.cons_cases
      · simp at hlead
      · exact absurd hb (by decide)
      · exact absurd hb (by decide)
      · simp only [afterWord, Effect.bind_apply, forwardTo, Effect.modify_apply,
          skipTo_typed false t htext]
        exact .ended rfl ⟨rem :: more, [], by simp, rfl, .inr rfl⟩ (by simp [statementEnds])
    · have hread : Passes (b :: more) t (after ++ endLine :: t) :=
        ⟨k.code, after, hcode, rfl, .inl (isToken_keyword hk).closed⟩
      exact (finishes_afterWord scope k).after hleft hread

/-- Every statement is read up to its end, or fails in its line. -/
theorem finishes_statement (scope : Scope) : Finishes (statement scope) := by
  intro left t hleft
  have hblanks := closed_takeWhile (fun _ => isPlain_of_isBlank) left
  have hsplit := List.takeWhile_append_dropWhile (p := isBlank) (l := left)
  have hdrop := hleft.dropWhile_isBlank
  rw [statement, Effect.bind_apply, next?_apply, dropWhile_append_endLine (by decide)]
  generalize left.takeWhile isBlank = blanks at hblanks hsplit
  generalize left.dropWhile isBlank = code at hdrop hsplit
  subst hsplit
  refine Finished.closed hblanks ?_
  cases code with
  | nil => exact .ended rfl (.refl [] t) (by simp [statementEnds])
  | cons b more =>
    simp only [List.cons_append, List.head?_cons, Effect.ite_apply]
    by_cases hend : (b = endLine || b = colon) = true
    · simp only [hend, if_true]
      exact .ended rfl (.refl (b :: more) t) (by simpa [statementEnds] using hend)
    · simp only [hend, Bool.false_eq_true, if_false]
      by_cases hletter : isLetter b = true
      · simp only [hletter, if_true]
        exact finishes_assignment scope t hdrop
      · simp only [hletter, Bool.false_eq_true, if_false]
        exact finished_keyword scope t hdrop

/-- Every statement is read up to its end, unless it is malformed. -/
theorem ends_of_statement {scope : Scope} {left t rest : List UInt8} {st : Statement}
    (hleft : Typed left) (h : statement scope (left ++ endLine :: t) = .ok st rest) :
    st.isMalformed = true ∨ Ends left t rest := by
  have hfinish := finishes_statement scope t hleft
  rw [h] at hfinish
  cases hfinish with
  | ended _ hpasses hstops => exact .inr (ends_of_passes hleft hpasses hstops)
  | malformed hflaw _ => exact .inl (by rw [st.isMalformed_eq_isSome, hflaw]; rfl)

end Parse

end LineBasic

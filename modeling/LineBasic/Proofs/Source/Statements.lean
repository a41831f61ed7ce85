import LineBasic.Proofs.Source.Reading

/-!
# Reading statements

* `Command.read`: what the reader makes of a statement.  A `RETURN` with a line is a syntax error to it.
* `statement_reads`: reading the code of a statement gives that, and stops where the statement ends.
-/

namespace LineBasic.Source

open Token Scan

/-- What the reader makes of a statement. -/
def Command.read (scope : Scope) : Command → Except BasicError Statement
  | nothing => .ok .nothing
  | comment => .ok .comment
  | assign name e => do return .assign name (← e.eval scope)
  | print items => do return .print none (← printText scope true "" items)
  | goto line => .ok (.goto line)
  | gosub line => .ok (.gosub line)
  | returnTo none => .ok (.returnTo none)
  -- The number after `RETURN` is crunched as an ordinary constant, which the reader does not expect.
  | returnTo (some _) => .error (.of .syntaxError)
  | endProgram => .ok .endProgram
  | broken none => .error (.of .syntaxError)
  | broken (some e) => do
    let _ ← e.eval scope
    .error (.of .syntaxError)
  | foreign => .error (.of .syntaxError)

/-- Reading code gives a result and stops exactly at `tail`. -/
def ReadsAll {α : Type} (tail : List UInt8) (p : Scanner α) (code : List UInt8)
    (result : Except BasicError α) : Prop :=
  match result with
  | .ok a => p code = .ok a tail
  | .error err => ∃ code', p code = .error err code'

namespace ReadsAll

variable {α β : Type} {tail code code' : List UInt8} {p q : Scanner α} {result : Except BasicError α}

theorem congr (h : ReadsAll tail q code' result) (heq : p code = q code') :
    ReadsAll tail p code result := by
  unfold ReadsAll at h ⊢
  simpa only [heq] using h

theorem map (f : α → β) (h : ReadsAll tail p code result) :
    ReadsAll tail (do return f (← p)) code (do return f (← result)) := by
  cases result with
  | error err =>
    obtain ⟨code', hp⟩ := h
    exact ⟨code', by simp [hp]⟩
  | ok a =>
    have hp : p code = .ok a tail := h
    show (do return f (← p) : Scanner β) code = .ok (f a) tail
    simp [hp]

end ReadsAll

section

variable {tail : List UInt8} (htail : Stops tail) (scope : Scope) {e : Bool} {ls : List Lexeme}
  {code : List UInt8}

/-! ## Assignments -/

include htail in
/-- Reading an expression that should be the last thing in a statement. -/
theorem value_reads_last {α : Type} (f : Value → α) (h : Codes tail e ls code) :
    ReadsAll tail
      (do
        let v ← Expression.value scope
        endOfStatement
        return f v) code
      (do
        let v ← (expression ls).expr.eval scope
        if (expression ls).rest = [] then return f v else .error (.of .syntaxError)) := by
  have hread := value_reads htail scope h
  cases hv : (expression ls).expr.eval scope with
  | error err =>
    rw [hv] at hread
    obtain ⟨code', hp⟩ := hread
    exact ⟨code', by simp [hp]⟩
  | ok v =>
    rw [hv] at hread
    obtain ⟨code', e', hp, hcodes, -⟩ := hread
    by_cases hrest : (expression ls).rest = []
    · rw [hrest] at hcodes
      simp only [hrest, if_true]
      show (do
        let v ← Expression.value scope
        endOfStatement
        return f v : Scanner α) code = .ok (f v) tail
      simp [hp, hcodes.endOfStatement_nil htail]
    · simp only [hrest, if_false]
      exact ⟨_, by simp [hp, hcodes.endOfStatement_cons htail hrest]; rfl⟩

include htail in
/-- Reading an assignment. -/
theorem assignment_reads (h : Codes tail e ls code) :
    ReadsAll tail (Parse.assignment scope) code ((assignment ls).read scope) := by
  unfold assignment
  split
  · rename_i t rest
    obtain ⟨code₁, e₁, hname, hcodes₁, -⟩ := h.name_cons
    obtain ⟨code₂, e₂, hdrop, hcodes₂, -⟩ := hcodes₁.dropWhile_byte rfl
    have hrun : Parse.assignment scope code =
        (do
          let v ← Expression.value scope
          endOfStatement
          return Statement.assign (Text.ofBytes t) v : Scanner Statement) code₂ := by
      simp [Parse.assignment, hname, expect_apply, hdrop]
    have hlast := value_reads_last htail scope (Statement.assign (Text.ofBytes t)) hcodes₂
    split
    · rename_i hrest
      simp only [hrest, if_true] at hlast
      exact hlast.congr hrun
    · rename_i hrest
      simp only [hrest, if_false] at hlast
      exact hlast.congr hrun
  · rename_i hls
    by_cases hname : ∃ t rest, ls = .name t :: rest
    · obtain ⟨t, rest, rfl⟩ := hname
      obtain ⟨code₁, e₁, hname, hcodes₁, -⟩ := h.name_cons
      have hhead : rest.head? ≠ some (.operator .equal) := fun hhead => by
        obtain ⟨after, rfl⟩ := List.head?_eq_some_iff.1 hhead
        exact hls t after rfl
      have hequal := mt (hcodes₁.head_eq_iff htail (t := .operator .equal) rfl).1 hhead
      exact ⟨_, by simp [Parse.assignment, hname, expect_apply, hequal]; rfl⟩
    · have hnot := h.name_not htail fun t rest hls => hname ⟨t, rest, hls⟩
      exact ⟨_, by simp [Parse.assignment, hnot]; rfl⟩

/-! ## Printing -/

theorem printItems_apply (newline : Bool) (out : String) (fuel : Nat) :
    Parse.printItems scope newline out (fuel + 1) code =
      let rest := code.dropWhile isBlank
      let b := rest.head?.getD endLine
      if b ∈ statementEnds then .ok (if newline then out ++ "\n" else out) rest
      else if b = semicolon then Parse.printItems scope false out fuel rest.tail
      else if b = comma then
        let pad := Parse.zoneWidth - out.utf8ByteSize % Parse.zoneWidth
        Parse.printItems scope false (out ++ String.ofList (List.replicate pad ' ')) fuel rest.tail
      else
        (do Parse.printItems scope true (out ++ (← Expression.value scope).text) fuel : Scanner String)
          rest := by
  simp [Parse.printItems, statementEnds]

include htail in
/-- Reading what `PRINT` lists. -/
theorem printItems_reads {newline : Bool} {out : String} {fuel : Nat} (h : Codes tail e ls code)
    (hfuel : code.length < fuel) :
    ReadsAll tail (Parse.printItems scope newline out fuel) code
      (printText scope newline out (printItems ls)) := by
  induction fuel generalizing newline out e ls code with
  | zero => exact absurd hfuel (Nat.not_lt_zero _)
  | succ fuel ih =>
    have hsemicolon := h.head_eq_iff htail (t := .symbol semicolon) rfl
    have hcomma := h.head_eq_iff htail (t := .symbol comma) rfl
    have hend := h.head_mem_iff htail
    have hdropped := h.dropWhile htail
    have hlen := List.length_dropWhile_le isBlank code
    cases ls with
    | nil =>
      rw [printItems]
      show Parse.printItems scope newline out (fuel + 1) code = _
      simp only [printItems_apply]
      rw [if_pos (hend.2 rfl), h.dropWhile_nil htail]
    | cons l after =>
      obtain ⟨b, more, hdrop, -, -⟩ := h.head_dropWhile
      simp only [List.head?_cons, Option.some.injEq, hdrop] at hsemicolon hcomma
      simp only [hdrop, List.head?_cons, Option.getD_some, reduceCtorEq, iff_false] at hend
      rw [printItems]
      split
      · rename_i hl
        subst hl
        obtain ⟨code', e', hdrop', hcodes, hlen'⟩ := h.dropWhile_byte rfl
        refine (ih hcodes (by omega)).congr ?_
        rw [hdrop] at hdrop'
        obtain ⟨rfl, rfl⟩ := List.cons.inj hdrop'
        simp only [printItems_apply, hdrop, List.head?_cons, Option.getD_some]
        rw [if_neg hend, if_pos trivial, List.tail_cons]
      · rename_i hl
        split
        · rename_i hl'
          subst hl'
          obtain ⟨code', e', hdrop', hcodes, hlen'⟩ := h.dropWhile_byte rfl
          refine (ih hcodes (by omega)).congr ?_
          rw [hdrop] at hdrop'
          obtain ⟨rfl, rfl⟩ := List.cons.inj hdrop'
          simp only [printItems_apply, hdrop, List.head?_cons, Option.getD_some]
          rw [if_neg hend, if_neg (mt hsemicolon.1 hl), if_pos trivial, List.tail_cons]
        · rename_i hl'
          have hread := value_reads htail scope hdropped
          have hrun : Parse.printItems scope newline out (fuel + 1) code =
              (do
                Parse.printItems scope true (out ++ (← Expression.value scope).text) fuel :
                  Scanner String) (code.dropWhile isBlank) := by
            simp only [printItems_apply, hdrop, List.head?_cons, Option.getD_some]
            rw [if_neg hend, if_neg (mt hsemicolon.1 hl), if_neg (mt hcomma.1 hl')]
          rw [printText]
          cases hv : (expression (l :: after)).expr.eval scope with
          | error err =>
            rw [hv] at hread
            obtain ⟨code', hp⟩ := hread
            exact ⟨code', by rw [hrun]; simp [hp]⟩
          | ok v =>
            rw [hv] at hread
            obtain ⟨code', e', hp, hcodes, hlen'⟩ := hread
            refine (ih hcodes (by omega)).congr ?_
            rw [hrun]
            simp [hp]

include htail in
/-- Reading a `PRINT` statement for the console. -/
theorem print_reads (h : Codes tail e ls code) (hhash : ls.head? ≠ some (.symbol hash)) :
    ReadsAll tail (Parse.print scope) code
      (do return .print none (← printText scope true "" (printItems ls))) := by
  have hnot := mt (h.head_eq_iff htail (t := .symbol hash) rfl).1 hhash
  refine ((printItems_reads htail scope (h.dropWhile htail) (Nat.lt_succ_self _)).map
    (Statement.print none)).congr ?_
  simp [Parse.print, accept_apply, hnot]

/-! ## Jumps -/

/-- A line number after a word that expects one. -/
theorem jumpTarget?_whole {digits : List UInt8} (h : Codes tail true (.whole digits :: ls) code)
    (hle : Crunch.decimalValue digits ≤ 65535) :
    ∃ code' e', jumpTarget? code = .ok (some (UInt16.ofNat (Crunch.decimalValue digits))) code' ∧
      Codes tail e' ls code' := by
  obtain ⟨code', hdrop, -, -, -, hrest, -⟩ := h.dropWhile_cons
  refine ⟨code', _, ?_, hrest⟩
  have hmin : min (Crunch.decimalValue digits) 4294967295 = Crunch.decimalValue digits := by omega
  have hdrop : code.dropWhile isBlank =
      lineNumber :: (Endian.bytes 2 (Crunch.decimalValue digits) ++ code') := by
    rw [hdrop]
    simp [Lexeme.code, Lexeme.keeps, Crunch.wholeNumber, hmin, hle]
  have hpair : Endian.value (Endian.bytes 2 (Crunch.decimalValue digits)) =
      Crunch.decimalValue digits := by
    rw [Endian.value_bytes, Nat.mod_eq_of_lt (show _ < Nat.pow 256 2 by simp; omega)]
  simp only [jumpTarget?, Effect.bind_apply, accept_apply, hdrop, List.head?_cons, if_true,
    List.tail_cons]
  show EStateM.Result.ok (some (UInt16.ofNat (Endian.value (Endian.bytes 2 _)))) code' = _
  rw [hpair]

/-- Only numbers start like a line number. -/
theorem Lexeme.Leads.ne_lineNumber {l : Lexeme} {b : UInt8} (h : l.Leads b)
    (hl : ∀ digits, l ≠ .whole digits) : b ≠ lineNumber := by
  cases l with
  | whole digits => exact absurd rfl (hl digits)
  | word k => cases k <;> cases h <;> decide
  | operator o => cases o <;> cases h <;> decide
  | name t => rintro rfl; exact absurd h (by simp [Leads]; decide)
  | symbol c =>
    obtain ⟨rfl, hc⟩ := h
    rintro rfl
    exact absurd hc (by decide)
  | _ => cases h; decide

theorem head_wholeNumber {asLine : Bool} {digits : List UInt8}
    (h : asLine = false ∨ 65535 < Crunch.decimalValue digits) :
    (Crunch.wholeNumber asLine digits).head? ≠ some lineNumber := by
  have hline : ¬ (asLine && decide (min (Crunch.decimalValue digits) 4294967295 ≤ 65535)) = true := by
    rcases h with rfl | h
    · simp
    · simp
      omega
  unfold Crunch.wholeNumber
  simp only
  rw [if_neg hline]
  split
  · rename_i hle
    generalize min (Crunch.decimalValue digits) 4294967295 = n at hle
    revert n
    decide
  · split
    · simp [lineNumber, byteConstant]
    · split
      · simp [lineNumber, integerConstant]
      · simp [lineNumber, singleConstant]

include htail in
/-- Elsewhere no line number is found. -/
theorem jumpTarget?_other (h : Codes tail e ls code)
    (hls : ∀ digits rest, ls = .whole digits :: rest → e = false ∨ 65535 < Crunch.decimalValue digits) :
    jumpTarget? code = .ok none (code.dropWhile isBlank) := by
  have hhead : (code.dropWhile isBlank).head? ≠ some lineNumber := by
    cases ls with
    | nil =>
      obtain ⟨b, rest, rfl, hb, -⟩ := htail.exists_cons
      rw [h.dropWhile_nil htail, List.head?_cons]
      simp only [statementEnds, List.mem_cons, List.not_mem_nil, or_false] at hb
      rcases hb with rfl | rfl <;> decide
    | cons l rest =>
      obtain ⟨b, more, hdrop, hlead, hne⟩ := h.head_dropWhile
      by_cases hwhole : ∃ digits, l = .whole digits
      · obtain ⟨digits, rfl⟩ := hwhole
        obtain ⟨code', hdrop', -⟩ := h.dropWhile_cons
        have hcode : (Lexeme.whole digits).code (e && (Lexeme.whole digits).keeps) =
            Crunch.wholeNumber e digits := by simp [Lexeme.code, Lexeme.keeps]
        obtain ⟨c, tl, hc, -⟩ := Lexeme.leads_wholeNumber e digits
        have hnot := head_wholeNumber (hls digits rest rfl)
        rw [hdrop', hcode]
        rw [hc] at hnot ⊢
        exact hnot
      · rw [hdrop, List.head?_cons]
        exact fun hb => hlead.ne_lineNumber (fun digits hl => hwhole ⟨digits, hl⟩) (Option.some.inj hb)
  simp [jumpTarget?, accept_apply, hhead]

include htail in
/-- Reading a statement with a line number. -/
theorem jump_reads (make : UInt16 → Command) (f : UInt16 → Statement)
    (hmake : ∀ n, (make n).read scope = .ok (f n)) (h : Codes tail true ls code) :
    ReadsAll tail (Parse.whole do return f (← jumpTarget)) code ((jump make ls).read scope) := by
  by_cases htarget : ∃ digits rest, ls = .whole digits :: rest ∧ Crunch.decimalValue digits ≤ 65535
  · obtain ⟨digits, rest, rfl, hle⟩ := htarget
    obtain ⟨code', e', hread, hcodes⟩ := jumpTarget?_whole h hle
    cases rest with
    | nil =>
      have hjump : jump make [.whole digits] = make (UInt16.ofNat (Crunch.decimalValue digits)) := by
        simp [jump, target?, hle]
      rw [hjump, hmake]
      show Parse.whole _ code = _
      simp [Parse.whole, jumpTarget, hread, hcodes.endOfStatement_nil htail]
    | cons l rest =>
      exact ⟨_, by
        simp [Parse.whole, jumpTarget, hread, hcodes.endOfStatement_cons htail (by simp)]; rfl⟩
  · have hnone := jumpTarget?_other htail h fun digits rest hls =>
      .inr (Nat.lt_of_not_le fun hle => htarget ⟨digits, rest, hls, hle⟩)
    have hjump : jump make ls = .broken none := by
      unfold jump target?
      split
      · rename_i digits
        rw [if_neg fun hle => htarget ⟨digits, [], rfl, hle⟩]
        rfl
      · rfl
    rw [hjump]
    exact ⟨_, by simp [Parse.whole, jumpTarget, hnone]; rfl⟩

include htail in
/-- After `RETURN` a number is not a line number: nothing but the end may follow. -/
theorem return_reads (h : Codes tail false ls code) :
    ReadsAll tail (Parse.whole do return Statement.returnTo (← jumpTarget?)) code
      (if ls = [] then .ok (.returnTo none) else .error (.of .syntaxError)) := by
  have hnone := jumpTarget?_other htail h fun _ _ _ => .inl rfl
  have hdropped := h.dropWhile htail
  split
  · rename_i hls
    subst hls
    show Parse.whole _ code = _
    simp [Parse.whole, hnone, hdropped.endOfStatement_nil htail]
  · rename_i hls
    exact ⟨_, by simp [Parse.whole, hnone, hdropped.endOfStatement_cons htail hls]; rfl⟩

include htail in
theorem end_reads (h : Codes tail e ls code) :
    ReadsAll tail (Parse.whole (pure Statement.endProgram)) code
      (if ls = [] then .ok .endProgram else .error (.of .syntaxError)) := by
  split
  · rename_i hls
    subst hls
    show Parse.whole _ code = _
    simp [Parse.whole, h.endOfStatement_nil htail]
  · rename_i hls
    exact ⟨_, by simp [Parse.whole, h.endOfStatement_cons htail hls]; rfl⟩

/-! ## Statements -/

theorem word_apply (k : Keyword) (code : List UInt8) : Parse.word (k.code ++ code) = .ok k code := by
  cases k <;> rfl

theorem statement_of_word {k : Keyword} {rest : List UInt8}
    (hdrop : code.dropWhile isBlank = k.code ++ rest) :
    Parse.statement scope code = Parse.afterWord scope k rest := by
  have hrun : Parse.statement scope code =
      (do Parse.afterWord scope (← Parse.word) : Scanner Statement) (k.code ++ rest) := by
    simp only [Parse.statement, Effect.bind_apply, next?_apply, hdrop]
    cases k <;> rfl
  rw [hrun, Effect.bind_apply, word_apply]

/-- The bytes that no statement starts with. -/
def opensNoStatement (b : UInt8) : Bool :=
  !isLetter b && b ≠ page && !statementEnds.contains b && (Keyword.ofCode? [b]).isNone

theorem statement_of_opensNoStatement {b : UInt8} {rest : List UInt8} (hb : opensNoStatement b = true)
    (hdrop : code.dropWhile isBlank = b :: rest) :
    Parse.statement scope code = .error (.of .syntaxError) rest := by
  simp only [opensNoStatement, statementEnds, Bool.and_eq_true, Bool.not_eq_true', decide_eq_true_eq,
    List.contains_eq_mem, decide_eq_false_iff_not, List.mem_cons, List.not_mem_nil, or_false, not_or,
    Option.isNone_iff_eq_none] at hb
  obtain ⟨⟨⟨hletter, hpage⟩, hend, hcolon⟩, hword⟩ := hb
  simp [Parse.statement, Parse.word, hdrop, hend, hcolon, hletter, hpage, hword]

include htail in
/-- Reading a statement after its keyword. -/
theorem afterWord_reads {k : Keyword} (h : Codes tail k.expectsLine ls code)
    (hforeign : afterWord ls k ≠ .foreign) :
    ReadsAll tail (Parse.afterWord scope k) code ((afterWord ls k).read scope) := by
  cases k
  case LET => exact assignment_reads htail scope h
  case PRINT =>
    by_cases hhash : ls.head? = some (.symbol hash)
    · exact absurd (if_pos hhash) hforeign
    · have hprint : afterWord ls .PRINT = .print (printItems ls) := if_neg hhash
      rw [hprint]
      exact print_reads htail scope h hhash
  case GOTO => exact jump_reads htail scope _ _ (fun _ => rfl) h
  case GOSUB => exact jump_reads htail scope _ _ (fun _ => rfl) h
  case RETURN =>
    have hread : (afterWord ls .RETURN).read scope =
        if ls = [] then .ok (.returnTo none) else .error (.of .syntaxError) := by
      by_cases hls : ls = []
      · simp [afterWord, hls, Command.read]
      · simp only [afterWord, hls, if_false, jump]
        cases target? ls <;> rfl
    rw [hread]
    exact return_reads htail h
  case END =>
    have hread : (afterWord ls .END).read scope =
        if ls = [] then .ok .endProgram else .error (.of .syntaxError) := by
      by_cases hls : ls = [] <;> simp [afterWord, hls, Command.read]
    rw [hread]
    exact end_reads htail h
  all_goals exact absurd rfl hforeign

include htail in
/-- Reading the code of a statement gives what the reader makes of it, up to where it ends. -/
theorem statement_reads (h : Codes tail false ls code) (hforeign : command ls ≠ .foreign) :
    ReadsAll tail (Parse.statement scope) code ((command ls).read scope) := by
  cases ls with
  | nil =>
    obtain ⟨b, rest, htl, hb, -⟩ := htail.exists_cons
    have hdrop := h.dropWhile_nil htail
    simp only [statementEnds, List.mem_cons, List.not_mem_nil, or_false] at hb
    show Parse.statement scope code = .ok .nothing tail
    rw [htl] at hdrop ⊢
    simp [Parse.statement, hdrop, hb]
  | cons l rest =>
    obtain ⟨code', hdrop, hne, hvalid, hends, hrest, -⟩ := h.dropWhile_cons
    -- What starts like no statement is a syntax error.
    have hother : (∀ b, l.Leads b → opensNoStatement b = true) →
        ReadsAll tail (Parse.statement scope) code (.error (.of .syntaxError)) := fun hopens => by
      obtain ⟨b, more, hcode, hlead⟩ := Lexeme.leads_code hvalid (false && l.keeps)
      rw [hcode] at hdrop
      exact ⟨_, statement_of_opensNoStatement scope (hopens b hlead) hdrop⟩
    cases l with
    | blank => exact absurd rfl hne
    | word k =>
      exact (afterWord_reads htail scope hrest hforeign).congr (statement_of_word scope hdrop)
    | remark t =>
      obtain ⟨rfl, hstop⟩ := hends
      show Parse.statement scope code = .ok .comment code'
      have hdrop : code.dropWhile isBlank = Keyword.REM.code ++ (t ++ code') := hdrop
      rw [statement_of_word scope hdrop]
      simp [Parse.afterWord, forwardTo, skipTo_printable hvalid false hstop]
    | name t =>
      obtain ⟨c, more, ht, hc⟩ := Lexeme.isLetter_head hvalid
      have hlead : (Lexeme.name t).Leads c := hc
      obtain ⟨-, hend, hcolon⟩ := hlead.not_end hne
      refine (assignment_reads htail scope (h.dropWhile htail)).congr ?_
      have hhead : code.dropWhile isBlank = c :: (more ++ code') := by
        rw [hdrop]
        simp [Lexeme.code, ht]
      simp [Parse.statement, hhead, hend, hcolon, hc]
    | whole digits =>
      exact hother (forall_byte
        (P := fun b => Lexeme.isWholeLead b = true → opensNoStatement b = true) (by decide +kernel))
    | fraction digits decimals => exact hother fun b hb => by cases hb; decide
    | text inside closed => exact hother fun b hb => by cases hb; decide
    | operator o => exact hother fun b hb => by cases o <;> cases hb <;> decide
    | symbol c =>
      exact hother fun b hb => hb.1 ▸ forall_byte
        (P := fun c => isSymbol c = true → opensNoStatement c = true) (by decide +kernel) c hb.2

end

end LineBasic.Source

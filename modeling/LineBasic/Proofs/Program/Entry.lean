import LineBasic.Proofs.Program.Load
import LineBasic.Proofs.Program.Store
import LineBasic.Proofs.Source.Spelling

/-!
# Entering a line

What a crunched line with a number does to a program, and which lines of text become one.

* `Program.edit`: the program with such a line entered.
* `checkNumbered_of_head`: the first byte of its body decides whether a line is accepted.
* `head_line_iff`: the lines of text that are taken for one.
* `edit_or_missing`: to delete a line that does not exist is an error, or nothing.
* `edit_typed`: what becomes of a text that is typed after a number and a space.
-/

namespace LineBasic.Program

open Token

/-- The program after a crunched line with a number is entered, and that number; or why the line is
refused. -/
def edit (deleteMissing : Bool) (p : Program) (code : List UInt8) :
    Except BasicError (Program × UInt16) :=
  match checkNumbered { bytes := code } with
  | .error e _ => .error e
  | .ok (isEmpty, number) _ =>
    (if !isEmpty then p.store code
      else if deleteMissing || p.contains number then p.delete number
      else .ok p).map (·, number)

/-- A line that is to be deleted, but is not there. -/
def Missing (p : Program) (bytes : List UInt8) : Prop :=
  ∃ number text, numberedText? bytes = some (number, text) ∧ number ≤ maxLineNumber ∧
    (Crunch.body false text).all isBlank = true ∧ p.contains number = false

/-! ## The check of a line -/

/-- A check moves on the line and leaves its bytes. -/
theorem bytes_checkNumbered {s : CodeStream} {a : Bool × UInt16} {s' : CodeStream}
    (h : checkNumbered s = .ok a s') : s'.bytes = s.bytes := by
  simp only [checkNumbered, Effect.bind_apply, Effect.modify_apply, CodeStream.scan] at h
  cases hn : numbered (s.seek 1).rest with
  | ok a rest =>
    rw [hn] at h
    cases h
    rfl
  | error e rest =>
    rw [hn] at h
    cases h

theorem numbered_of_head {lo hi b : UInt8} {code : List UInt8}
    (hmax : Endian.ofPair lo hi ≤ maxLineNumber) (hhead : (code.dropWhile isBlank).head? = some b)
    (hb : isNumber b = false) :
    ∃ rest, numbered (0xC0 :: 0xDE :: lo :: hi :: code) =
      .ok (decide (b = endLine), Endian.ofPair lo hi) rest := by
  have hmarker : Scan.lineMarker (0xC0 :: 0xDE :: lo :: hi :: code) =
      (some (Endian.ofPair lo hi), code) := rfl
  simp only [numbered, Effect.bind_apply, Scan.lineMarker?_apply, hmarker]
  simp only [UInt16.not_lt.2 hmax, if_false, Effect.bind_apply, Scan.readNext?_apply, hhead, hb]
  exact ⟨_, rfl⟩

/-- A line with a number that is allowed is accepted if its body does not start with another number. -/
theorem checkNumbered_of_head {lo hi b : UInt8} {code : List UInt8}
    (hmax : Endian.ofPair lo hi ≤ maxLineNumber) (hhead : (code.dropWhile isBlank).head? = some b)
    (hb : isNumber b = false) :
    ∃ s, checkNumbered { bytes := endLine :: 0xC0 :: 0xDE :: lo :: hi :: code } =
      .ok (decide (b = endLine), Endian.ofPair lo hi) s := by
  obtain ⟨rest, hnumbered⟩ := numbered_of_head hmax hhead hb
  have hrest : (CodeStream.seek { bytes := endLine :: 0xC0 :: 0xDE :: lo :: hi :: code } 1).rest =
      0xC0 :: 0xDE :: lo :: hi :: code := rfl
  simp only [checkNumbered, Effect.bind_apply, Effect.modify_apply, CodeStream.scan, hrest, hnumbered]
  exact ⟨_, rfl⟩

/-- A line that ends at once is refused. -/
theorem edit_endLine (deleteMissing : Bool) (p : Program) :
    p.edit deleteMissing [endLine] = .error (.of .syntaxError) := rfl

/-! ## Lines of text -/

/-- The code of a text is made of whole lexemes, whatever is in its literals and comments. -/
theorem lexicalIn_body (text : List UInt8) :
    Code.LexicalIn (fun _ => True) (Crunch.body false text) :=
  Crunch.lexicalIn_body false fun _ _ => trivial

/-- A line of text is taken for one with a number if it has one, or if it has no code at all. -/
theorem head_line_iff (line : String) :
    (Crunch.line line).head? = some endLine ↔
      (numberedText? (Text.utf8 line)).isSome ∨ Crunch.line line = [endLine] := by
  cases hnumber : numberedText? (Text.utf8 line) with
  | some found =>
    obtain ⟨lo, hi, -, hbytes⟩ := bytes_eq_of_numberedText? hnumber
    simp [Crunch.line, hbytes]
  | none =>
    obtain ⟨text, -, hbytes⟩ := bytes_eq_of_numberedText?_eq_none hnumber
    have hcode := lexicalIn_body text
    rw [Crunch.line, hbytes]
    cases hbody : Crunch.body false text with
    | nil => simp
    | cons b rest =>
      rw [hbody] at hcode
      simp [hcode.head_ne_endLine]

/-- A blank line has no number. -/
theorem head_line_of_isBlank {line : String} (h : Text.isBlank line = true) :
    (Crunch.line line).head? = some endLine ↔ Crunch.line line = [endLine] := by
  rw [head_line_iff, numberedText?_of_isBlank h]
  simp

/-- A line that would delete another says so in its code. -/
theorem checkNumbered_empty_iff {line : String} (hhead : (Crunch.line line).head? = some endLine)
    (number : UInt16) :
    (∃ s, checkNumbered { bytes := Crunch.line line } = .ok (true, number) s) ↔
      ∃ text, numberedText? (Text.utf8 line) = some (number, text) ∧ number ≤ maxLineNumber ∧
        (Crunch.body false text).all isBlank = true := by
  cases hnumber : numberedText? (Text.utf8 line) with
  | none =>
    have hline : Crunch.line line = [endLine] := by simpa [hnumber] using (head_line_iff line).1 hhead
    have hcheck : ∃ e s, checkNumbered { bytes := [endLine] } = .error e s := ⟨_, _, rfl⟩
    obtain ⟨e, s, hcheck⟩ := hcheck
    simp [hline, hcheck]
  | some found =>
    obtain ⟨n, text⟩ := found
    obtain ⟨lo, hi, rfl, hbytes⟩ := bytes_eq_of_numberedText? hnumber
    have hblank := head_dropWhile_isBlank (lexicalIn_body text)
    rw [Crunch.line, hbytes]
    constructor
    · rintro ⟨s, hcheck⟩
      obtain ⟨rfl, hmax, hempty⟩ := checkNumbered_eq_ok hcheck
      exact ⟨text, rfl, hmax, hblank.1 (eq_of_beq hempty.symm)⟩
    · rintro ⟨text', hfound, hmax, hall⟩
      cases hfound
      have hrest : (Crunch.body false text ++ [endLine]).dropWhile isBlank = [endLine] := by
        rw [List.dropWhile_append_of_pos (List.all_eq_true.1 hall)]
        decide
      exact checkNumbered_of_head hmax (by rw [hrest]; rfl) (by decide)

/-- Whether it is an error to delete a line that does not exist matters to no other line. -/
theorem edit_or_missing (p : Program) {line : String}
    (hhead : (Crunch.line line).head? = some endLine) :
    p.edit true (Crunch.line line) = p.edit false (Crunch.line line) ∧
        ¬ p.Missing (Text.utf8 line) ∨
      p.Missing (Text.utf8 line) ∧
        p.edit true (Crunch.line line) = .error (.of .undefinedLineNumber) ∧
        ∃ number, p.edit false (Crunch.line line) = .ok (p, number) := by
  have hempty := checkNumbered_empty_iff hhead
  cases hcheck : checkNumbered { bytes := Crunch.line line } with
  | error e s =>
    refine .inl ⟨by simp only [edit, hcheck], ?_⟩
    rintro ⟨number, text, hnumber, hmax, hall, -⟩
    obtain ⟨s', hs'⟩ := (hempty number).2 ⟨text, hnumber, hmax, hall⟩
    rw [hcheck] at hs'
    cases hs'
  | ok checked s =>
    obtain ⟨isEmpty, number⟩ := checked
    cases isEmpty with
    | false =>
      refine .inl ⟨by simp only [edit, hcheck, Bool.not_false, if_true], ?_⟩
      rintro ⟨number', text, hnumber, hmax, hall, -⟩
      obtain ⟨s', hs'⟩ := (hempty number').2 ⟨text, hnumber, hmax, hall⟩
      rw [hcheck] at hs'
      cases hs'
    | true =>
      obtain ⟨text, hnumber, hmax, hall⟩ := (hempty number).1 ⟨s, hcheck⟩
      cases hcontains : p.contains number with
      | true =>
        refine .inl ⟨by simp [edit, hcheck, hcontains], ?_⟩
        rintro ⟨number', text', hnumber', -, -, hmissing⟩
        rw [hnumber] at hnumber'
        cases hnumber'
        rw [hcontains] at hmissing
        cases hmissing
      | false =>
        refine .inr ⟨⟨number, text, hnumber, hmax, hall, hcontains⟩, ?_, number, ?_⟩
        · simp [edit, hcheck, delete, hcontains, Except.map]
        · simp [edit, hcheck, hcontains, Except.map]

/-! ## Text after a number -/

/-- The code of a text that is typed after a number and a space. -/
def typedBody (text : List UInt8) : List UInt8 :=
  Crunch.body false ((Crunch.trimEnd text).dropWhile (· = space))

/-- Whether the first byte of a body that is not blank is that of a number. -/
def startsWithNumber (body : List UInt8) : Bool :=
  (body.dropWhile isBlank).head?.any isNumber

theorem trimEnd_append_cons {b : UInt8} (hb : ¬ (b = carriageReturn || b = newline) = true)
    (before after : List UInt8) :
    Crunch.trimEnd (before ++ b :: after) = before ++ b :: Crunch.trimEnd after := by
  have hdrop : (b :: before.reverse).dropWhile (fun b => b = carriageReturn || b = newline) =
      b :: before.reverse := List.dropWhile_cons_of_neg hb
  have hreverse : (before ++ b :: after).reverse = after.reverse ++ b :: before.reverse := by simp
  rw [Crunch.trimEnd, Crunch.trimEnd, hreverse, List.dropWhile_append, hdrop]
  split
  · rename_i hnil
    rw [List.isEmpty_iff.1 hnil]
    simp
  · simp

/-- The digits of a number are not blank. -/
theorem dropWhile_decimal (n : Nat) (rest : List UInt8) :
    (Source.decimal n ++ rest).dropWhile (fun b => b = space || b = tab) = Source.decimal n ++ rest := by
  obtain ⟨d, ds, hd⟩ := List.exists_cons_of_ne_nil (Source.decimal_ne_nil n)
  have hdigit : isDigit d = true := Source.isDigit_of_mem_decimal (hd ▸ List.mem_cons_self)
  have hnot : ∀ b, isDigit b = true → ¬ (b = space || b = tab) = true := by
    grind [isDigit, space, tab]
  rw [hd, List.cons_append, List.dropWhile_cons, if_neg (hnot d hdigit)]

/-- A number, a space and a text are read back, less what is dropped at both ends of the text. -/
theorem numberedText?_typed (n : UInt16) (text : List UInt8) :
    numberedText? (Source.decimal n.toNat ++ space :: text) =
      some (n, (Crunch.trimEnd text).dropWhile (· = space)) := by
  have hdigits : ∀ b ∈ Source.decimal n.toNat, isDigit b = true := fun b => Source.isDigit_of_mem_decimal
  have hspace : (space :: Crunch.trimEnd text).head?.any isDigit = false := by
    rw [List.head?_cons, Option.any_some]
    decide
  obtain ⟨htake, hdrop⟩ := Source.span_digits hdigits hspace
  have hle : ¬ 65535 < n.toNat := Nat.not_lt.2 (Nat.le_of_lt_succ n.toNat_lt)
  rw [numberedText?, trimEnd_append_cons (by decide), dropWhile_decimal, Crunch.lineNumber?, htake, hdrop,
    List.dropWhile_cons_of_pos (by decide), Source.decimalValue_decimal, UInt16.ofNat_toNat]
  simp [Source.decimal_ne_nil, hle]

end LineBasic.Program

namespace LineBasic.LineMap

open Token

/-- The map after a line is entered: a body of blanks deletes the line. -/
def entered (m : LineMap) (n : UInt16) (body : List UInt8) : LineMap :=
  if body.all isBlank then m.erase (· = n) else m.insert n body

/-- Every other line stays as it was. -/
theorem entered_of_ne {m : LineMap} {n k : UInt16} (body : List UInt8) (h : k ≠ n) :
    m.entered n body k = m k := by
  unfold entered
  split
  · simp [erase, h]
  · simp [insert, h]

end LineBasic.LineMap

namespace LineBasic.Program

open Token

/-- The first byte of an accepted line that is not blank. -/
theorem head_of_not_startsWithNumber {text : List UInt8}
    (h : startsWithNumber (Crunch.body false text) = false) :
    ∃ b, ((Crunch.body false text ++ [endLine]).dropWhile isBlank).head? = some b ∧
      isNumber b = false ∧ decide (b = endLine) = (Crunch.body false text).all isBlank := by
  have hblank := head_dropWhile_isBlank (lexicalIn_body text)
  unfold startsWithNumber at h
  generalize Crunch.body false text = body at h hblank ⊢
  cases hrest : body.dropWhile isBlank with
  | nil =>
    have hall := List.dropWhile_eq_nil_iff.1 hrest
    refine ⟨endLine, ?_, by decide, ?_⟩
    · rw [List.dropWhile_append_of_pos hall]
      decide
    · rw [List.all_eq_true.2 hall]
      decide
  | cons b rest =>
    rw [hrest, List.head?_cons, Option.any_some] at h
    have hhead : ((body ++ [endLine]).dropWhile isBlank).head? = some b := by
      rw [List.dropWhile_append, hrest]
      rfl
    refine ⟨b, hhead, h, ?_⟩
    rw [hhead, Option.getD_some] at hblank
    rw [Bool.eq_iff_iff, decide_eq_true_iff]
    exact hblank

/-- A program with a line deleted, if there is one, has the map without it. -/
theorem toMap_of_delete (p : Program) (n : UInt16) :
    ∃ q, (if p.contains n then p.delete n else .ok p) = .ok q ∧ q.toMap = p.toMap.erase (· = n) := by
  by_cases hcontains : p.contains n = true
  · have hdelete := p.toMap_apply (.delete n)
    simp only [Edit.apply, Edit.onMap?, isSome_toMap, hcontains, if_true] at hdelete
    cases hq : p.delete n with
    | error e =>
      rw [hq] at hdelete
      cases hdelete
    | ok q =>
      rw [hq] at hdelete
      exact ⟨q, by rw [if_pos hcontains], Option.some.inj hdelete⟩
  · refine ⟨p, if_neg hcontains, ?_⟩
    funext k
    by_cases hk : k = n
    · have hnone : p.toMap k = none := by
        rw [← Option.not_isSome_iff_eq_none, isSome_toMap, hk]
        exact hcontains
      simp [LineMap.erase, hnone]
    · simp [LineMap.erase, hk]

theorem toMap_of_store (p : Program) {code : List UInt8} {l : Line} (hline : numberedLine? code = some l)
    (hfits : (p.toMap.insert l.number l.body).image.length ≤ 65535) :
    ∃ q, p.store code = .ok q ∧ q.toMap = p.toMap.insert l.number l.body := by
  have hstore := p.toMap_apply (.store code)
  simp only [Edit.apply, Edit.onMap?, hline, Option.bind_some, hfits, if_true] at hstore
  cases hq : p.store code with
  | error e =>
    rw [hq] at hstore
    cases hstore
  | ok q =>
    rw [hq] at hstore
    exact ⟨q, rfl, Option.some.inj hstore⟩

theorem numberedLine?_concat (lo hi : UInt8) (body : List UInt8) :
    numberedLine? (endLine :: 0xC0 :: 0xDE :: lo :: hi :: (body ++ [endLine])) =
      some ⟨Endian.ofPair lo hi, body⟩ := by
  have hbody : (if (body ++ [endLine]).getLast? = some 0 then (body ++ [endLine]).dropLast
      else body ++ [endLine]) = body := by
    rw [List.getLast?_concat, if_pos (by decide), List.dropLast_concat]
  exact congrArg (fun body => some (⟨Endian.ofPair lo hi, body⟩ : Line)) hbody

/-- The code of a number, a space and a text. -/
theorem bytes_typed (n : UInt16) (text : List UInt8) :
    ∃ lo hi, Endian.ofPair lo hi = n ∧
      Crunch.bytes (Source.decimal n.toNat ++ space :: text) =
        endLine :: 0xC0 :: 0xDE :: lo :: hi :: (typedBody text ++ [endLine]) :=
  bytes_eq_of_numberedText? (numberedText?_typed n text)

/-- Text that is typed after a number and a space is entered under that number. -/
theorem edit_typed (p : Program) {n : UInt16} (hn : n ≤ maxLineNumber) {text : List UInt8}
    (hnumber : startsWithNumber (typedBody text) = false)
    (hfits : (p.toMap.entered n (typedBody text)).image.length ≤ 65535) :
    ∃ q, p.edit false (Crunch.bytes (Source.decimal n.toNat ++ space :: text)) = .ok (q, n) ∧
      q.toMap = p.toMap.entered n (typedBody text) := by
  obtain ⟨lo, hi, rfl, hbytes⟩ := bytes_typed n text
  obtain ⟨b, hhead, hb, hempty⟩ : ∃ b,
      ((typedBody text ++ [endLine]).dropWhile isBlank).head? = some b ∧ isNumber b = false ∧
        decide (b = endLine) = (typedBody text).all isBlank := head_of_not_startsWithNumber hnumber
  obtain ⟨s, hcheck⟩ := checkNumbered_of_head hn hhead hb
  simp only [hbytes, edit, hcheck, hempty, Bool.false_or]
  cases hall : (typedBody text).all isBlank with
  | true =>
    obtain ⟨q, hq, hmap⟩ := p.toMap_of_delete (Endian.ofPair lo hi)
    refine ⟨q, ?_, by rw [hmap, LineMap.entered, if_pos hall]⟩
    rw [Bool.not_true, if_neg Bool.false_ne_true, hq]
    rfl
  | false =>
    have hfull : ¬ (typedBody text).all isBlank = true := by simp [hall]
    rw [LineMap.entered, if_neg hfull] at hfits
    obtain ⟨q, hq, hmap⟩ := p.toMap_of_store (numberedLine?_concat lo hi (typedBody text)) hfits
    refine ⟨q, ?_, by rw [hmap, LineMap.entered, if_neg hfull]⟩
    rw [Bool.not_false, if_pos rfl, hq]
    rfl

end LineBasic.Program

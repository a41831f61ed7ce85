import LineBasic.Proofs.Code.Scanner
import LineBasic.Proofs.Code.Skip
import LineBasic.Proofs.Source.Sound
import LineBasic.Statement.Expression

/-!
# Code as a sequence of lexemes

* `Codes`: code is that of lexemes, with blanks between them, up to the end of a statement.
* `codes_encode`: the code of sound lexemes is such code.
* `Codes.dropWhile_nil`, `Codes.dropWhile_cons`: what stands after the blanks.
* `Codes.accept`: a scanner finds a one-byte lexeme exactly where it is the next one.
-/

namespace LineBasic.Source

open Token Scan

/-! ## The first byte of a lexeme -/

namespace Lexeme

/-- What may come after a lexeme in code that goes on to `tail`. -/
def Ends (tail code : List UInt8) : Lexeme → Prop
  | name t => IsMarked t ∨ code.head?.any (fun b => isNameByte b || isSigil b) = false
  | remark _ => code = tail ∧ tail.head? = some endLine
  | text _ closed => closed = false → code.head? = some endLine
  | _ => True

/-- The lead bytes of whole numbers. -/
def isWholeLead (b : UInt8) : Bool :=
  b ∈ [lineNumber, byteConstant, integerConstant, singleConstant] || (zero ≤ b && b ≤ ten)

/-- The first byte of the code of a lexeme. -/
def Leads (b : UInt8) : Lexeme → Prop
  | blank => b = space
  | word k => k.code.head? = some b
  | remark _ => b = rem
  | name _ => isLetter b = true
  | whole _ => isWholeLead b = true
  | fraction _ _ => b = singleConstant
  | text _ _ => b = quote
  | operator o => b = o.code
  | symbol c => b = c ∧ isSymbol c = true

/-- The byte of a lexeme of one byte. -/
def byte? : Lexeme → Option UInt8
  | operator o => some o.code
  | symbol b => if isSymbol b then some b else none
  | _ => none

/-- A whole number starts with a byte that says so. -/
theorem leads_wholeNumber (asLine : Bool) (digits : List UInt8) :
    ∃ b rest, Crunch.wholeNumber asLine digits = b :: rest ∧ isWholeLead b = true := by
  unfold Crunch.wholeNumber
  simp only
  split
  · exact ⟨_, _, rfl, by decide⟩
  · split
    · rename_i hle
      refine ⟨_, _, rfl, ?_⟩
      generalize min (Crunch.decimalValue digits) 4294967295 = n at hle
      revert n
      decide
    · split
      · exact ⟨_, _, rfl, by decide⟩
      · split <;> exact ⟨_, _, rfl, by decide⟩

theorem isLetter_head_of_isStem {t : List UInt8} (h : IsStem t) :
    ∃ b rest, t = b :: rest ∧ isLetter b = true := by
  cases t with
  | nil => exact h.elim
  | cons b rest => exact ⟨b, rest, rfl, h.1⟩

theorem isLetter_head {t : List UInt8} (h : IsStem t ∨ IsMarked t) :
    ∃ b rest, t = b :: rest ∧ isLetter b = true := by
  rcases h with h | ⟨stem, mark, rfl, h, -⟩
  · exact isLetter_head_of_isStem h
  · obtain ⟨b, rest, rfl, hb⟩ := isLetter_head_of_isStem h
    exact ⟨b, rest ++ [mark], rfl, hb⟩

/-- The code of a lexeme starts with a byte that leads it. -/
theorem leads_code {l : Lexeme} (h : l.Valid) (asLine : Bool) :
    ∃ b rest, l.code asLine = b :: rest ∧ l.Leads b := by
  cases l with
  | blank => exact ⟨_, _, rfl, rfl⟩
  | word k => cases k <;> exact ⟨_, _, rfl, rfl⟩
  | remark t => exact ⟨_, _, rfl, rfl⟩
  | name t => exact isLetter_head h
  | whole digits => exact leads_wholeNumber asLine digits
  | fraction digits decimals => exact ⟨_, _, rfl, rfl⟩
  | text inside closed => exact ⟨_, _, rfl, rfl⟩
  | operator o => exact ⟨_, _, rfl, rfl⟩
  | symbol b => exact ⟨_, _, rfl, rfl, h⟩

/-- The lead bytes of words. -/
theorem word_leads {k : Keyword} {b : UInt8} (h : k.code.head? = some b) :
    0x80 ≤ b ∧ (b ≤ 0xDD ∨ b = page) := by
  cases k <;> cases h <;> decide

theorem not_isSymbol {b : UInt8} (h : isSymbol b = true) :
    isLetter b = false ∧ isWholeLead b = false ∧ isBlank b = false ∧
      b ∉ [endLine, colon, quote, rem, singleConstant] ∧ b < 0x80 :=
  forall_byte (P := fun b => isSymbol b = true →
      isLetter b = false ∧ isWholeLead b = false ∧ isBlank b = false ∧
        b ∉ [endLine, colon, quote, rem, singleConstant] ∧ b < 0x80)
    (by decide +kernel) b h

theorem code_operator (o : Operator) :
    isLetter o.code = false ∧ isWholeLead o.code = false ∧ isSymbol o.code = false ∧
      o.code ∉ [space, quote, rem, singleConstant] ∧ 0xDD < o.code ∧ o.code < page := by
  cases o <;> decide

/-- A lexeme of one byte is known by its byte. -/
theorem eq_of_leads {l t : Lexeme} {b : UInt8} (ht : t.byte? = some b) (hl : l.Leads b) : l = t := by
  cases t with
  | operator o =>
    obtain rfl : o.code = b := Option.some.inj ht
    obtain ⟨hletter, hwhole, hsymbol, hmem, hlt, hpage⟩ := code_operator o
    cases l with
    | operator p =>
      cases o <;> cases p <;> first | rfl | exact absurd (show _ = Operator.code _ from hl) (by decide)
    | word k =>
      rcases (word_leads hl).2 with h | h
      · exact absurd h (UInt8.not_le.2 hlt)
      · exact absurd h (UInt8.ne_of_lt hpage)
    | symbol c =>
      obtain ⟨rfl, hc⟩ := hl
      exact absurd hc (Bool.eq_false_iff.1 hsymbol)
    | name t => exact absurd hl (Bool.eq_false_iff.1 hletter)
    | whole digits => exact absurd hl (Bool.eq_false_iff.1 hwhole)
    | _ =>
      refine absurd ?_ hmem
      rw [show o.code = _ from hl]
      decide
  | symbol c =>
    obtain ⟨hc, rfl⟩ : isSymbol c = true ∧ c = b := by
      simpa only [byte?, Option.ite_none_right_eq_some, Option.some.injEq] using ht
    obtain ⟨hletter, hwhole, hblank, hmem, hlt⟩ := not_isSymbol hc
    cases l with
    | symbol d => rw [hl.1]
    | operator o => cases o <;> exact absurd (hl ▸ hlt) (by decide)
    | word k => exact absurd (word_leads hl).1 (UInt8.not_le.2 hlt)
    | name t => exact absurd hl (Bool.eq_false_iff.1 hletter)
    | whole digits => exact absurd hl (Bool.eq_false_iff.1 hwhole)
    | blank => exact absurd (hl ▸ hblank) (by decide)
    | _ =>
      refine absurd ?_ hmem
      rw [show c = _ from hl]
      decide
  | _ => cases ht

/-- Blanks apart, no lexeme starts with a blank or with the end of a statement. -/
theorem Leads.not_end {l : Lexeme} {b : UInt8} (h : l.Leads b) (hl : l ≠ .blank) :
    isBlank b = false ∧ b ≠ endLine ∧ b ≠ colon := by
  cases l with
  | blank => exact absurd rfl hl
  | word k => cases k <;> cases h <;> decide
  | operator o => cases o <;> cases h <;> decide
  | name t =>
    exact forall_byte (P := fun b => isLetter b = true → isBlank b = false ∧ b ≠ endLine ∧ b ≠ colon)
      (by decide +kernel) b h
  | whole digits =>
    exact forall_byte
      (P := fun b => isWholeLead b = true → isBlank b = false ∧ b ≠ endLine ∧ b ≠ colon)
      (by decide +kernel) b h
  | symbol c =>
    obtain ⟨rfl, hc⟩ := h
    obtain ⟨-, -, hblank, hmem, -⟩ := not_isSymbol hc
    refine ⟨hblank, ?_, ?_⟩ <;> rintro rfl <;> exact hmem (by decide)
  | _ => cases h; decide

/-- A lexeme that does not go on a name starts with a byte that does not. -/
theorem Leads.not_nameByte {l : Lexeme} {b : UInt8} (h : l.Leads b) (hl : l.extendsName = false) :
    (isNameByte b || isSigil b) = false := by
  cases l with
  | word k => cases k <;> cases h <;> decide
  | operator o => cases o <;> cases h <;> decide
  | name t => cases hl
  | whole digits =>
    exact forall_byte (P := fun b => isWholeLead b = true → (isNameByte b || isSigil b) = false)
      (by decide +kernel) b h
  | symbol c => exact h.1 ▸ hl
  | _ => cases h; decide

/-- A letter leads names only. -/
theorem Leads.not_isLetter {l : Lexeme} {b : UInt8} (h : l.Leads b) (hl : ∀ t, l ≠ .name t) :
    isLetter b = false := by
  cases l with
  | word k => cases k <;> cases h <;> decide
  | operator o => cases o <;> cases h <;> decide
  | name t => exact absurd rfl (hl t)
  | whole digits =>
    exact forall_byte (P := fun b => isWholeLead b = true → isLetter b = false)
      (by decide +kernel) b h
  | symbol c => exact h.1 ▸ (not_isSymbol h.2).1
  | _ => cases h; decide

end Lexeme

/-! ## Code of lexemes -/

/-- Code of lexemes, blanks between them left out, that goes on to `tail`. -/
inductive Codes (tail : List UInt8) : Bool → List Lexeme → List UInt8 → Prop
  | nil {e : Bool} : Codes tail e [] tail
  | blank {e : Bool} {ls : List Lexeme} {code : List UInt8} (h : Codes tail e ls code) :
    Codes tail e ls (space :: code)
  | cons {e : Bool} {l : Lexeme} {ls : List Lexeme} {code : List UInt8} (hne : l ≠ .blank)
    (hvalid : l.Valid) (hends : l.Ends tail code)
    (h : Codes tail ((e && l.keeps) || l.expects) ls code) :
    Codes tail e (l :: ls) (l.code (e && l.keeps) ++ code)

/-- What a statement is followed by. -/
def Stops (tail : List UInt8) : Prop :=
  ∃ b ∈ statementEnds, tail.head? = some b

/-- Unless the first lexeme extends a name, neither does the first byte of the code. -/
theorem head_encode {e : Bool} {ls : List Lexeme} {stop : UInt8} {tail : List UInt8}
    (hs : Sound stop ls) (htail : tail.head? = some stop) (hstop : stop ∈ statementEnds)
    (h : ls.head?.any Lexeme.extendsName = false) :
    (encode e ls ++ tail).head?.any (fun b => isNameByte b || isSigil b) = false := by
  cases ls with
  | nil =>
    simp only [encode, List.nil_append, htail, Option.any_some]
    simp only [statementEnds, List.mem_cons, List.not_mem_nil, or_false] at hstop
    rcases hstop with rfl | rfl <;> decide
  | cons l rest =>
    obtain ⟨b, more, hcode, hlead⟩ := Lexeme.leads_code hs.1 (e && l.keeps)
    simp only [encode, hcode, List.cons_append, List.head?_cons, Option.any_some]
    exact hlead.not_nameByte (by simpa using h)

/-- The code of sound lexemes, with blanks anywhere between them. -/
theorem codes_encode {e : Bool} {ls : List Lexeme} {stop : UInt8} {tail : List UInt8}
    (hs : Sound stop ls) (htail : tail.head? = some stop) (hstop : stop ∈ statementEnds) :
    Codes tail e (strip ls) (encode e ls ++ tail) := by
  induction ls generalizing e with
  | nil => exact .nil
  | cons l rest ih =>
    obtain ⟨hvalid, hprecedes, hrest⟩ := hs
    by_cases hl : l = .blank
    · subst hl
      have hcode : encode e (.blank :: rest) ++ tail = space :: (encode e rest ++ tail) := by
        simp [encode, Lexeme.code, Lexeme.keeps, Lexeme.expects]
      rw [hcode]
      exact .blank (ih hrest)
    · have hstrip : strip (l :: rest) = l :: strip rest := by simp [strip, hl]
      rw [hstrip, encode, List.append_assoc]
      refine .cons hl hvalid ?_ (ih hrest)
      cases l with
      | name t => exact hprecedes.imp id fun h => head_encode hrest htail hstop h
      | remark t =>
        obtain ⟨rfl, rfl⟩ := hprecedes
        exact ⟨rfl, htail⟩
      | text inside closed =>
        intro hclosed
        obtain ⟨rfl, rfl⟩ := hprecedes hclosed
        exact htail
      | _ => trivial

/-! ## Scanning code of lexemes -/

theorem Stops.exists_cons {tail : List UInt8} (h : Stops tail) :
    ∃ b rest, tail = b :: rest ∧ b ∈ statementEnds ∧ isBlank b = false := by
  obtain ⟨b, hb, htail⟩ := h
  obtain ⟨rest, rfl⟩ := List.head?_eq_some_iff.1 htail
  refine ⟨b, rest, rfl, hb, ?_⟩
  simp only [statementEnds, List.mem_cons, List.not_mem_nil, or_false] at hb
  rcases hb with rfl | rfl <;> decide

namespace Codes

variable {tail code : List UInt8} {e : Bool} {ls : List Lexeme} {l t : Lexeme} {b : UInt8}

/-- Passing blanks leaves the lexemes as they are. -/
theorem dropWhile (h : Codes tail e ls code) (htail : Stops tail) :
    Codes tail e ls (code.dropWhile isBlank) := by
  induction h with
  | nil =>
    obtain ⟨b, rest, rfl, -, hb⟩ := htail.exists_cons
    rw [List.dropWhile_cons, hb]
    exact .nil
  | blank h ih => exact ih
  | @cons e l ls code hne hvalid hends h ih =>
    obtain ⟨c, rest, hcode, hlead⟩ := Lexeme.leads_code hvalid (e && l.keeps)
    have hc := (hlead.not_end hne).1
    have heq : (l.code (e && l.keeps) ++ code).dropWhile isBlank = l.code (e && l.keeps) ++ code := by
      rw [hcode, List.cons_append, List.dropWhile_cons, hc]
      rfl
    rw [heq]
    exact .cons hne hvalid hends h

/-- Where no lexemes are left, the end of the statement comes after the blanks. -/
theorem dropWhile_nil (h : Codes tail e [] code) (htail : Stops tail) :
    code.dropWhile isBlank = tail := by
  generalize hls : ([] : List Lexeme) = ls at h
  induction h with
  | nil =>
    obtain ⟨b, rest, rfl, -, hb⟩ := htail.exists_cons
    rw [List.dropWhile_cons, hb]
    rfl
  | blank h ih => exact ih hls
  | cons => cases hls

/-- Where lexemes are left, the first one comes after the blanks. -/
theorem dropWhile_cons (h : Codes tail e (l :: ls) code) :
    ∃ code', code.dropWhile isBlank = l.code (e && l.keeps) ++ code' ∧ l ≠ .blank ∧ l.Valid ∧
      l.Ends tail code' ∧ Codes tail ((e && l.keeps) || l.expects) ls code' ∧
      code'.length < code.length := by
  generalize hls : l :: ls = ms at h
  induction h with
  | nil => cases hls
  | blank h ih =>
    obtain ⟨code', hdrop, hne, hvalid, hends, hrest, hlen⟩ := ih hls
    exact ⟨code', hdrop, hne, hvalid, hends, hrest, Nat.lt_succ_of_lt hlen⟩
  | @cons e m ms code hne hvalid hends h ih =>
    obtain ⟨rfl, rfl⟩ := List.cons.inj hls
    obtain ⟨c, rest, hcode, hlead⟩ := Lexeme.leads_code hvalid (e && l.keeps)
    refine ⟨code, ?_, hne, hvalid, hends, h, ?_⟩
    · rw [hcode, List.cons_append, List.dropWhile_cons, (hlead.not_end hne).1]
      rfl
    · rw [hcode, List.length_append, List.length_cons]
      omega

/-- The first byte after the blanks leads the first lexeme. -/
theorem head_dropWhile (h : Codes tail e (l :: ls) code) :
    ∃ b rest, code.dropWhile isBlank = b :: rest ∧ l.Leads b ∧ l ≠ .blank := by
  obtain ⟨code', hdrop, hne, hvalid, -, -, -⟩ := h.dropWhile_cons
  obtain ⟨b, rest, hcode, hlead⟩ := Lexeme.leads_code hvalid (e && l.keeps)
  exact ⟨b, rest ++ code', by rw [hdrop, hcode]; rfl, hlead, hne⟩

end Codes

theorem Lexeme.of_byte? {t : Lexeme} {b : UInt8} (h : t.byte? = some b) :
    (∀ asLine, t.code asLine = [b]) ∧ t.Leads b ∧ t ≠ .blank := by
  cases t with
  | operator o => cases h; exact ⟨fun _ => rfl, rfl, by simp⟩
  | symbol c =>
    obtain ⟨hc, rfl⟩ : isSymbol c = true ∧ c = b := by
      simpa only [byte?, Option.ite_none_right_eq_some, Option.some.injEq] using h
    exact ⟨fun _ => rfl, ⟨rfl, hc⟩, by simp⟩
  | _ => cases h

/-- A byte is passed if it comes after the blanks. -/
theorem accept_apply (b : UInt8) (code : List UInt8) :
    Scan.accept [b] code =
      if (code.dropWhile isBlank).head? = some b then .ok true (code.dropWhile isBlank).tail
      else .ok false (code.dropWhile isBlank) := by
  simp only [Scan.accept, acceptAny, Effect.bind_apply, skipWhile_apply, Effect.get_apply]
  cases code.dropWhile isBlank with
  | nil => simp
  | cons c rest => by_cases hc : c = b <;> simp [hc]

theorem expect_apply (b : UInt8) (code : List UInt8) :
    Scan.expect [b] code =
      if (code.dropWhile isBlank).head? = some b then .ok () (code.dropWhile isBlank).tail
      else .error (.of .syntaxError) (code.dropWhile isBlank) := by
  simp only [Scan.expect, expectAny, acceptAny, Effect.bind_apply, skipWhile_apply, Effect.get_apply]
  cases code.dropWhile isBlank with
  | nil => simp
  | cons c rest => by_cases hc : c = b <;> simp [hc]

namespace Codes

variable {tail code : List UInt8} {e : Bool} {ls : List Lexeme} {l t : Lexeme} {b : UInt8}

/-- The byte of a lexeme comes next exactly if the lexeme does. -/
theorem head_eq_iff (h : Codes tail e ls code) (htail : Stops tail) (ht : t.byte? = some b) :
    (code.dropWhile isBlank).head? = some b ↔ ls.head? = some t := by
  obtain ⟨hcode, hlead, hne⟩ := Lexeme.of_byte? ht
  cases ls with
  | nil =>
    obtain ⟨c, rest, rfl, hc, -⟩ := htail.exists_cons
    rw [h.dropWhile_nil htail]
    simp only [List.head?_cons, List.head?_nil, Option.some.injEq, reduceCtorEq, iff_false]
    rintro rfl
    obtain ⟨-, hend, hcolon⟩ := hlead.not_end hne
    simp [statementEnds, hend, hcolon] at hc
  | cons l ls =>
    obtain ⟨c, rest, hdrop, hl, -⟩ := h.head_dropWhile
    rw [hdrop, List.head?_cons, List.head?_cons, Option.some.injEq, Option.some.injEq]
    constructor
    · rintro rfl
      exact Lexeme.eq_of_leads ht hl
    · rintro rfl
      obtain ⟨code', hdrop', -⟩ := h.dropWhile_cons
      rw [hdrop, hcode] at hdrop'
      exact (List.cons.inj hdrop').1

/-- Passing a lexeme of one byte. -/
theorem dropWhile_byte (h : Codes tail e (t :: ls) code) (ht : t.byte? = some b) :
    ∃ code' e', code.dropWhile isBlank = b :: code' ∧ Codes tail e' ls code' ∧
      code'.length < code.length := by
  obtain ⟨code', hdrop, -, -, -, hrest, hlen⟩ := h.dropWhile_cons
  rw [(Lexeme.of_byte? ht).1] at hdrop
  exact ⟨code', _, hdrop, hrest, hlen⟩

/-- Nothing is left of a statement exactly if its end comes next. -/
theorem head_mem_iff (h : Codes tail e ls code) (htail : Stops tail) :
    ((code.dropWhile isBlank).head?.getD endLine) ∈ statementEnds ↔ ls = [] := by
  cases ls with
  | nil =>
    obtain ⟨c, rest, rfl, hc, -⟩ := htail.exists_cons
    rw [h.dropWhile_nil htail]
    simpa using hc
  | cons l ls =>
    obtain ⟨c, rest, hdrop, hl, hne⟩ := h.head_dropWhile
    obtain ⟨-, hend, hcolon⟩ := hl.not_end hne
    simp [hdrop, statementEnds, hend, hcolon]

/-- A statement ends where no lexeme is left. -/
theorem endOfStatement_nil (h : Codes tail e [] code) (htail : Stops tail) :
    endOfStatement code = .ok () tail := by
  have hmem := (h.head_mem_iff htail).2 rfl
  rw [h.dropWhile_nil htail] at hmem
  simp [endOfStatement, require, h.dropWhile_nil htail, hmem]

/-- It is a syntax error where one is. -/
theorem endOfStatement_cons (h : Codes tail e ls code) (htail : Stops tail) (hls : ls ≠ []) :
    endOfStatement code = .error (.of .syntaxError) (code.dropWhile isBlank) := by
  have hmem := mt (h.head_mem_iff htail).1 hls
  simp [endOfStatement, require, hmem]

end Codes

/-! ## Names, strings and comments -/

theorem map_upper_of_isStem {t : List UInt8} (h : IsStem t) :
    (∀ b ∈ t, isNameByte b = true) ∧ t.map upper = t := by
  cases t with
  | nil => exact h.elim
  | cons c rest =>
    refine ⟨fun b hb => (h.2 b hb).1, ?_⟩
    calc (c :: rest).map upper
      _ = (c :: rest).map id := List.map_congr_left fun b hb => (h.2 b hb).2
      _ = c :: rest := List.map_id _

theorem splitName_marked {t : List UInt8} (h : IsMarked t) (code : List UInt8) :
    splitName (t ++ code) = (t, code) := by
  obtain ⟨stem, mark, rfl, hstem, hmark⟩ := h
  obtain ⟨hname, hupper⟩ := map_upper_of_isStem hstem
  have hnot : isNameByte mark = false :=
    forall_byte (P := fun b => isSigil b = true → isNameByte b = false) (by decide +kernel) mark hmark
  unfold splitName
  rw [List.append_assoc, List.takeWhile_append_of_pos hname, List.dropWhile_append_of_pos hname,
    List.singleton_append, List.takeWhile_cons, List.dropWhile_cons, hnot]
  simp [hmark, hupper]

theorem splitName_stem {t : List UInt8} (h : IsStem t) {code : List UInt8}
    (hcode : code.head?.any (fun b => isNameByte b || isSigil b) = false) :
    splitName (t ++ code) = (t, code) := by
  obtain ⟨hname, hupper⟩ := map_upper_of_isStem h
  unfold splitName
  rw [List.takeWhile_append_of_pos hname, List.dropWhile_append_of_pos hname]
  cases code with
  | nil => simp [hupper]
  | cons c rest =>
    simp only [List.head?_cons, Option.any_some, Bool.or_eq_false_iff] at hcode
    simp [hcode, hupper]

/-- A name is read back from its code. -/
theorem splitName_append {t : List UInt8} {tail code : List UInt8}
    (hvalid : (Lexeme.name t).Valid) (hends : (Lexeme.name t).Ends tail code) :
    splitName (t ++ code) = (t, code) := by
  rcases hends with hmarked | hcode
  · exact splitName_marked hmarked code
  · rcases hvalid with hstem | hmarked
    · exact splitName_stem hstem hcode
    · exact splitName_marked hmarked code

/-- A string is read back from its code. -/
theorem splitString_append {inside tail code : List UInt8} {closed : Bool}
    (hvalid : (Lexeme.text inside closed).Valid) (hends : (Lexeme.text inside closed).Ends tail code) :
    Expression.splitString (inside ++ (if closed then [quote] else []) ++ code) = (inside, code) := by
  have hnot : ∀ b, isPrintable b = true → b ≠ endLine := forall_byte (by decide +kernel)
  have hinside : ∀ b ∈ inside, (b ≠ endLine && b ≠ quote) = true := fun b hb => by
    simp [hnot b (hvalid b hb).1, (hvalid b hb).2]
  unfold Expression.splitString
  rw [List.append_assoc, List.takeWhile_append_of_pos hinside, List.dropWhile_append_of_pos hinside]
  cases closed with
  | true => simp
  | false =>
    obtain ⟨rest, rfl⟩ := List.head?_eq_some_iff.1 (hends rfl)
    have hq : endLine ≠ quote := by decide
    simp [hq]

/-- A comment reaches to the end of its line. -/
theorem skipTo_printable {t : List UInt8} (ht : ∀ b ∈ t, isPrintable b = true) (literal : Bool)
    {tail : List UInt8} (htail : tail.head? = some endLine) :
    skipTo [endLine] true literal false (t ++ tail) = tail := by
  obtain ⟨rest, rfl⟩ := List.head?_eq_some_iff.1 htail
  induction t generalizing literal with
  | nil => rw [List.nil_append, skipTo_endLine, skipTo_endLine_self]
  | cons c t ih =>
    have hc : isPrintable c = true → c ≠ rem ∧ c ≠ endLine ∧ operandLength c = 0 :=
      forall_byte (P := fun c => isPrintable c = true → c ≠ rem ∧ c ≠ endLine ∧ operandLength c = 0)
        (by decide +kernel) c
    obtain ⟨hrem, hend, hlen⟩ := hc (ht c List.mem_cons_self)
    have ih := fun literal => ih (fun b hb => ht b (List.mem_cons_of_mem _ hb)) literal
    rw [List.cons_append, skipTo.eq_def]
    simp [hrem, hend, hlen, ih]

theorem name_apply (code : List UInt8) :
    Scan.name code =
      if (code.dropWhile isBlank).head?.any isLetter then
        if (Text.ofBytes (splitName (code.dropWhile isBlank)).1).isEmpty then
          .error (.of .syntaxError) (splitName (code.dropWhile isBlank)).2
        else
          .ok (Text.ofBytes (splitName (code.dropWhile isBlank)).1)
            (splitName (code.dropWhile isBlank)).2
      else .error (.of .syntaxError) (code.dropWhile isBlank) := by
  simp only [Scan.name, name?, Effect.bind_apply, next?_apply]
  cases (code.dropWhile isBlank).head? with
  | none => rfl
  | some b => cases hb : isLetter b <;> simp [hb]

namespace Codes

variable {tail code : List UInt8} {e : Bool} {ls : List Lexeme} {l : Lexeme} {t : List UInt8}

/-- A name is read, and the code of the other lexemes is left. -/
theorem name_cons (h : Codes tail e (.name t :: ls) code) :
    ∃ code' e', Scan.name code = .ok (Text.ofBytes t) code' ∧ Codes tail e' ls code' ∧
      code'.length < code.length := by
  obtain ⟨code', hdrop, -, hvalid, hends, hrest, hlen⟩ := h.dropWhile_cons
  obtain ⟨c, more, ht, hc⟩ := Lexeme.isLetter_head hvalid
  have hletter : (t ++ code').head?.any isLetter = true := by simp [ht, hc]
  have hne : (Text.ofBytes t).isEmpty = false := by simp [ht, Text.ofBytes]
  refine ⟨code', _, ?_, hrest, hlen⟩
  have hdrop : code.dropWhile isBlank = t ++ code' := hdrop
  rw [name_apply, hdrop, if_pos hletter, splitName_append hvalid hends]
  simp [hne]

/-- A letter comes next only if a name does. -/
theorem head_any_isLetter (h : Codes tail e ls code) (htail : Stops tail)
    (hls : ∀ t rest, ls ≠ .name t :: rest) : (code.dropWhile isBlank).head?.any isLetter = false := by
  cases ls with
  | nil =>
    obtain ⟨c, rest, rfl, hc, -⟩ := htail.exists_cons
    rw [h.dropWhile_nil htail, List.head?_cons, Option.any_some]
    simp only [statementEnds, List.mem_cons, List.not_mem_nil, or_false] at hc
    rcases hc with rfl | rfl <;> decide
  | cons l ls =>
    obtain ⟨c, rest, hdrop, hl, -⟩ := h.head_dropWhile
    rw [hdrop, List.head?_cons, Option.any_some]
    exact hl.not_isLetter fun t ht => hls t ls (by rw [ht])

/-- Anything else is not a name, which is a syntax error. -/
theorem name_not (h : Codes tail e ls code) (htail : Stops tail)
    (hls : ∀ t rest, ls ≠ .name t :: rest) :
    Scan.name code = .error (.of .syntaxError) (code.dropWhile isBlank) := by
  rw [name_apply, h.head_any_isLetter htail hls]
  rfl

end Codes

end LineBasic.Source

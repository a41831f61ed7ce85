import Mathlib.Logic.Relation
import LineBasic.Code.Stream
import LineBasic.Proofs.Code.Skip

/-!
# Regions of code

A byte stands in code, in a string literal or in a comment.  A quote in code opens a literal, which the
next quote closes, and a byte `8F` in code opens a comment; the end of a line closes both.  Operands, and
the markers of lines, are no bytes of any region.

* `Code.find`: the first byte of a set that is in code.
* `Code.Moves`: how the search goes from one lexeme to the next.
* `Code.Misleads`: the places at which a scan for a byte of the set goes wrong.
* `Code.HidesRemark`: the literals at which a scan for any byte but a quote and `8F` can go wrong.
* `forwardTo_finds_iff`: the scan stops where the search does, unless it comes to such a place.
-/

namespace LineBasic

open Token

namespace Code

/-- The regions of code. -/
inductive Region where
  | code
  | literal
  | comment
  deriving DecidableEq, Repr

/-- The region of the byte after `c`, which is not the end of a line. -/
def Region.after (c : UInt8) : Region → Region
  | code => if c = quote then literal else if c = rem then comment else code
  | literal => if c = quote then code else literal
  | comment => comment

/-- The bytes from the first one on that is in code and in the set.  Without one, the search ends after
the end of the program, or with the last byte. -/
def find (set : List UInt8) (region : Region) : List UInt8 → List UInt8
  | [] => []
  | c :: rest =>
    if c = endLine then
      if c ∈ set then c :: rest
      else match rest with
        | a :: b :: after => if a = 0 ∧ b = 0 then after else find set .code (after.drop 2)
        | _ => []
    else match region with
      | .code =>
        if c ∈ set then c :: rest else find set (region.after c) (rest.drop (operandLength c))
      | .literal | .comment => find set (region.after c) rest
termination_by code => code.length
decreasing_by all_goals simp only [List.length_drop, List.length_cons]; omega

variable {set : List UInt8}

/-- A search ends somewhere in the code it started on. -/
theorem find_suffix (set : List UInt8) (region : Region) (code : List UInt8) :
    find set region code <:+ code := by
  fun_induction find set region code with
  | case1 => exact List.suffix_refl _
  | case2 => exact List.suffix_refl _
  | case3 => exact ⟨[_, _, _], rfl⟩
  | case4 _ a b after _ _ ih =>
    exact ih.trans ((List.drop_suffix 2 after).trans ⟨[_, a, b], rfl⟩)
  | case5 => exact List.nil_suffix
  | case6 => exact List.suffix_refl _
  | case7 c rest _ _ ih => exact ih.trans ((List.drop_suffix _ rest).trans (List.suffix_cons c rest))
  | case8 c rest _ ih => exact ih.trans (List.suffix_cons c rest)
  | case9 c rest _ ih => exact ih.trans (List.suffix_cons c rest)

/-! ## The search, lexeme by lexeme -/

/-- The search ends at a byte of the set in code. -/
theorem find_of_mem {c : UInt8} (rest : List UInt8) (hset : c ∈ set) :
    find set .code (c :: rest) = c :: rest := by
  rw [find.eq_def]
  simp [hset]

theorem find_token {lead : UInt8} (rest : List UInt8) (hlead : lead ∉ [endLine, quote, rem])
    (hset : lead ∉ set) :
    find set .code (lead :: rest) = find set .code (rest.drop (operandLength lead)) := by
  simp only [List.mem_cons, List.not_mem_nil, or_false, not_or] at hlead
  rw [find.eq_def]
  simp [hlead, hset, Region.after]

theorem find_quote (rest : List UInt8) (hset : quote ∉ set) :
    find set .code (quote :: rest) = find set .literal rest := by
  have hend : quote ≠ endLine := by decide
  have hoperand : operandLength quote = 0 := by decide
  rw [find.eq_def]
  simp [hend, hset, hoperand, Region.after]

theorem find_rem (rest : List UInt8) (hset : rem ∉ set) :
    find set .code (rem :: rest) = find set .comment rest := by
  have hend : rem ≠ endLine := by decide
  have hquote : rem ≠ quote := by decide
  have hoperand : operandLength rem = 0 := by decide
  rw [find.eq_def]
  simp [hend, hset, hquote, hoperand, Region.after]

/-- The end of a line is in code, whatever it closes. -/
theorem find_endLine (region : Region) (rest : List UInt8) :
    find set region (endLine :: rest) = find set .code (endLine :: rest) := by
  rw [find.eq_def, find.eq_def set .code]
  simp

theorem find_line {a b : UInt8} (after : List UInt8) (hset : endLine ∉ set) (hlink : ¬ (a = 0 ∧ b = 0)) :
    find set .code (endLine :: a :: b :: after) = find set .code (after.drop 2) := by
  rw [find.eq_def]
  simp [hset, hlink]

/-- The search passes what is inside a literal. -/
theorem find_inside {inside : List UInt8} (rest : List UInt8) (hquote : quote ∉ inside)
    (hend : endLine ∉ inside) :
    find set .literal (inside ++ rest) = find set .literal rest := by
  induction inside with
  | nil => rfl
  | cons b inside ih =>
    rw [List.mem_cons, not_or] at hquote hend
    rw [List.cons_append, find.eq_def]
    simp [Ne.symm hend.1, Ne.symm hquote.1, Region.after, ih hquote.2 hend.2]

theorem find_closing (rest : List UInt8) :
    find set .literal (quote :: rest) = find set .code rest := by
  have hend : quote ≠ endLine := by decide
  rw [find.eq_def]
  simp [hend, Region.after]

/-- The search passes the text of a comment. -/
theorem find_comment {text : List UInt8} (rest : List UInt8) (hend : endLine ∉ text) :
    find set .comment (text ++ rest) = find set .comment rest := by
  induction text with
  | nil => rfl
  | cons b text ih =>
    rw [List.mem_cons, not_or] at hend
    rw [List.cons_append, find.eq_def]
    simp [Ne.symm hend.1, Region.after, ih hend.2]

/-- The search passes one lexeme, or the marker of a line, in which no byte of the set is in code. -/
inductive Moves (set : List UInt8) : List UInt8 → List UInt8 → Prop where
  | token {lead : UInt8} {rest : List UInt8} (hlead : lead ∉ [endLine, quote, rem])
      (hset : lead ∉ set) : Moves set (lead :: rest) (rest.drop (operandLength lead))
  | literal {inside rest : List UInt8} (hset : quote ∉ set) (hquote : quote ∉ inside)
      (hend : endLine ∉ inside) (hrem : rem ∉ inside) :
      Moves set (quote :: (inside ++ quote :: rest)) rest
  /-- A literal that the end of the line closes may hold any other byte. -/
  | openLiteral {inside rest : List UInt8} (hset : quote ∉ set) (hquote : quote ∉ inside)
      (hend : endLine ∉ inside) : Moves set (quote :: (inside ++ endLine :: rest)) (endLine :: rest)
  | comment {text rest : List UInt8} (hset : rem ∉ set) (hend : endLine ∉ text) :
      Moves set (rem :: (text ++ endLine :: rest)) (endLine :: rest)
  | line {a b : UInt8} {after : List UInt8} (hset : endLine ∉ set) (hlink : ¬ (a = 0 ∧ b = 0)) :
      Moves set (endLine :: a :: b :: after) (after.drop 2)

namespace Moves

variable {code rest : List UInt8}

theorem length_lt (h : Moves set code rest) : rest.length < code.length := by
  cases h with
  | token => simp only [List.length_drop, List.length_cons]; omega
  | literal => simp only [List.length_append, List.length_cons]; omega
  | openLiteral => simp only [List.length_append, List.length_cons]; omega
  | comment => simp only [List.length_append, List.length_cons]; omega
  | line => simp only [List.length_drop, List.length_cons]; omega

theorem find_eq (h : Moves set code rest) : find set .code code = find set .code rest := by
  cases h with
  | token hlead hset => exact find_token _ hlead hset
  | literal hset hquote hend hrem => rw [find_quote _ hset, find_inside _ hquote hend, find_closing]
  | openLiteral hset hquote hend => rw [find_quote _ hset, find_inside _ hquote hend, find_endLine]
  | comment hset hend => rw [find_rem _ hset, find_comment _ hend, find_endLine]
  | line hset hlink => exact find_line _ hset hlink

end Moves

end Code

namespace Scan

open Code

variable {set : List UInt8} {stop : Bool}

/-! ## The scan, lexeme by lexeme -/

theorem dropWhile_ne_endLine {text : List UInt8} (rest : List UInt8) (h : endLine ∉ text) :
    (text ++ rest).dropWhile (· ≠ endLine) = rest.dropWhile (· ≠ endLine) :=
  List.dropWhile_append_of_pos fun _ hb => decide_eq_true (ne_of_mem_of_not_mem hb h)

/-- Once it is in a comment, the scan goes on at the end of the line. -/
theorem skipTo_in_comment (literal : Bool) (code : List UInt8) :
    skipTo set stop literal true code = skipTo set stop false false (code.dropWhile (· ≠ endLine)) := by
  by_cases h : endLine ∈ code
  · obtain ⟨text, rest, rfl, htext⟩ := List.eq_append_cons_of_mem h
    rw [skipTo_comment literal rest htext, dropWhile_ne_endLine _ htext]
    simp
  · induction code generalizing literal with
    | nil => simp [skipTo]
    | cons b code ih =>
      rw [List.mem_cons, not_or] at h
      rw [skipTo.eq_def]
      simp [Ne.symm h.1, ih _ h.2]

/-- A byte `8F` in a literal makes the scan go on at the end of the line. -/
theorem skipTo_inside_of_rem {inside : List UInt8} (rest : List UInt8) (hquote : quote ∉ inside)
    (hend : endLine ∉ inside) (hrem : rem ∈ inside) :
    skipTo set stop true false (inside ++ rest) =
      skipTo set stop false false (rest.dropWhile (· ≠ endLine)) := by
  obtain ⟨before, after, rfl, hbefore⟩ := List.eq_append_cons_of_mem hrem
  simp only [List.mem_append, List.mem_cons, not_or] at hquote hend
  rw [List.append_assoc, skipTo_inside _ hquote.1 hend.1 hbefore, List.cons_append, skipTo_rem,
    skipTo_in_comment, dropWhile_ne_endLine _ hend.2.2]

theorem skipTo_open {inside : List UInt8} (hquote : quote ∉ inside) (hend : endLine ∉ inside) :
    skipTo set stop true false inside = [] := by
  have hnil : skipTo set stop false false [] = [] := by rw [skipTo]
  rw [← List.append_nil inside]
  by_cases hrem : rem ∈ inside
  · rw [skipTo_inside_of_rem _ hquote hend hrem]
    exact hnil
  · rw [skipTo_inside _ hquote hend hrem, skipTo]

theorem skipTo_token_drop {lead : UInt8} (rest : List UInt8) (hlead : lead ∉ [endLine, quote, rem])
    (hset : set.contains lead = false) :
    skipTo set stop false false (lead :: rest) =
      skipTo set stop false false (rest.drop (operandLength lead)) := by
  simp only [List.mem_cons, List.not_mem_nil, or_false, not_or] at hlead
  rw [skipTo.eq_def]
  simp [hlead, hset, -List.contains_eq_mem]

theorem skipTo_line {a b : UInt8} (after : List UInt8) (hset : set.contains endLine = false)
    (hlink : ¬ (a = 0 ∧ b = 0)) :
    skipTo set stop false false (endLine :: a :: b :: after) =
      skipTo set stop false false (after.drop 2) := by
  have hquote : endLine ≠ quote := by decide
  have hrem : endLine ≠ rem := by decide
  rw [skipTo.eq_def]
  simp [hquote, hrem, hset, hlink, -List.contains_eq_mem]

end Scan

namespace Code

open Scan

variable {set code : List UInt8}

theorem contains_eq_false {b : UInt8} (h : b ∉ set) : set.contains b = false := by
  simpa using h

/-- The scan passes the same lexemes as the search. -/
theorem Moves.skipTo_eq {rest : List UInt8} (h : Moves set code rest) :
    skipTo set true false false code = skipTo set true false false rest := by
  cases h with
  | token hlead hset => exact skipTo_token_drop _ hlead (contains_eq_false hset)
  | literal hset hquote hend hrem => exact skipTo_literal _ hquote hend hrem (contains_eq_false hset)
  | @openLiteral inside rest hset hquote hend =>
    rw [skipTo_quote]
    by_cases hrem : rem ∈ inside
    · rw [skipTo_inside_of_rem _ hquote hend hrem]
      simp
    · rw [skipTo_inside _ hquote hend hrem, skipTo_endLine]
  | comment hset hend => rw [skipTo_rem, skipTo_comment _ _ hend]
  | line hset hlink => exact skipTo_line _ (contains_eq_false hset) hlink

/-- The places, in code, at which the scan goes wrong. -/
inductive Misleads (set : List UInt8) : List UInt8 → Prop where
  /-- A quote is passed over although it is in the set. -/
  | quote {rest : List UInt8} (hset : quote ∈ set) : Misleads set (quote :: rest)
  /-- So is the byte that opens a comment. -/
  | remark {rest : List UInt8} (hset : rem ∈ set) : Misleads set (rem :: rest)
  /-- A byte `8F` in a literal is taken for a comment, which hides the rest of the line.  The scan goes
  on at the first zero byte after it, and that leads elsewhere. -/
  | literal {inside rest : List UInt8} (hquote : Token.quote ∉ inside) (hend : endLine ∉ inside)
      (hrem : rem ∈ inside)
      (hlost : skipTo set true false false (rest.dropWhile (· ≠ endLine)) ≠ find set .code rest) :
      Misleads set (Token.quote :: (inside ++ Token.quote :: rest))

/-- The scan comes to a place at which it goes wrong. -/
def Misled (set code : List UInt8) : Prop :=
  ∃ place, Relation.ReflTransGen (Moves set) code place ∧ Misleads set place

theorem skipTo_ne_of_mem {c : UInt8} {rest : List UInt8} {literal comment : Bool} (hset : c ∈ set)
    (h : skipTo set true false false (c :: rest) = skipTo set true literal comment rest) :
    skipTo set true false false (c :: rest) ≠ find set .code (c :: rest) := by
  rw [h, find_of_mem rest hset]
  intro heq
  have hle := length_skipTo_le set true literal comment rest
  rw [heq, List.length_cons] at hle
  omega

theorem Misleads.skipTo_ne (h : Misleads set code) :
    skipTo set true false false code ≠ find set .code code := by
  cases h with
  | quote hset => exact skipTo_ne_of_mem hset (skipTo_quote _)
  | remark hset => exact skipTo_ne_of_mem hset (skipTo_rem false _)
  | @literal inside rest hquote hend hrem hlost =>
    by_cases hset : Token.quote ∈ set
    · exact skipTo_ne_of_mem hset (skipTo_quote _)
    · have hskip : (Token.quote :: rest).dropWhile (· ≠ endLine) = rest.dropWhile (· ≠ endLine) :=
        List.dropWhile_cons_of_pos (by decide)
      rwa [skipTo_quote, skipTo_inside_of_rem _ hquote hend hrem, hskip, find_quote _ hset,
        find_inside _ hquote hend, find_closing]

/-- A literal ends with a quote, with the line, or with the code. -/
theorem literal_cases (code : List UInt8) :
    ∃ inside, quote ∉ inside ∧ endLine ∉ inside ∧
      (code = inside ∨ (∃ rest, code = inside ++ quote :: rest) ∨
        ∃ rest, code = inside ++ endLine :: rest) := by
  induction code with
  | nil => exact ⟨[], List.not_mem_nil, List.not_mem_nil, .inl rfl⟩
  | cons b code ih =>
    by_cases hquote : b = quote
    · exact ⟨[], List.not_mem_nil, List.not_mem_nil, .inr (.inl ⟨code, by rw [hquote]; rfl⟩)⟩
    · by_cases hend : b = endLine
      · exact ⟨[], List.not_mem_nil, List.not_mem_nil, .inr (.inr ⟨code, by rw [hend]; rfl⟩)⟩
      · obtain ⟨inside, hi, he, hcode⟩ := ih
        refine ⟨b :: inside, by simp [hi, Ne.symm hquote], by simp [he, Ne.symm hend], ?_⟩
        rcases hcode with rfl | ⟨rest, rfl⟩ | ⟨rest, rfl⟩
        · exact .inl rfl
        · exact .inr (.inl ⟨rest, rfl⟩)
        · exact .inr (.inr ⟨rest, rfl⟩)

theorem agrees_or_of_quote (rest : List UInt8) (hset : quote ∉ set) :
    skipTo set true false false (quote :: rest) = find set .code (quote :: rest) ∨
      Misleads set (quote :: rest) ∨ ∃ place, Moves set (quote :: rest) place := by
  obtain ⟨inside, hquote, hend, rfl | ⟨after, rfl⟩ | ⟨after, rfl⟩⟩ := literal_cases rest
  · refine .inl ?_
    have hfind := @find_inside set rest [] hquote hend
    rw [List.append_nil] at hfind
    rw [skipTo_quote, skipTo_open hquote hend, find_quote _ hset, hfind, find]
  · by_cases hrem : rem ∈ inside
    · by_cases hlost : skipTo set true false false (after.dropWhile (· ≠ endLine)) = find set .code after
      · refine .inl ?_
        have hskip : (quote :: after).dropWhile (· ≠ endLine) = after.dropWhile (· ≠ endLine) :=
          List.dropWhile_cons_of_pos (by decide)
        rw [skipTo_quote, skipTo_inside_of_rem _ hquote hend hrem, hskip, hlost, find_quote _ hset,
          find_inside _ hquote hend, find_closing]
      · exact .inr (.inl (.literal hquote hend hrem hlost))
    · exact .inr (.inr ⟨after, .literal hset hquote hend hrem⟩)
  · exact .inr (.inr ⟨_, .openLiteral hset hquote hend⟩)

theorem agrees_or_of_rem (rest : List UInt8) (hset : rem ∉ set) :
    skipTo set true false false (rem :: rest) = find set .code (rem :: rest) ∨
      ∃ place, Moves set (rem :: rest) place := by
  by_cases hend : endLine ∈ rest
  · obtain ⟨text, after, rfl, htext⟩ := List.eq_append_cons_of_mem hend
    exact .inr ⟨_, .comment hset htext⟩
  · have hfind := @find_comment set rest [] hend
    have hdrop := dropWhile_ne_endLine [] hend
    rw [List.append_nil] at hfind hdrop
    refine .inl ?_
    rw [skipTo_rem, skipTo_in_comment, hdrop, List.dropWhile_nil, skipTo, find_rem _ hset, hfind, find]

theorem agrees_or_of_endLine (rest : List UInt8) (hset : endLine ∉ set) :
    skipTo set true false false (endLine :: rest) = find set .code (endLine :: rest) ∨
      ∃ place, Moves set (endLine :: rest) place := by
  have hquote : endLine ≠ quote := by decide
  have hrem : endLine ≠ rem := by decide
  cases rest with
  | nil =>
    refine .inl ?_
    rw [skipTo.eq_def, find.eq_def]
    simp [hquote, hrem, hset]
  | cons a rest =>
    cases rest with
    | nil =>
      refine .inl ?_
      rw [skipTo.eq_def, find.eq_def]
      simp [hquote, hrem, hset]
    | cons b after =>
      by_cases hlink : a = 0 ∧ b = 0
      · refine .inl ?_
        rw [skipTo.eq_def, find.eq_def]
        simp [hquote, hrem, hset, hlink]
      · exact .inr ⟨_, .line hset hlink⟩

/-- At every place scan and search agree, or the scan goes wrong, or both pass a lexeme. -/
theorem agrees_or (set code : List UInt8) :
    skipTo set true false false code = find set .code code ∨ Misleads set code ∨
      ∃ place, Moves set code place := by
  cases code with
  | nil => exact .inl (by rw [skipTo, find])
  | cons c rest =>
    by_cases hset : c ∈ set
    · by_cases hquote : c = quote
      · exact .inr (.inl (hquote ▸ .quote (hquote ▸ hset)))
      · by_cases hrem : c = rem
        · exact .inr (.inl (hrem ▸ .remark (hrem ▸ hset)))
        · refine .inl ?_
          rw [skipTo_found rest (by simp [hquote, hrem]) (by simpa using hset), find_of_mem rest hset]
    · by_cases hquote : c = quote
      · subst hquote
        exact agrees_or_of_quote rest hset
      · by_cases hrem : c = rem
        · subst hrem
          exact (agrees_or_of_rem rest hset).imp_right .inr
        · by_cases hend : c = endLine
          · subst hend
            exact (agrees_or_of_endLine rest hset).imp_right .inr
          · exact .inr (.inr ⟨_, .token (by simp [hquote, hrem, hend]) hset⟩)

/-- The scan stops where the search does, unless it is misled. -/
theorem skipTo_eq_find_iff (set code : List UInt8) :
    skipTo set true false false code = find set .code code ↔ ¬ Misled set code := by
  constructor
  · rintro heq ⟨place, hmoves, hplace⟩
    induction hmoves using Relation.ReflTransGen.head_induction_on with
    | refl => exact hplace.skipTo_ne heq
    | head hmove _ ih => exact ih (hmove.skipTo_eq.symm.trans (heq.trans hmove.find_eq))
  · intro hsound
    induction hlength : code.length using Nat.strong_induction_on generalizing code with
    | _ n ih =>
      obtain hagrees | hmisleads | ⟨place, hmove⟩ := agrees_or set code
      · exact hagrees
      · exact absurd ⟨code, .refl, hmisleads⟩ hsound
      · rw [hmove.skipTo_eq, hmove.find_eq]
        refine ih place.length (hlength ▸ hmove.length_lt) place ?_ rfl
        rintro ⟨last, hmoves, hlast⟩
        exact hsound ⟨last, .head hmove hmoves, hlast⟩

/-- Code that begins with a literal which a quote closes and in which there is a byte `8F`. -/
def HidesRemark (code : List UInt8) : Prop :=
  ∃ inside rest, quote ∉ inside ∧ endLine ∉ inside ∧ rem ∈ inside ∧
    code = quote :: (inside ++ quote :: rest)

/-- For other bytes than a quote and `8F`, only such a literal can mislead the scan. -/
theorem not_misled_of_literals (hquote : quote ∉ set) (hrem : rem ∉ set)
    (h : ∀ place, Relation.ReflTransGen (Moves set) code place → ¬ HidesRemark place) :
    ¬ Misled set code := by
  rintro ⟨place, hmoves, hmisleads⟩
  cases hmisleads with
  | quote hset => exact hquote hset
  | remark hset => exact hrem hset
  | literal hinside hend hhidden hlost => exact h _ hmoves ⟨_, _, hinside, hend, hhidden, rfl⟩

end Code

namespace CodeStream

open Code

/-- Places that are told by the bytes to come. -/
theorem advance_inj {s : CodeStream} {code code' : List UInt8} (h : code <:+ s.rest)
    (h' : code' <:+ s.rest) : s.advance code = s.advance code' ↔ code = code' := by
  constructor
  · intro heq
    have hpos : s.pos + (s.rest.length - code.length) = s.pos + (s.rest.length - code'.length) :=
      congrArg CodeStream.pos heq
    have hle := h.length_le
    have hle' := h'.length_le
    exact (List.suffix_of_suffix_length_le h h' (by omega)).eq_of_length (by omega)
  · rintro rfl
    rfl

theorem forwardTo_eq_iff (set : List UInt8) (s : CodeStream) :
    CodeStream.scan (Scan.forwardTo set true) s = .ok () (s.advance (find set .code s.rest)) ↔
      ¬ Misled set s.rest := by
  have hscan : CodeStream.scan (Scan.forwardTo set true) s =
      .ok () (s.advance (Scan.skipTo set true false false s.rest)) := rfl
  rw [hscan, ← skipTo_eq_find_iff, ← advance_inj (Scan.skipTo_suffix _ _ _ _ _) (find_suffix _ _ _)]
  simp

/-- From any place in any bytes: the scan for a byte of a set stops at the first one that is in code, or
where the code ends, exactly if it is not misled on its way.  So it does if neither a quote nor a byte `8F`
is looked for and no literal that is passed, and that a quote closes, holds a byte `8F`. -/
theorem forwardTo_finds_iff (set : List UInt8) (s : CodeStream) :
    (CodeStream.scan (Scan.forwardTo set true) s = .ok () (s.advance (find set .code s.rest)) ↔
      ¬ Misled set s.rest) ∧
    (quote ∉ set → rem ∉ set →
      (∀ place, Relation.ReflTransGen (Code.Moves set) s.rest place → ¬ HidesRemark place) →
      CodeStream.scan (Scan.forwardTo set true) s = .ok () (s.advance (find set .code s.rest))) := by
  refine ⟨forwardTo_eq_iff set s, ?_⟩
  intro hquote hrem hliterals
  exact (forwardTo_eq_iff set s).2 (not_misled_of_literals hquote hrem hliterals)

/-- A string literal that holds a byte `8F`, and a colon after it. -/
def remarkInLiteral : CodeStream where
  bytes := [quote, rem, quote, colon]

/-- The scan for a colon goes to the end of the code, although the colon is in code. -/
theorem forwardTo_misses_colon :
    CodeStream.scan (Scan.forwardTo [colon] true) remarkInLiteral =
        .ok () { remarkInLiteral with pos := 4 } ∧
      remarkInLiteral.advance (find [colon] .code remarkInLiteral.rest) =
        { remarkInLiteral with pos := 3 } := by
  have hdrop : (quote :: [colon]).dropWhile (· ≠ endLine) = [] := by decide
  have hskip : Scan.skipTo [colon] true false false (quote :: ([rem] ++ quote :: [colon])) = [] := by
    rw [Scan.skipTo_quote, Scan.skipTo_inside_of_rem _ (by decide) (by decide) (by decide), hdrop,
      Scan.skipTo]
  have hfind : find [colon] .code (quote :: ([rem] ++ quote :: [colon])) = [colon] := by
    rw [find_quote _ (by decide), find_inside _ (by decide) (by decide), find_closing,
      find_of_mem _ (by decide)]
  exact ⟨congrArg (fun code => EStateM.Result.ok () (remarkInLiteral.advance code)) hskip,
    congrArg remarkInLiteral.advance hfind⟩

end CodeStream

end LineBasic

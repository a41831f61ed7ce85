import LineBasic.Proofs.Code.Skip

/-!
# Places between lexemes

Where a statement may begin or end in the code of a line: at a colon that is a lexeme of its own, or at the
end of the line.

* `Code.Typed`: the code of a text of printable characters and tabs.
* `Code.Closed`: code that ends between two lexemes, outside literals and comments.
* `Code.StopsAt`: a line is cut at a colon between lexemes, or at its end.
* `Scan.skipTo_statementEnds`: the scan for the end of a statement finds such a place.
-/

namespace LineBasic

open Token

namespace Code

/-- Printable characters and tabs. -/
def isTyped (b : UInt8) : Bool :=
  (0x20 ≤ b && b ≤ 0x7E) || b = tab

/-- The code of a text of printable characters and tabs. -/
abbrev Typed : List UInt8 → Prop :=
  LexicalIn fun b => isTyped b = true

theorem isTyped_spec {b : UInt8} : isTyped b = true → b ∉ [endLine, rem] ∧ operandLength b = 0 :=
  forall_byte (P := fun b => isTyped b = true → b ∉ [endLine, rem] ∧ operandLength b = 0)
    (by decide +kernel) b

theorem not_mem_of_typed {b : UInt8} {text : List UInt8} (hb : b ∈ [endLine, rem])
    (htext : ∀ c ∈ text, isTyped c = true) : b ∉ text :=
  fun h => (isTyped_spec (htext b h)).1 hb

/-! ## Code that ends between lexemes -/

/-- Code that is made of whole tokens and of string literals with both their quotes. -/
inductive Closed : List UInt8 → Prop where
  | nil : Closed []
  | token {lead : UInt8} {operand rest : List UInt8} (hlead : lead ∉ [endLine, quote, rem])
      (hoperand : operand.length = operandLength lead) (hrest : Closed rest) :
      Closed (lead :: (operand ++ rest))
  | literal {inside rest : List UInt8} (hquote : quote ∉ inside) (hrest : Closed rest) :
      Closed (quote :: (inside ++ quote :: rest))

namespace Closed

theorem append {code more : List UInt8} (hcode : Closed code) (hmore : Closed more) :
    Closed (code ++ more) := by
  induction hcode with
  | nil => exact hmore
  | token hlead hoperand _ ih =>
    rw [List.cons_append, List.append_assoc]
    exact .token hlead hoperand ih
  | literal hquote _ ih =>
    rw [List.cons_append, List.append_assoc]
    exact .literal hquote ih

theorem single {lead : UInt8} {operand : List UInt8} (hlead : lead ∉ [endLine, quote, rem])
    (hoperand : operand.length = operandLength lead) : Closed (lead :: operand) := by
  have h := Closed.token hlead hoperand .nil
  rwa [List.append_nil] at h

theorem plain {b : UInt8} (hb : isPlain b = true) : Closed [b] := by
  simp only [isPlain, Bool.and_eq_true, decide_eq_true_eq] at hb
  exact .single hb.1 hb.2.symm

theorem plains {code : List UInt8} (hcode : ∀ b ∈ code, isPlain b = true) : Closed code := by
  induction code with
  | nil => exact .nil
  | cons b rest ih =>
    exact (plain (hcode b List.mem_cons_self)).append
      (ih fun c hc => hcode c (List.mem_cons_of_mem _ hc))

end Closed

/-- What the first byte says of the lexeme that it leads. -/
theorem LexicalIn.cons_cases {P : UInt8 → Prop} {b : UInt8} {rest : List UInt8}
    (h : LexicalIn P (b :: rest)) :
    (b ∉ [endLine, quote, rem] ∧ ∃ operand after, rest = operand ++ after ∧
      operand.length = operandLength b ∧ LexicalIn P after) ∨
    (b = quote ∧ ∃ inside after, rest = inside ++ quote :: after ∧ quote ∉ inside ∧
      (∀ c ∈ inside, P c) ∧ LexicalIn P after) ∨
    (b = quote ∧ quote ∉ rest ∧ ∀ c ∈ rest, P c) ∨ (b = rem ∧ ∀ c ∈ rest, P c) := by
  cases h with
  | token hlead hoperand hrest => exact .inl ⟨hlead, _, _, rfl, hoperand, hrest⟩
  | literal hquote hinside hrest => exact .inr (.inl ⟨rfl, _, _, rfl, hquote, hinside, hrest⟩)
  | openLiteral hquote hinside => exact .inr (.inr (.inl ⟨rfl, hquote, hinside⟩))
  | comment htext => exact .inr (.inr (.inr ⟨rfl, htext⟩))

/-- A literal ends at its first quote. -/
theorem inside_unique {inside inside' rest rest' : List UInt8} (hquote : quote ∉ inside)
    (hquote' : quote ∉ inside') (h : inside ++ quote :: rest = inside' ++ quote :: rest') :
    rest = rest' := by
  rcases List.append_eq_append_iff.1 h with ⟨more, rfl, hmore⟩ | ⟨more, rfl, hmore⟩
  · cases more with
    | nil => simpa using hmore
    | cons b more =>
      obtain ⟨rfl, -⟩ := List.cons.inj hmore
      simp at hquote'
  · cases more with
    | nil => simpa using hmore.symm
    | cons b more =>
      obtain ⟨rfl, -⟩ := List.cons.inj hmore
      simp at hquote

/-- What follows code that ends between lexemes is made of whole lexemes again. -/
theorem LexicalIn.of_closed_append {P : UInt8 → Prop} {code rest : List UInt8} (hcode : Closed code)
    (h : LexicalIn P (code ++ rest)) : LexicalIn P rest := by
  induction hcode with
  | nil => exact h
  | @token lead operand more hlead hoperand _ ih =>
    rw [List.cons_append, List.append_assoc] at h
    obtain ⟨-, operand', after, hrest, hlength, hafter⟩ | ⟨rfl, -⟩ | ⟨rfl, -⟩ | ⟨rfl, -⟩ := h.cons_cases
    · obtain ⟨-, rfl⟩ := List.append_inj hrest (hoperand.trans hlength.symm)
      exact ih hafter
    · simp at hlead
    · simp at hlead
    · simp at hlead
  | @literal inside more hquote _ ih =>
    rw [List.cons_append, List.append_assoc, List.cons_append] at h
    obtain ⟨hlead, -⟩ | ⟨-, inside', after, hrest, hquote', -, hafter⟩ | ⟨-, hnone, -⟩ | ⟨hrem, -⟩ :=
      h.cons_cases
    · simp at hlead
    · obtain rfl := inside_unique hquote hquote' hrest
      exact ih hafter
    · simp at hnone
    · exact absurd hrem (by decide)

/-! ## Ends of statements -/

/-- A line is cut at a colon between lexemes, or at its end. -/
def StopsAt (code rest : List UInt8) : Prop :=
  rest = [] ∨ rest.head? = some colon ∧ Closed code

end Code

namespace Scan

open Code

/-- A comment is passed even if the scan starts inside it: its bytes lead no operands. -/
theorem skipTo_typed (literal : Bool) {text : List UInt8} (t : List UInt8)
    (htext : ∀ b ∈ text, isTyped b = true) :
    skipTo [endLine] true literal false (text ++ endLine :: t) = endLine :: t := by
  induction text generalizing literal with
  | nil =>
    rw [List.nil_append, skipTo_endLine, skipTo_endLine_self]
  | cons b text ih =>
    obtain ⟨hb, hoperand⟩ := isTyped_spec (htext b List.mem_cons_self)
    have hrest := fun literal => ih literal fun c hc => htext c (List.mem_cons_of_mem _ hc)
    simp only [List.mem_cons, List.not_mem_nil, or_false, not_or] at hb
    rw [List.cons_append, skipTo.eq_def]
    simp [hb.1, hb.2, hoperand, hrest]

/-- A scan passes lexemes up to the first that it looks for, or to the end of the line. -/
theorem skipTo_forward {set : List UInt8} (stop : Bool) {left : List UInt8}
    (hset : set.contains quote = false) (hleft : Typed left) (t : List UInt8) :
    ∃ code rest, left = code ++ rest ∧
      (rest = [] ∨ (∃ b after, rest = b :: after ∧ set.contains b = true) ∧ Closed code) ∧
      skipTo set stop false false (left ++ endLine :: t) =
        skipTo set stop false false (rest ++ endLine :: t) := by
  induction hleft with
  | nil => exact ⟨[], [], rfl, .inl rfl, rfl⟩
  | @token lead operand after hlead hoperand _ ih =>
    by_cases hfound : set.contains lead = true
    · exact ⟨[], _, rfl, .inr ⟨⟨lead, _, rfl, hfound⟩, .nil⟩, rfl⟩
    · obtain ⟨code, rest, rfl, hrest, hskip⟩ := ih
      refine ⟨lead :: (operand ++ code), rest, by simp, hrest.imp id ?_, ?_⟩
      · exact fun ⟨hhead, hcode⟩ => ⟨hhead, .token hlead hoperand hcode⟩
      · rw [List.cons_append, List.append_assoc,
          skipTo_token _ hlead hoperand (Bool.eq_false_iff.2 hfound), hskip]
  | @literal inside after hquote hinside _ ih =>
    obtain ⟨code, rest, rfl, hrest, hskip⟩ := ih
    refine ⟨quote :: (inside ++ quote :: code), rest, by simp, hrest.imp id ?_, ?_⟩
    · exact fun ⟨hhead, hcode⟩ => ⟨hhead, .literal hquote hcode⟩
    · rw [List.cons_append, List.append_assoc, List.cons_append,
        skipTo_literal _ hquote (not_mem_of_typed (by simp) hinside)
          (not_mem_of_typed (by simp) hinside) hset, hskip]
  | @openLiteral inside hquote hinside =>
    refine ⟨quote :: inside, [], by simp, .inl rfl, ?_⟩
    rw [List.cons_append, skipTo_quote, skipTo_inside _ hquote
      (not_mem_of_typed (by simp) hinside) (not_mem_of_typed (by simp) hinside), skipTo_endLine]
    rfl
  | @comment text htext =>
    refine ⟨rem :: text, [], by simp, .inl rfl, ?_⟩
    rw [List.cons_append, skipTo_rem, skipTo_comment _ _ (not_mem_of_typed (by simp) htext)]
    rfl

theorem skipTo_endLine_of_typed {left : List UInt8} (hleft : Typed left) (t : List UInt8) :
    skipTo [endLine] true false false (left ++ endLine :: t) = endLine :: t := by
  obtain ⟨code, rest, rfl, hrest, hskip⟩ :=
    @skipTo_forward [endLine] true left (by decide) hleft t
  obtain rfl | ⟨⟨b, after, rfl, hb⟩, hcode⟩ := hrest
  · rw [hskip]
    exact skipTo_endLine_self t
  · have hne := (hleft.of_closed_append hcode).head_ne_endLine
    simp [hne] at hb

/-- The scan for the end of a statement reaches the next colon between lexemes, or the end of the line. -/
theorem skipTo_statementEnds (stop : Bool) {left : List UInt8} (hleft : Typed left)
    (t : List UInt8) :
    ∃ code rest, left = code ++ rest ∧ StopsAt code rest ∧
      skipTo statementEnds stop false false (left ++ endLine :: t) =
        skipTo statementEnds stop false false (rest ++ endLine :: t) := by
  obtain ⟨code, rest, rfl, hrest, hskip⟩ :=
    @skipTo_forward statementEnds stop left (by decide) hleft t
  refine ⟨code, rest, rfl, hrest.imp id ?_, hskip⟩
  rintro ⟨⟨b, after, rfl, hb⟩, hcode⟩
  have hne := (hleft.of_closed_append hcode).head_ne_endLine
  simp only [statementEnds, List.contains_eq_mem, List.mem_cons, hne, false_or, List.not_mem_nil,
    or_false, decide_eq_true_eq] at hb
  exact ⟨congrArg some hb, hcode⟩

/-- With `stop` set the scan stays there. -/
theorem skipTo_stops {code rest : List UInt8} (hstops : StopsAt code rest) (t : List UInt8) :
    skipTo statementEnds true false false (rest ++ endLine :: t) = rest ++ endLine :: t := by
  obtain rfl | ⟨hhead, -⟩ := hstops
  · exact skipTo_found t (by decide) (by decide)
  · obtain ⟨after, rfl⟩ := List.head?_eq_some_iff.1 hhead
    exact skipTo_found _ (by decide) (by decide)

/-- Without it the colon is passed, and the scan goes on to the end after it. -/
theorem skipTo_passes_colon (after : List UInt8) :
    skipTo statementEnds false false false (colon :: after) =
      skipTo statementEnds true false false after := by
  rw [skipTo.eq_def]
  rfl

/-- So is the marker of a line. -/
theorem skipTo_passes_marker {a b : UInt8} (hlink : ¬ (a = 0 ∧ b = 0)) (lo hi : UInt8)
    (after : List UInt8) :
    skipTo statementEnds false false false (endLine :: a :: b :: lo :: hi :: after) =
      skipTo statementEnds true false false after := by
  rw [skipTo.eq_def]
  exact if_neg hlink

/-- So is the end of the last line. -/
theorem skipTo_passes_last {t : List UInt8} (ht : t = [] ∨ t = [0, 0]) :
    skipTo statementEnds false false false (endLine :: t) = [] := by
  obtain rfl | rfl := ht
  · rw [skipTo.eq_def]
    rfl
  · rw [skipTo.eq_def]
    rfl

end Scan

end LineBasic

import LineBasic.Proofs.Statement.Boundary

/-!
# Where a statement ends

A statement ends at the first colon that is a lexeme of its own, or at the end of its line.

* `Code.EndsAt`: the statement that some code begins with ends where its separator stands.
* `EndsAt.unique`: there is one such place.
* `Code.exists_endsAt`: the code of a line has one, and every scan for ends of statements goes there
  first.
* `Code.Skips`, `Bounded.skips`: from a boundary, the search for the next statement finds the end of the
  first if there is a separator to pass before that; otherwise it goes one too far.
-/

namespace LineBasic

open Token

namespace Code

/-- The statement that some code begins with ends where `separator` stands: at the first colon that is
not in a literal, a comment or an operand, or at the end of the line. -/
inductive EndsAt : List UInt8 → List UInt8 → Prop where
  | here {b : UInt8} {after : List UInt8} (hb : b ∈ statementEnds) : EndsAt (b :: after) (b :: after)
  | token {lead : UInt8} {operand rest separator : List UInt8} (hend : lead ∉ statementEnds)
      (hlead : lead ∉ [endLine, quote, rem]) (hoperand : operand.length = operandLength lead)
      (hrest : EndsAt rest separator) : EndsAt (lead :: (operand ++ rest)) separator
  | literal {inside rest separator : List UInt8} (hinside : ∀ b ∈ inside, b ∉ [quote, endLine])
      (hrest : EndsAt rest separator) : EndsAt (quote :: (inside ++ quote :: rest)) separator
  | openLiteral {inside after : List UInt8} (hinside : ∀ b ∈ inside, b ∉ [quote, endLine]) :
      EndsAt (quote :: (inside ++ endLine :: after)) (endLine :: after)
  | comment {text after : List UInt8} (htext : ∀ b ∈ text, b ∉ [endLine]) :
      EndsAt (rem :: (text ++ endLine :: after)) (endLine :: after)

/-- Text is cut at the first byte of some kind. -/
theorem cut_unique {set text text' rest rest' : List UInt8} {b b' : UInt8}
    (htext : ∀ c ∈ text, c ∉ set) (htext' : ∀ c ∈ text', c ∉ set) (hb : b ∈ set) (hb' : b' ∈ set)
    (h : text ++ b :: rest = text' ++ b' :: rest') : b = b' ∧ rest = rest' := by
  induction text generalizing text' with
  | nil =>
    cases text' with
    | nil => exact List.cons.inj h
    | cons c text' =>
      obtain ⟨rfl, -⟩ := List.cons.inj h
      exact absurd hb (htext' b List.mem_cons_self)
  | cons c text ih =>
    cases text' with
    | nil =>
      obtain ⟨rfl, -⟩ := List.cons.inj h
      exact absurd hb' (htext c List.mem_cons_self)
    | cons c' text' =>
      obtain ⟨-, htail⟩ := List.cons.inj h
      exact ih (fun d hd => htext d (List.mem_cons_of_mem _ hd))
        (fun d hd => htext' d (List.mem_cons_of_mem _ hd)) htail

namespace EndsAt

theorem suffix {code separator : List UInt8} (h : EndsAt code separator) : separator <:+ code := by
  induction h with
  | here => exact List.suffix_refl _
  | @token lead operand rest _ _ _ _ _ ih =>
    exact ih.trans ((List.suffix_append operand rest).trans (List.suffix_cons lead _))
  | @literal inside rest _ _ _ ih =>
    refine ih.trans ((List.suffix_cons quote rest).trans ?_)
    exact (List.suffix_append inside _).trans (List.suffix_cons quote _)
  | @openLiteral inside after =>
    exact (List.suffix_append inside _).trans (List.suffix_cons quote _)
  | @comment text after => exact (List.suffix_append text _).trans (List.suffix_cons rem _)

/-- What the first byte says of the end. -/
theorem cons_cases {b : UInt8} {rest separator : List UInt8} (h : EndsAt (b :: rest) separator) :
    (b ∈ statementEnds ∧ separator = b :: rest) ∨
    (b ∉ statementEnds ∧ b ∉ [endLine, quote, rem] ∧ ∃ operand after, rest = operand ++ after ∧
      operand.length = operandLength b ∧ EndsAt after separator) ∨
    (b = quote ∧ ∃ inside c after, rest = inside ++ c :: after ∧
      (∀ d ∈ inside, d ∉ [quote, endLine]) ∧
      (c = quote ∧ EndsAt after separator ∨ c = endLine ∧ separator = endLine :: after)) ∨
    (b = rem ∧ ∃ text after, rest = text ++ endLine :: after ∧ (∀ d ∈ text, d ∉ [endLine]) ∧
      separator = endLine :: after) := by
  cases h with
  | here hb => exact .inl ⟨hb, rfl⟩
  | token hend hlead hoperand hrest => exact .inr (.inl ⟨hend, hlead, _, _, rfl, hoperand, hrest⟩)
  | literal hinside hrest =>
    exact .inr (.inr (.inl ⟨rfl, _, quote, _, rfl, hinside, .inl ⟨rfl, hrest⟩⟩))
  | openLiteral hinside =>
    exact .inr (.inr (.inl ⟨rfl, _, endLine, _, rfl, hinside, .inr ⟨rfl, rfl⟩⟩))
  | comment htext => exact .inr (.inr (.inr ⟨rfl, _, _, rfl, htext, rfl⟩))

/-- A statement has one end. -/
theorem unique {code separator separator' : List UInt8} (h : EndsAt code separator)
    (h' : EndsAt code separator') : separator = separator' := by
  induction h with
  | @here b after hb =>
    obtain ⟨-, rfl⟩ | ⟨hend, -⟩ | ⟨rfl, -⟩ | ⟨rfl, -⟩ := h'.cons_cases
    · rfl
    · exact absurd hb hend
    · exact absurd hb (by decide)
    · exact absurd hb (by decide)
  | @token lead operand rest separator hend hlead hoperand _ ih =>
    obtain ⟨hb, -⟩ | ⟨-, -, operand', after, hsplit, hoperand', hafter⟩ | ⟨rfl, -⟩ | ⟨rfl, -⟩ :=
      h'.cons_cases
    · exact absurd hb hend
    · obtain ⟨-, rfl⟩ := List.append_inj hsplit (hoperand.trans hoperand'.symm)
      exact ih hafter
    · simp at hlead
    · simp at hlead
  | @literal inside rest separator hinside _ ih =>
    obtain ⟨hb, -⟩ | ⟨-, hlead, -⟩ | ⟨-, inside', c, after, hsplit, hinside', hc⟩ | ⟨hrem, -⟩ :=
      h'.cons_cases
    · exact absurd hb (by decide)
    · simp at hlead
    · have hc' : c ∈ [quote, endLine] := by
        obtain ⟨rfl, -⟩ | ⟨rfl, -⟩ := hc <;> simp
      obtain ⟨rfl, rfl⟩ := cut_unique hinside hinside' (by simp) hc' hsplit
      obtain ⟨-, hafter⟩ | ⟨hquote, -⟩ := hc
      · exact ih hafter
      · exact absurd hquote (by decide)
    · exact absurd hrem (by decide)
  | @openLiteral inside rest hinside =>
    obtain ⟨hb, -⟩ | ⟨-, hlead, -⟩ | ⟨-, inside', c, after, hsplit, hinside', hc⟩ | ⟨hrem, -⟩ :=
      h'.cons_cases
    · exact absurd hb (by decide)
    · simp at hlead
    · have hc' : c ∈ [quote, endLine] := by
        obtain ⟨rfl, -⟩ | ⟨rfl, -⟩ := hc <;> simp
      obtain ⟨rfl, rfl⟩ := cut_unique hinside hinside' (by simp) hc' hsplit
      obtain ⟨hquote, -⟩ | ⟨-, rfl⟩ := hc
      · exact absurd hquote (by decide)
      · rfl
    · exact absurd hrem (by decide)
  | @comment text rest htext =>
    obtain ⟨hb, -⟩ | ⟨-, hlead, -⟩ | ⟨hquote, -⟩ | ⟨-, text', after, hsplit, htext', rfl⟩ :=
      h'.cons_cases
    · exact absurd hb (by decide)
    · simp at hlead
    · exact absurd hquote (by decide)
    · obtain ⟨-, rfl⟩ := cut_unique htext htext' (by simp) (by simp) hsplit
      rfl

end EndsAt

open Scan

/-- The first statement of a line has an end, and scans for ends of statements go there first. -/
theorem exists_endsAt {left : List UInt8} (hleft : Typed left) (t : List UInt8) :
    ∃ rest, (rest = [] ∨ ∃ after, rest = colon :: after ∧ Typed after) ∧
      EndsAt (left ++ endLine :: t) (rest ++ endLine :: t) ∧
      ∀ stop, skipTo statementEnds stop false false (left ++ endLine :: t) =
        skipTo statementEnds stop false false (rest ++ endLine :: t) := by
  induction hleft with
  | nil => exact ⟨[], .inl rfl, .here (by decide), fun _ => rfl⟩
  | @token lead operand after hlead hoperand hafter ih =>
    by_cases hcolon : lead = colon
    · subst hcolon
      obtain rfl : operand = [] := List.eq_nil_of_length_eq_zero hoperand
      exact ⟨_, .inr ⟨after, rfl, hafter⟩, .here (by decide), fun _ => rfl⟩
    · have hend : lead ∉ statementEnds := by
        simp only [List.mem_cons, not_or] at hlead
        simp [statementEnds, hlead.1, hcolon]
      obtain ⟨rest, hrest, hends, hskip⟩ := ih
      refine ⟨rest, hrest, ?_, fun stop => ?_⟩
      · rw [List.cons_append, List.append_assoc]
        exact .token hend hlead hoperand hends
      · rw [List.cons_append, List.append_assoc,
          skipTo_token _ hlead hoperand (by simpa using hend), hskip]
  | @literal inside after hquote hinside _ ih =>
    have hend : endLine ∉ inside := not_mem_of_typed (by simp) hinside
    obtain ⟨rest, hrest, hends, hskip⟩ := ih
    refine ⟨rest, hrest, ?_, fun stop => ?_⟩
    · rw [List.cons_append, List.append_assoc, List.cons_append]
      exact .literal (by grind) hends
    · rw [List.cons_append, List.append_assoc, List.cons_append,
        skipTo_literal _ hquote hend (not_mem_of_typed (by simp) hinside) (by decide), hskip]
  | @openLiteral inside hquote hinside =>
    have hend : endLine ∉ inside := not_mem_of_typed (by simp) hinside
    refine ⟨[], .inl rfl, .openLiteral (by grind), fun stop => ?_⟩
    rw [List.cons_append, skipTo_quote, skipTo_inside _ hquote hend
      (not_mem_of_typed (by simp) hinside), skipTo_endLine]
    rfl
  | @comment text htext =>
    have hend : endLine ∉ text := not_mem_of_typed (by simp) htext
    refine ⟨[], .inl rfl, .comment (by grind), fun stop => ?_⟩
    rw [List.cons_append, skipTo_rem, skipTo_comment _ _ hend]
    rfl

/-- A scan that stops at the first end of a statement finds it. -/
theorem endsAt_skipTo {left : List UInt8} (hleft : Typed left) (t : List UInt8) :
    EndsAt (left ++ endLine :: t)
      (skipTo statementEnds true false false (left ++ endLine :: t)) := by
  obtain ⟨rest, hrest, hends, hskip⟩ := exists_endsAt hleft t
  have hfound : skipTo statementEnds true false false (rest ++ endLine :: t) =
      rest ++ endLine :: t := by
    obtain rfl | ⟨after, rfl, -⟩ := hrest
    · exact skipTo_found t (by decide) (by decide)
    · exact skipTo_found _ (by decide) (by decide)
  rwa [hskip, hfound]

/-! ## Searching from a boundary -/

/-- A separator is the first thing in some code. -/
def Separated (code : List UInt8) : Prop :=
  ∃ b after, code.dropWhile isBlank = b :: after ∧ b ∈ statementEnds

/-- A search that has passed over a separator stops at the next one, or has left the code. -/
def PassesOver (separator rest : List UInt8) : Prop :=
  separator = [endLine] ∧ rest = [] ∨ ∃ more, separator = colon :: more ∧ EndsAt more rest

theorem PassesOver.ne {separator rest : List UInt8} (h : PassesOver separator rest) :
    rest ≠ separator := by
  obtain ⟨rfl, rfl⟩ | ⟨more, rfl, hmore⟩ := h
  · simp
  · rintro rfl
    have hle := hmore.suffix.length_le
    rw [List.length_cons] at hle
    omega

/-- The search for the next statement, started in code whose first statement is `before`: it finds the
end of that one if there is a separator to pass first, and otherwise passes over that end. -/
def Skips (code before : List UInt8) : Prop :=
  ∃ separator, EndsAt before separator ∧
    (Separated code → skipTo statementEnds false false false code = separator) ∧
    (¬ Separated code → PassesOver separator (skipTo statementEnds false false false code))

theorem skipTo_dropWhile_isBlank (stop : Bool) (code : List UInt8) :
    skipTo statementEnds stop false false (code.dropWhile isBlank) =
      skipTo statementEnds stop false false code := by
  induction code with
  | nil => rfl
  | cons b rest ih =>
    by_cases hb : isBlank b = true
    · have hplain := isPlain_of_isBlank hb
      have hend : statementEnds.contains b = false := by
        grind [isBlank, statementEnds, space, tab, newline, endLine, colon]
      simp only [isPlain, Bool.and_eq_true, decide_eq_true_eq] at hplain
      rw [List.dropWhile_cons_of_pos hb, ih]
      exact (@skipTo_token _ _ b [] rest hplain.1 hplain.2.symm hend).symm
    · rw [List.dropWhile_cons_of_neg hb]

theorem separated_cons {b : UInt8} (rest : List UInt8) (hb : b ∈ statementEnds) :
    Separated (b :: rest) := by
  have hblank : ¬ isBlank b = true := by
    grind [isBlank, statementEnds, space, tab, newline, endLine, colon]
  exact ⟨b, rest, List.dropWhile_cons_of_neg hblank, hb⟩

/-- The search from a place in the text of a line: a colon, or any place in the last line. -/
theorem skips_inLine {left t before : List UInt8} {b : Parse.Boundary} (hleft : Typed left)
    (hplace : left.head? = some colon ∨ t = [])
    (hb : Parse.boundary (left ++ endLine :: t) = .ok b before) (hmore : b ≠ .ended) :
    Skips (left ++ endLine :: t) before := by
  have htyped := hleft.dropWhile_isBlank
  have hdrop := dropWhile_append_endLine (p := isBlank) (by decide) left t
  rw [Parse.boundary_apply, hdrop] at hb
  rw [Skips, Separated, ← skipTo_dropWhile_isBlank, hdrop]
  cases hblank : left.dropWhile isBlank with
  | nil =>
    -- a line of blanks has no colon, so it is the last line
    have ht : t = [] := by
      refine hplace.resolve_left fun hcolon => ?_
      obtain ⟨after, rfl⟩ := List.head?_eq_some_iff.1 hcolon
      cases hblank
    rw [ht, hblank] at hb
    cases hb
    exact absurd rfl hmore
  | cons c more =>
    rw [hblank] at htyped hb
    have hend : c ≠ endLine := htyped.head_ne_endLine
    simp only [List.cons_append, hend, if_false] at hb ⊢
    by_cases hcolon : c = colon
    · -- the colon is passed on both ways
      subst hcolon
      simp only [if_true] at hb
      cases hb
      refine ⟨_, endsAt_skipTo (tail_of_isPlain (by decide) htyped) t,
        fun _ => skipTo_passes_colon _, fun hnot => ?_⟩
      exact absurd ⟨colon, _, rfl, by decide⟩ hnot
    · simp only [hcolon, if_false] at hb
      cases hb
      obtain rfl : t = [] := by
        refine hplace.resolve_left fun hhead => hcolon ?_
        obtain ⟨after, rfl⟩ := List.head?_eq_some_iff.1 hhead
        cases hblank
        rfl
      obtain ⟨rest, hrest, hends, hskip⟩ := exists_endsAt htyped []
      refine ⟨_, hends, ?_, fun _ => ?_⟩
      · rintro ⟨d, after, heq, hd⟩
        obtain ⟨rfl, -⟩ := List.cons.inj heq
        simp [statementEnds, hend, hcolon] at hd
      · rw [← List.cons_append, hskip]
        obtain rfl | ⟨after, rfl, hafter⟩ := hrest
        · exact .inl ⟨rfl, skipTo_passes_last (.inl rfl)⟩
        · refine .inr ⟨_, rfl, ?_⟩
          rw [List.cons_append, skipTo_passes_colon]
          exact endsAt_skipTo hafter []

/-- The search from a boundary before a statement. -/
theorem Bounded.skips {bytes : List UInt8} {B : Nat → Prop} {pos : Nat} (h : Bounded bytes B)
    (hpos : B pos) {b : Parse.Boundary} {before : List UInt8}
    (hb : Parse.boundary (bytes.drop pos) = .ok b before) (hmore : b ≠ .ended) :
    Skips (bytes.drop pos) before := by
  cases h.at_boundary hpos with
  | ended =>
    rw [List.drop_length] at hb
    cases hb
    exact absurd rfl hmore
  | final hdrop ht =>
    rw [hdrop] at hb
    obtain rfl | rfl := ht <;> cases hb <;> exact absurd rfl hmore
  | @marker _ a b lo hi body t hdrop hlink hbody =>
    rw [hdrop, Parse.boundary_marker hlink] at hb
    cases hb
    rw [hdrop, Skips, skipTo_passes_marker hlink]
    exact ⟨_, endsAt_skipTo hbody.typed t, fun _ => rfl,
      fun hnot => absurd (separated_cons _ (by decide)) hnot⟩
  | inLine hbody hcode hleft =>
    rw [hbody.drop_append] at hb ⊢
    exact skips_inLine (hbody.typed_left hcode) hleft hb hmore

end Code

end LineBasic

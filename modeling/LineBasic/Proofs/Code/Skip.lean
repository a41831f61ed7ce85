import LineBasic.Proofs.Code.Lexical

/-!
# Skipping over code

What a scan for a byte makes of the lexemes of a line.  It passes tokens with their operands, literals and
comments as a whole, with one exception: a byte `8F` starts a comment for it even in a string literal, and
the scan then takes the next zero byte, perhaps one of an operand, for the end of the line.

* `skipTo_token`, `skipTo_literal`, `skipTo_comment`: how the scan passes a lexeme.
* `Code.EndsEarly`: the code of a line that the scan takes to end before its end.
* `skipTo_endLine_of_lexical`, `length_lt_skipTo_of_endsEarly`: where the scan for the end of a line stops.
-/

namespace LineBasic

open Token

namespace Code

/-- The code of a line in which a byte `8F` stands in a string literal, with a zero byte later on. -/
inductive EndsEarly : List UInt8 → Prop where
  | here {inside rest : List UInt8} (hquote : quote ∉ inside) (hend : endLine ∉ inside)
      (hrest : endLine ∈ rest) : EndsEarly (quote :: (inside ++ rem :: rest))
  | token {lead : UInt8} {operand rest : List UInt8} (hlead : lead ∉ [endLine, quote, rem])
      (hoperand : operand.length = operandLength lead) (hrest : EndsEarly rest) :
      EndsEarly (lead :: (operand ++ rest))
  | literal {inside rest : List UInt8} (hquote : quote ∉ inside) (hend : endLine ∉ inside)
      (hrest : EndsEarly rest) : EndsEarly (quote :: (inside ++ quote :: rest))

theorem EndsEarly.endLine_mem {code : List UInt8} (h : EndsEarly code) : endLine ∈ code := by
  induction h with
  | here _ _ hrest => simp [hrest]
  | token _ _ _ ih => simp [ih]
  | literal _ _ _ ih => simp [ih]

theorem EndsEarly.rem_mem {code : List UInt8} (h : EndsEarly code) : rem ∈ code := by
  induction h with
  | here => simp
  | token _ _ _ ih => simp [ih]
  | literal _ _ _ ih => simp [ih]

end Code

namespace Scan

open Code

variable {set : List UInt8} {stop : Bool}

/-! ## Passing a lexeme -/

/-- A token is passed with its operand. -/
theorem skipTo_token {lead : UInt8} {operand : List UInt8} (rest : List UInt8)
    (hlead : lead ∉ [endLine, quote, rem]) (hoperand : operand.length = operandLength lead)
    (hset : set.contains lead = false) :
    skipTo set stop false false (lead :: (operand ++ rest)) = skipTo set stop false false rest := by
  simp only [List.mem_cons, List.not_mem_nil, or_false, not_or] at hlead
  obtain ⟨he, hq, hr⟩ := hlead
  rw [skipTo.eq_def]
  simp [he, hq, hr, ← hoperand, hset, -List.contains_eq_mem]

/-- The end of a line ends strings and comments. -/
theorem skipTo_endLine (literal comment : Bool) (rest : List UInt8) :
    skipTo set stop literal comment (endLine :: rest) =
      skipTo set stop false false (endLine :: rest) := by
  have hq : endLine ≠ quote := by decide
  have hr : endLine ≠ rem := by decide
  rw [skipTo.eq_def, skipTo.eq_def set stop false false]
  simp [hq, hr]

/-- A comment reaches to the end of the line. -/
theorem skipTo_comment (literal : Bool) {text : List UInt8} (rest : List UInt8)
    (hend : endLine ∉ text) :
    skipTo set stop literal true (text ++ endLine :: rest) =
      skipTo set stop false false (endLine :: rest) := by
  induction text generalizing literal with
  | nil => exact skipTo_endLine literal true rest
  | cons b text ih =>
    rw [List.mem_cons, not_or] at hend
    obtain ⟨hb, ht⟩ := hend
    rw [List.cons_append, skipTo.eq_def]
    simp [Ne.symm hb, ih _ ht]

/-- What stands in a literal is passed over. -/
theorem skipTo_inside {inside : List UInt8} (rest : List UInt8) (hquote : quote ∉ inside)
    (hend : endLine ∉ inside) (hrem : rem ∉ inside) :
    skipTo set stop true false (inside ++ rest) = skipTo set stop true false rest := by
  induction inside with
  | nil => rfl
  | cons b inside ih =>
    rw [List.mem_cons, not_or] at hquote hend hrem
    obtain ⟨hq, hquote⟩ := hquote
    obtain ⟨he, hend⟩ := hend
    obtain ⟨hr, hrem⟩ := hrem
    rw [List.cons_append, skipTo.eq_def]
    simp [Ne.symm hq, Ne.symm he, Ne.symm hr, ih hquote hend hrem]

theorem skipTo_quote (code : List UInt8) :
    skipTo set stop false false (quote :: code) = skipTo set stop true false code := by
  have hr : quote ≠ rem := by decide
  rw [skipTo.eq_def]
  simp [hr]

theorem skipTo_closing (code : List UInt8) (hset : set.contains quote = false) :
    skipTo set stop true false (quote :: code) = skipTo set stop false false code := by
  have hr : quote ≠ rem := by decide
  have he : quote ≠ endLine := by decide
  have ho : operandLength quote = 0 := by decide
  rw [skipTo.eq_def]
  simp [hr, he, ho, hset, -List.contains_eq_mem]

/-- A literal without the byte of `REM` is passed whole. -/
theorem skipTo_literal {inside : List UInt8} (rest : List UInt8) (hquote : quote ∉ inside)
    (hend : endLine ∉ inside) (hrem : rem ∉ inside) (hset : set.contains quote = false) :
    skipTo set stop false false (quote :: (inside ++ quote :: rest)) =
      skipTo set stop false false rest := by
  rw [skipTo_quote, skipTo_inside _ hquote hend hrem, skipTo_closing _ hset]

/-- A byte `8F` starts a comment, wherever it stands. -/
theorem skipTo_rem (literal : Bool) (code : List UInt8) :
    skipTo set stop literal false (rem :: code) = skipTo set stop literal true code := by
  have hq : rem ≠ quote := by decide
  have he : rem ≠ endLine := by decide
  rw [skipTo.eq_def]
  simp [hq, he]

/-- The byte of `REM` in a literal is taken for a comment up to the end of the line. -/
theorem skipTo_rem_inside {inside text : List UInt8} (rest : List UInt8) (hquote : quote ∉ inside)
    (hend : endLine ∉ inside) (htext : endLine ∉ text) :
    skipTo set stop false false (quote :: (inside ++ rem :: (text ++ endLine :: rest))) =
      skipTo set stop false false (endLine :: rest) := by
  by_cases hrem : rem ∈ inside
  · obtain ⟨a, b, rfl, ha⟩ := List.eq_append_cons_of_mem hrem
    simp only [List.mem_append, List.mem_cons, not_or] at hquote hend
    have hb : endLine ∉ b ++ rem :: text := by
      simp [hend, htext]
    have hs : b ++ rem :: (text ++ endLine :: rest) = (b ++ rem :: text) ++ endLine :: rest := by
      simp
    rw [skipTo_quote, List.append_assoc, skipTo_inside _ hquote.1 hend.1 ha, List.cons_append,
      skipTo_rem, hs, skipTo_comment _ _ hb]
  · rw [skipTo_quote, skipTo_inside _ hquote hend hrem, skipTo_rem, skipTo_comment _ _ htext]

/-! ## The end of a line -/

/-- The scan stops at a byte of the set. -/
theorem skipTo_found {b : UInt8} (rest : List UInt8) (hb : b ∉ [quote, rem])
    (hset : set.contains b = true) : skipTo set true false false (b :: rest) = b :: rest := by
  simp only [List.mem_cons, List.not_mem_nil, or_false, not_or] at hb
  rw [skipTo.eq_def]
  simp [hb.1, hb.2, hset, -List.contains_eq_mem]

theorem skipTo_endLine_self (rest : List UInt8) :
    skipTo [endLine] true false false (endLine :: rest) = endLine :: rest :=
  skipTo_found rest (by decide) (by decide)

theorem contains_endLine {lead : UInt8} (hlead : lead ∉ [endLine, quote, rem]) :
    [endLine].contains lead = false := by
  rw [List.mem_cons, not_or] at hlead
  simpa using hlead.1

/-- The scan for the end of a line finds it, unless the line seems to end early. -/
theorem skipTo_endLine_of_lexical {code : List UInt8} (hcode : Lexical code)
    (hearly : ¬ EndsEarly code) (rest : List UInt8) :
    skipTo [endLine] true false false (code ++ endLine :: rest) = endLine :: rest := by
  induction hcode with
  | nil => exact skipTo_endLine_self rest
  | token hlead hoperand _ ih =>
    rw [List.cons_append, List.append_assoc, skipTo_token _ hlead hoperand (contains_endLine hlead)]
    exact ih fun h => hearly (.token hlead hoperand h)
  | @literal inside after hquote hinside _ ih =>
    have hend : endLine ∉ inside := fun h => hinside _ h rfl
    by_cases hrem : rem ∈ inside
    · -- The rest of the line is taken for a comment, and has no zero byte.
      obtain ⟨a, b, rfl, ha⟩ := List.eq_append_cons_of_mem hrem
      simp only [List.mem_append, List.mem_cons, not_or] at hquote hend
      have hb : endLine ∉ b ++ quote :: after := fun h =>
        hearly (by simpa using EndsEarly.here hquote.1 hend.1 h)
      have hs : quote :: (a ++ rem :: b ++ quote :: after) ++ endLine :: rest =
          quote :: (a ++ rem :: ((b ++ quote :: after) ++ endLine :: rest)) := by simp
      rw [hs, skipTo_rem_inside _ hquote.1 hend.1 hb, skipTo_endLine_self]
    · rw [List.cons_append, List.append_assoc, List.cons_append,
        skipTo_literal _ hquote hend hrem (by decide)]
      exact ih fun h => hearly (.literal hquote hend h)
  | @openLiteral inside hquote hinside =>
    have hend : endLine ∉ inside := fun h => hinside _ h rfl
    by_cases hrem : rem ∈ inside
    · obtain ⟨a, b, rfl, -⟩ := List.eq_append_cons_of_mem hrem
      simp only [List.mem_append, List.mem_cons, not_or] at hquote hend
      rw [List.cons_append, List.append_assoc, List.cons_append,
        skipTo_rem_inside _ hquote.1 hend.1 hend.2.2, skipTo_endLine_self]
    · rw [List.cons_append, skipTo_quote, skipTo_inside _ hquote hend hrem, skipTo_endLine,
        skipTo_endLine_self]
  | comment htext =>
    rw [List.cons_append, skipTo_rem, skipTo_comment _ _ fun h => htext _ h rfl, skipTo_endLine_self]

theorem length_lt_skipTo_here {inside text : List UInt8} (hquote : quote ∉ inside)
    (hend : endLine ∉ inside) (htext : endLine ∈ text) (rest : List UInt8) :
    rest.length <
      (skipTo [endLine] true false false (quote :: (inside ++ rem :: (text ++ rest)))).length := by
  obtain ⟨a, b, rfl, ha⟩ := List.eq_append_cons_of_mem htext
  rw [List.append_assoc, List.cons_append, skipTo_rem_inside _ hquote hend ha, skipTo_endLine_self]
  simp only [List.length_cons, List.length_append]
  omega

/-- A line that seems to end early is cut short by the scan for its end. -/
theorem length_lt_skipTo_of_endsEarly {code : List UInt8} (h : EndsEarly code) (rest : List UInt8) :
    rest.length < (skipTo [endLine] true false false (code ++ rest)).length := by
  induction h with
  | here hquote hend hafter => simpa using length_lt_skipTo_here hquote hend hafter rest
  | token hlead hoperand _ ih =>
    rwa [List.cons_append, List.append_assoc, skipTo_token _ hlead hoperand (contains_endLine hlead)]
  | @literal inside after hquote hend hafter ih =>
    by_cases hrem : rem ∈ inside
    · obtain ⟨a, b, rfl, -⟩ := List.eq_append_cons_of_mem hrem
      simp only [List.mem_append, List.mem_cons, not_or] at hquote hend
      have hb : endLine ∈ b ++ quote :: after := by simp [hafter.endLine_mem]
      simpa using length_lt_skipTo_here hquote.1 hend.1 hb rest
    · rwa [List.cons_append, List.append_assoc, List.cons_append,
        skipTo_literal _ hquote hend hrem (by decide)]

end Scan

end LineBasic

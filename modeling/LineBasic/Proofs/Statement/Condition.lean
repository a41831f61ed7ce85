import LineBasic.Proofs.Session.Failure

/-!
# The conditions that operations raise

An error names a condition of the language.  Where it arose is not told by what raises it, but found out
afterwards from how far the code has been read.

* `Raises`: a result whose errors are conditions of a kind and nothing more.
* `Variables.raises_store`, `FileTable.raises_open`, `Program.raises_deleteRange`: what works on values,
  files and lines raises conditions, and no syntax errors.
* `FlowOperation.exists_of_perform`: nor do jumps.
-/

namespace LineBasic

variable {α β : Type}

/-- A result whose errors are conditions of a kind, without a place. -/
def Raises (kind : ErrorCode → Prop) (x : Except BasicError α) : Prop :=
  ∀ e, x = .error e → ∃ code, kind code ∧ e = .of code

namespace Raises

variable {kind : ErrorCode → Prop}

theorem ok (a : α) : Raises kind (.ok a) := by
  intro e h
  cases h

theorem error {code : ErrorCode} (hcode : kind code) : Raises kind (.error (.of code) : Except _ α) := by
  intro e h
  cases h
  exact ⟨code, hcode, rfl⟩

/-- One check after another raises what either of them does. -/
theorem bind {x : Except BasicError α} {f : α → Except BasicError β} (hx : Raises kind x)
    (hf : ∀ a, Raises kind (f a)) : Raises kind (x >>= f) := by
  cases x with
  | error e =>
    intro e' h
    cases h
    exact hx e rfl
  | ok a => exact hf a

end Raises

/-! ## Values and variables -/

namespace Value

/-- A value is taken for a number without a syntax error. -/
theorem raises_toSingle (v : Value) : Raises (· ≠ .syntaxError) v.toSingle := by
  cases v with
  | string s => exact .error (by decide)
  | integer n => exact .ok _
  | single x => exact .ok _

theorem raises_toInteger (v : Value) : Raises (· ≠ .syntaxError) v.toInteger := by
  cases v with
  | string s => exact .error (by decide)
  | integer n => exact .ok _
  | single x =>
    simp only [toInteger]
    split
    · exact .ok _
    · exact .error (by decide)

theorem raises_negate (v : Value) : Raises (· ≠ .syntaxError) v.negate := by
  cases v with
  | string s => exact .error (by decide)
  | integer n =>
    simp only [negate]
    split <;> exact .ok _
  | single x => exact .ok _

theorem raises_add (v w : Value) : Raises (· ≠ .syntaxError) (v.add w) := by
  cases v with
  | string s => cases w <;> first | exact .ok _ | exact .error (by decide)
  | integer n =>
    cases w with
    | integer k =>
      simp only [add]
      split <;> exact .ok _
    | string s => exact .error (by decide)
    | single x => exact .ok _
  | single x => cases w <;> first | exact .ok _ | exact .error (by decide)

theorem raises_subtract (v w : Value) : Raises (· ≠ .syntaxError) (v.subtract w) := by
  cases v with
  | string s => exact .error (by decide)
  | integer n =>
    cases w with
    | integer k =>
      simp only [subtract]
      split <;> exact .ok _
    | string s => exact .error (by decide)
    | single x => exact .ok _
  | single x => cases w <;> first | exact .ok _ | exact .error (by decide)

end Value

/-- A check of ranges raises no syntax error. -/
theorem raises_checkRange (lower upper : Int) (values : List (Option Int)) :
    Raises (· ≠ .syntaxError) (checkRange lower upper values) := by
  unfold checkRange
  split
  · exact .ok _
  · exact .error (by decide)

theorem raises_checkRangeOr {code : ErrorCode} (hcode : code ≠ .syntaxError) (lower upper : Int)
    (value : Option Int) : Raises (· ≠ .syntaxError) (checkRangeOr code lower upper value) := by
  unfold checkRangeOr
  split
  · exact .ok _
  · exact .error hcode

theorem VariableKind.raises_convert (kind : VariableKind) (value : Value) :
    Raises (· ≠ .syntaxError) (kind.convert value) := by
  cases kind with
  | string =>
    cases value with
    | string s =>
      simp only [convert]
      split
      · exact .error (by decide)
      · exact .ok _
    | integer n => exact .error (by decide)
    | single x => exact .error (by decide)
  | integer => exact value.raises_toInteger.bind fun _ => .ok _
  | single => exact value.raises_toSingle.bind fun _ => .ok _

/-- An assignment raises no syntax error. -/
theorem Variables.raises_store (v : Variables) (name : String) (value : Value) :
    Raises (· ≠ .syntaxError) (v.store name value) := by
  unfold store
  split
  · exact .error (by decide)
  · exact (VariableKind.raises_convert _ value).bind fun _ => .ok _

/-! ## Files and lines -/

theorem FileTable.raises_open (t : FileTable) (d : Disk) (number : UInt8) (name : String)
    (mode : FileMode) : Raises (· ≠ .syntaxError) (t.open d number name mode) := by
  unfold FileTable.open
  split
  · exact .error (by decide)
  · split
    · exact .error (by decide)
    · cases OpenFile.open d name mode with
      | ok opened => exact .ok _
      | error fault => exact .error (by cases fault <;> decide)

theorem FileTable.raises_write (t : FileTable) (d : Disk) (number : UInt8) (text : String) :
    Raises (· ≠ .syntaxError) (t.write d number text) := by
  have hfile (f : OpenFile) : Raises (· ≠ .syntaxError) (f.write d text) := by
    unfold OpenFile.write
    split
    · exact .error (by decide)
    · split
      · dsimp only
        split <;> exact .ok _
      · exact .ok _
  unfold FileTable.write
  cases t.get? number with
  | none => exact .error (by decide)
  | some f =>
    have hwrite := hfile f
    cases hf : f.write d text with
    | ok written =>
      simp only [hf]
      exact .ok _
    | error e =>
      simp only [hf]
      rintro e' ⟨⟩
      exact hwrite e hf

theorem Program.raises_deleteRange (p : Program) (first last : Option UInt16) :
    Raises (· ≠ .syntaxError) (p.deleteRange first last) := by
  unfold deleteRange keep ofLines
  split
  · dsimp only
    split
    · exact .ok _
    · exact .error (by decide)
  · exact .error (by decide)

/-! ## Jumps -/

namespace FlowOperation

/-- No operation of control flow fails with a syntax error. -/
theorem failure?_ne_syntaxError (s : Session) (op : FlowOperation) :
    op.failure? s ≠ some .syntaxError := by
  have hmissing (line : Option UInt16) : missing? s line ≠ some .syntaxError := by
    unfold missing?
    split <;> decide
  cases op with
  | jump line => exact hmissing line
  | call line handler =>
    simp only [failure?, ne_eq, Option.or_eq_some_iff, not_or, not_and]
    refine ⟨hmissing _, fun _ => ?_⟩
    split <;> decide
  | cont =>
    unfold failure?
    dsimp only
    split <;> decide
  | back line =>
    unfold failure?
    dsimp only
    split
    · decide
    · exact hmissing _
    · decide
  | resume target =>
    unfold failure?
    dsimp only
    split
    · decide
    · exact hmissing _
    · decide

theorem exists_of_perform {op : FlowOperation} {s s' : Session} {e : BasicError}
    (h : op.perform s = .error e s') : ∃ code, code ≠ .syntaxError ∧ e = .of code := by
  obtain ⟨code, hfailure, rfl, -⟩ := perform_eq_error_iff.1 h
  refine ⟨code, ?_, rfl⟩
  rintro rfl
  exact failure?_ne_syntaxError s op hfailure

end FlowOperation

end LineBasic

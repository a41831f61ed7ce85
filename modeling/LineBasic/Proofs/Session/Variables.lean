import Mathlib
import LineBasic.Proofs.Code.Scanner
import LineBasic.Proofs.Number.Rounding
import LineBasic.Statement.Execute

/-!
# Variables keep their types

The mark at the end of a name says what a variable holds.  An assignment converts its value to that kind,
or it fails and changes nothing.

* `VariableKind.Holds`: the values of a kind.
* `VariableKind.Takes`, `VariableKind.Refuses`: what becomes of a value that is assigned, and why some are
  not taken.
* `Variables.Sound`: every variable holds a value of its kind, and there are not too many of them.
* `Machine.Assigns`: all that an assignment can do to a machine.
* `Machine.assignments_typed`: what holds after any number of assignments.
-/

namespace LineBasic

namespace Value

/-- A number fits an integer exactly if it is its value. -/
theorem fit?_eq_some_iff {n : Int} {i : Int16} : fit? n = some i ↔ n = i.toInt := by
  have hlow := i.le_toInt
  have hhigh := i.toInt_lt
  unfold fit?
  constructor
  · intro h
    split at h
    · rename_i hrange
      simp only [Bool.and_eq_true, decide_eq_true_eq] at hrange
      cases h
      exact (Int16.toInt_ofInt_of_le hrange.1 (by omega)).symm
    · cases h
  · rintro rfl
    rw [if_pos (by simp; omega), Int16.ofInt_toInt]

end Value

namespace VariableKind

/-! ## Kinds and their values -/

/-- The values that a variable of this kind may hold. -/
def Holds : VariableKind → Value → Prop
  | string, .string s => s.length ≤ 255
  | integer, .integer _ => True
  | single, .single _ => True
  | _, _ => False

/-- A value is taken by a variable of this kind, as another value. -/
inductive Takes : VariableKind → Value → Value → Prop where
  | string {s : String} (hlength : s.length ≤ 255) : Takes string (.string s) (.string s)
  | integer (n : Int16) : Takes integer (.integer n) (.integer n)
  /-- A number is rounded to the nearest integer, a half away from zero. -/
  | rounded {x : Single} {n : Int16} (hround : x.RoundsTo n.toInt) :
      Takes integer (.single x) (.integer n)
  | single (x : Single) : Takes single (.single x) (.single x)
  /-- An integer keeps its value. -/
  | exact {n : Int16} {x : Single} (hfinite : x.isFinite = true) (hunits : x.units = n.toInt * Single.one)
      (hsign : x.isNegative = decide (n.toInt < 0)) : Takes single (.integer n) (.single x)

/-- A value is not taken by a variable of this kind, for a reason. -/
inductive Refuses : VariableKind → Value → ErrorCode → Prop where
  | number (n : Int16) : Refuses string (.integer n) .typeMismatch
  | fraction (x : Single) : Refuses string (.single x) .typeMismatch
  | tooLong {s : String} (hlength : 255 < s.length) : Refuses string (.string s) .stringTooLong
  | text {kind : VariableKind} (hkind : kind ≠ string) (s : String) : Refuses kind (.string s) .typeMismatch
  /-- No integer is nearest to it. -/
  | tooLarge {x : Single} (hround : ∀ n : Int16, ¬ x.RoundsTo n.toInt) :
      Refuses integer (.single x) .overflow

theorem holds_initial (kind : VariableKind) : kind.Holds kind.initial := by
  cases kind with
  | string => exact Nat.zero_le 255
  | integer => trivial
  | single => trivial

/-- What a variable takes it can hold. -/
theorem Takes.holds {kind : VariableKind} {value held : Value} (h : kind.Takes value held) :
    kind.Holds held := by
  cases h with
  | string hlength => exact hlength
  | integer | rounded | single | exact => trivial

/-- A number becomes the integer that it rounds to, or overflows. -/
theorem toInteger_cases (x : Single) :
    (∃ n, (Value.single x).toInteger = .ok n ∧ x.RoundsTo n.toInt) ∨
      (Value.single x).toInteger = .error (.of .overflow) ∧ ∀ n : Int16, ¬ x.RoundsTo n.toInt := by
  have hiff (n : Int16) : x.round?.bind Value.fit? = some n ↔ x.RoundsTo n.toInt := by
    rw [Option.bind_eq_some_iff, ← Single.round?_eq_some_iff]
    simp only [Value.fit?_eq_some_iff]
    constructor
    · rintro ⟨k, hk, rfl⟩
      exact hk
    · intro h
      exact ⟨_, h, rfl⟩
  cases hround : x.round?.bind Value.fit? with
  | some n => exact .inl ⟨n, by simp only [Value.toInteger, hround], (hiff n).1 hround⟩
  | none =>
    refine .inr ⟨by simp only [Value.toInteger, hround], fun n hn => ?_⟩
    rw [(hiff n).2 hn] at hround
    cases hround

theorem takes_ofInt (n : Int16) : single.Takes (.integer n) (.single (.ofInt n.toInt)) := by
  have hlow := n.le_toInt
  have hhigh := n.toInt_lt
  obtain ⟨hfinite, hunits, hsign⟩ := Single.units_ofInt (n := n.toInt) (by omega)
  exact .exact hfinite hunits hsign

/-- Every value is taken or refused. -/
theorem convert_cases (kind : VariableKind) (value : Value) :
    (∃ held, kind.convert value = .ok held ∧ kind.Takes value held) ∨
      ∃ code, kind.convert value = .error (.of code) ∧ kind.Refuses value code := by
  cases kind with
  | string =>
    cases value with
    | string s =>
      unfold convert
      by_cases hlength : 255 < s.length
      · exact .inr ⟨_, if_pos hlength, .tooLong hlength⟩
      · exact .inl ⟨_, if_neg hlength, .string (Nat.le_of_not_lt hlength)⟩
    | integer n => exact .inr ⟨_, rfl, .number n⟩
    | single x => exact .inr ⟨_, rfl, .fraction x⟩
  | integer =>
    cases value with
    | string s => exact .inr ⟨_, rfl, .text (by decide) s⟩
    | integer n => exact .inl ⟨_, rfl, .integer n⟩
    | single x =>
      obtain ⟨n, hok, hround⟩ | ⟨herror, hround⟩ := toInteger_cases x
      · exact .inl ⟨.integer n, by simp [convert, hok], .rounded hround⟩
      · exact .inr ⟨.overflow, by simp [convert, herror], .tooLarge hround⟩
  | single =>
    cases value with
    | string s => exact .inr ⟨_, rfl, .text (by decide) s⟩
    | integer n => exact .inl ⟨_, rfl, takes_ofInt n⟩
    | single x => exact .inl ⟨_, rfl, .single x⟩

end VariableKind

namespace Variables

/-! ## Storing a value -/

/-- Every variable holds a value of its kind, and there are at most 65536 of them. -/
structure Sound (v : Variables) : Prop where
  typed : ∀ name value, v.values[name]? = some value → (VariableKind.ofName name).Holds value
  size_le : v.size ≤ 65536

theorem sound_empty : empty.Sound where
  typed name value h := by
    rw [empty, Std.ExtTreeMap.getElem?_empty] at h
    cases h
  size_le := by
    rw [size, empty, Std.ExtTreeMap.size_empty]
    decide

/-- A variable has a value of its kind, assigned or not. -/
theorem Sound.holds_fetch {v : Variables} (h : v.Sound) (name : String) :
    (VariableKind.ofName name).Holds (v.fetch name) := by
  unfold fetch
  cases hvalue : v.values[name]? with
  | none => exact VariableKind.holds_initial _
  | some value => exact h.typed name value hvalue

theorem getElem?_insert (v : Variables) (name other : String) (value : Value) :
    (v.values.insert name value)[other]? = if name = other then some value else v.values[other]? := by
  rw [Std.ExtTreeMap.getElem?_insert]
  simp only [Std.LawfulEqCmp.compare_eq_iff_eq]

theorem fetch_insert_self (v : Variables) (name : String) (value : Value) :
    fetch ⟨v.values.insert name value⟩ name = value := by
  rw [fetch, getElem?_insert, if_pos rfl]
  rfl

theorem fetch_insert_of_ne (v : Variables) {name other : String} (value : Value) (h : other ≠ name) :
    fetch ⟨v.values.insert name value⟩ other = v.fetch other := by
  rw [fetch, getElem?_insert, if_neg h.symm]
  rfl

/-- While there is room, a value of the right type keeps the variables sound. -/
theorem Sound.insert {v : Variables} (h : v.Sound) (hroom : v.size ≤ capacity) {name : String}
    {value : Value} (hvalue : (VariableKind.ofName name).Holds value) :
    Sound ⟨v.values.insert name value⟩ where
  typed other value' hother := by
    rw [getElem?_insert] at hother
    split at hother
    · rename_i hname
      cases hother
      rw [← hname]
      exact hvalue
    · exact h.typed other value' hother
  size_le := by
    have hsize : (v.values.insert name value).size ≤ v.size + 1 := Std.ExtTreeMap.size_insert_le
    exact hsize.trans (Nat.succ_le_succ hroom)

/-- There may be no room for one more variable; else the value is taken or refused. -/
theorem store_cases (v : Variables) (name : String) (value : Value) :
    (65535 < v.size ∧ v.store name value = .error (.of .outOfMemory)) ∨
      v.size ≤ 65535 ∧
        ((∃ held, (VariableKind.ofName name).Takes value held ∧
            v.store name value = .ok ⟨v.values.insert name held⟩) ∨
          ∃ code, (VariableKind.ofName name).Refuses value code ∧
            v.store name value = .error (.of code)) := by
  unfold store
  by_cases hfull : capacity < v.size
  · exact .inl ⟨hfull, if_pos hfull⟩
  · refine .inr ⟨Nat.le_of_not_lt hfull, ?_⟩
    rw [if_neg hfull]
    obtain ⟨held, hok, htakes⟩ | ⟨code, herror, hrefuses⟩ :=
      (VariableKind.ofName name).convert_cases value
    · exact .inl ⟨held, htakes, by rw [hok]; rfl⟩
    · exact .inr ⟨code, hrefuses, by rw [herror]; rfl⟩

end Variables

namespace Machine

open Effect Statement

/-! ## Assignments -/

/-- All that an assignment can do to a machine. -/
inductive Assigns (m : Machine) (name : String) (value : Value) :
    EStateM.Result Signal Machine Unit → Prop where
  /-- There are too many variables, whatever the name and the value are. -/
  | full (hfull : 65535 < m.session.vars.size) :
      Assigns m name value (.error (.raise .outOfMemory) m)
  | refused {code : ErrorCode} (hroom : m.session.vars.size ≤ 65535)
      (hrefuses : (VariableKind.ofName name).Refuses value code) :
      Assigns m name value (.error (.raise code) m)
  /-- The variable has the value that it takes, and the others have the values they had. -/
  | stored {held : Value} {vars : Variables} (hroom : m.session.vars.size ≤ 65535)
      (htakes : (VariableKind.ofName name).Takes value held) (hfetch : vars.fetch name = held)
      (hothers : ∀ other, other ≠ name → vars.fetch other = m.session.vars.fetch other) :
      Assigns m name value (.ok () { m with session := { m.session with vars } })

theorem assignVariable_apply (name : String) (value : Value) (m : Machine) :
    assignVariable name value m =
      match m.session.vars.store name value with
      | .ok vars => .ok () { m with session := { m.session with vars } }
      | .error e => .error (.error e) m := by
  simp only [assignVariable, bind_apply, get_apply]
  cases m.session.vars.store name value <;> rfl

theorem assigns_assignVariable (m : Machine) (name : String) (value : Value) :
    m.Assigns name value (assignVariable name value m) := by
  rw [assignVariable_apply]
  obtain ⟨hfull, hstore⟩ | ⟨hroom, ⟨held, htakes, hstore⟩ | ⟨code, hrefuses, hstore⟩⟩ :=
    m.session.vars.store_cases name value
  · rw [hstore]
    exact .full hfull
  · rw [hstore]
    refine .stored hroom htakes (Variables.fetch_insert_self _ _ _) fun other hother => ?_
    exact Variables.fetch_insert_of_ne _ _ hother
  · rw [hstore]
    exact .refused hroom hrefuses

/-- An assignment keeps the variables sound, whether it succeeds or fails. -/
theorem sound_assignVariable {m : Machine} (h : m.session.vars.Sound) (name : String) (value : Value) :
    (left (assignVariable name value m)).session.vars.Sound := by
  rw [assignVariable_apply]
  obtain ⟨-, hstore⟩ | ⟨hroom, ⟨held, htakes, hstore⟩ | ⟨code, -, hstore⟩⟩ :=
    m.session.vars.store_cases name value
  · rw [hstore]
    exact h
  · rw [hstore]
    exact h.insert hroom htakes.holds
  · rw [hstore]
    exact h

/-- The machine after assignments, of which some may have failed. -/
def assigned (m : Machine) (history : List (String × Value)) : Machine :=
  history.foldl (fun m e => left (assignVariable e.1 e.2 m)) m

/-- Any assignments keep the variables sound. -/
theorem sound_assigned {m : Machine} (h : m.session.vars.Sound) (history : List (String × Value)) :
    (m.assigned history).session.vars.Sound := by
  induction history generalizing m with
  | nil => exact h
  | cons e history ih => exact ih (sound_assignVariable h e.1 e.2)

/-- From no variables on, after any assignments: every variable holds a value of its kind, so has one that
was never assigned, there are at most 65536 variables, and the next assignment changes its own variable or
nothing at all. -/
theorem assignments_typed (m : Machine) (history : List (String × Value)) :
    let t := assigned { m with session := { m.session with vars := .empty } } history
    (∀ name value, t.session.vars.values[name]? = some value →
        (VariableKind.ofName name).Holds value) ∧
      (∀ name, (VariableKind.ofName name).Holds (t.session.vars.fetch name)) ∧
      t.session.vars.size ≤ 65536 ∧
      (∀ name value, t.Assigns name value (assignVariable name value t)) := by
  intro t
  have hsound : t.session.vars.Sound := sound_assigned Variables.sound_empty history
  exact ⟨hsound.typed, hsound.holds_fetch, hsound.size_le, t.assigns_assignVariable⟩

end Machine

end LineBasic

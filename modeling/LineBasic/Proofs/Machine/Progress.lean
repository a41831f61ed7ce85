import LineBasic.Proofs.Machine.Statement
import LineBasic.Proofs.Statement.Termination

/-!
# Statements make progress

One statement after the other is run from any bytes.  Unless a statement goes somewhere else, the place of
the code that runs moves forward with it, so code without such statements comes to an end.

* `Statement.jumps`: the statements that go somewhere else.
* `Session.Advanced`: a session that has gone forward in the same code.
* `Machine.advanced_of_statement`: what one statement does.
* `Machine.Goes`, `Machine.le_length_of_goes`: what any number of statements do.
* `Machine.statements_progress`: reading ends, statements go forward, and code without jumps ends.
-/

namespace LineBasic

open Token Scan

/-- The statements that go on somewhere else. -/
def Statement.jumps : Statement → Bool
  | goto _ | gosub _ | returnTo _ | cont | run _ | resume _ => true
  | _ => false

namespace Session

/-- A session that has gone forward in the same code, at most to its end. -/
structure Advanced (s s' : Session) : Prop where
  inProgram : s'.inProgram = s.inProgram
  bytes : s'.stream.bytes = s.stream.bytes
  lt : s.stream.pos < s'.stream.pos
  le : s'.stream.pos ≤ s.stream.bytes.length

/-- What does not go somewhere else stays where it is once it has been read. -/
theorem Continued.stays {s s' : Session} {st : Statement} (h : s.Continued st s')
    (hst : st.jumps = false) : s'.inProgram = s.inProgram ∧ s'.stream = s.stream := by
  cases h with
  | kept | cleared => exact ⟨rfl, rfl⟩
  | jumped | called | returned | returnedTo | continued | ran | resumed | resumedNext | resumedAt =>
    cases hst

end Session

namespace Parse

theorem length_le_of_statement {scope : Scope} {code rest : List UInt8} {st : Statement}
    (h : statement scope code = .ok st rest) : rest.length ≤ code.length := by
  obtain ⟨-, hrest⟩ | hlt := length_lt_of_statement h
  · rw [hrest]
    exact List.length_dropWhile_le isBlank code
  · exact Nat.le_of_lt hlt

/-- What stands before a statement and the statement itself take something together. -/
theorem length_lt_of_boundary {scope : Scope} {code before after : List UInt8} {b : Boundary}
    {st : Statement} (hb : boundary code = .ok b before) (hmore : b ≠ .ended)
    (hst : statement scope before = .ok st after) : after.length < code.length := by
  have hle := length_le_of_statement hst
  have hdrop := List.length_dropWhile_le isBlank code
  rw [boundary_apply] at hb
  cases hcode : code.dropWhile isBlank with
  | nil =>
    rw [hcode] at hb
    cases hb
    exact absurd rfl hmore
  | cons c rest =>
    rw [hcode] at hb hdrop
    rw [List.length_cons] at hdrop
    dsimp only at hb
    by_cases hend : c = endLine
    · -- the end of the line is passed, and its marker
      have hmarker := length_lineMarker_le rest
      rw [if_pos hend] at hb
      cases hnumber : (lineMarker rest).1 with
      | none =>
        simp only [hnumber] at hb
        cases hb
        exact absurd rfl hmore
      | some number =>
        simp only [hnumber] at hb
        cases hb
        omega
    · rw [if_neg hend] at hb
      by_cases hcolon : c = colon
      · rw [if_pos hcolon] at hb
        cases hb
        omega
      · -- nothing has been passed but blanks, so the statement does not end at once
        rw [if_neg hcolon] at hb
        cases hb
        obtain ⟨hends, -⟩ | hlt := length_lt_of_statement hst
        · have hagain : (c :: rest).dropWhile isBlank = c :: rest := by
            rw [← hcode, List.dropWhile_idempotent]
          simp [hagain, statementEnds, hend, hcolon] at hends
        · rw [List.length_cons] at hlt
          omega

end Parse

namespace Machine

/-- A statement after which execution goes on has moved forward, unless it goes somewhere else. -/
theorem advanced_of_statement {m m' : Machine} (h : statement m = .ok true m')
    (hst : ∀ st, m.Upcoming st → st.jumps = false) : m.session.Advanced m'.session := by
  obtain ⟨pos, console, signal, herror, -⟩ | ⟨pos, console, hfalse⟩ |
    ⟨st, before, after, console, hreads, hexecute⟩ := statement_cases m
  · rw [herror] at h
    cases h
  · rw [hfalse] at h
    cases h
  · have hcontinued := Statement.continued_of_execute (hexecute.symm.trans h)
    obtain ⟨hinProgram, hstream⟩ := hcontinued.stays (hst st ⟨before, after, hreads⟩)
    obtain ⟨b, hb, hmore, hstatement⟩ := hreads
    have hlt := Parse.length_lt_of_boundary hb hmore hstatement
    have hle := Parse.length_le_of_statement hstatement
    obtain ⟨b', before', hb', hsuffix⟩ := Parse.boundary_ok m.session.stream.rest
    rw [hb] at hb'
    cases hb'
    have hbefore := hsuffix.length_le
    have hrest : m.session.stream.rest.length = m.session.stream.bytes.length - m.session.stream.pos :=
      List.length_drop
    have hplace : m'.session.stream = { m.session.stream with
        pos := m.session.stream.pos + (m.session.stream.rest.length - before.length) +
          (before.length - after.length) } := by
      rw [hstream, reading, Session.moveTo_stream]
      rfl
    refine ⟨?_, ?_, ?_, ?_⟩
    · rw [hinProgram, reading, Session.moveTo_inProgram]
    · rw [hplace]
    · rw [hplace]
      dsimp only
      omega
    · rw [hplace]
      dsimp only
      omega

/-- A machine goes on by a number of statements, each of which answers that execution goes on. -/
inductive Goes (m : Machine) : Nat → Machine → Prop where
  | start : Goes m 0 m
  | call {k : Nat} {t t' : Machine} (h : Goes m k t) (hcall : statement t = .ok true t') :
      Goes m (k + 1) t'

/-- No statement that a machine comes to goes somewhere else. -/
def Straight (m : Machine) : Prop :=
  ∀ k t st, m.Goes k t → t.Upcoming st → st.jumps = false

/-- Each statement has taken a byte of the code. -/
theorem add_le_of_goes {m t : Machine} {k : Nat} (hstraight : m.Straight) (h : m.Goes k t) :
    t.session.stream.bytes = m.session.stream.bytes ∧
      (k = 0 ∧ t = m ∨
        m.session.stream.pos + k ≤ t.session.stream.pos ∧
          t.session.stream.pos ≤ m.session.stream.bytes.length) := by
  induction h with
  | start => exact ⟨rfl, .inl ⟨rfl, rfl⟩⟩
  | call h hcall ih =>
    obtain ⟨hbytes, hplace⟩ := ih
    have hadvanced := advanced_of_statement hcall fun st hst => hstraight _ _ st h hst
    have hlt := hadvanced.lt
    have hle := hadvanced.le
    refine ⟨hadvanced.bytes.trans hbytes, .inr ?_⟩
    rw [hbytes] at hle
    obtain ⟨rfl, rfl⟩ | ⟨hpos, -⟩ := hplace
    · omega
    · omega

theorem le_length_of_goes {m t : Machine} {k : Nat} (hstraight : m.Straight) (h : m.Goes k t) :
    k ≤ m.session.stream.bytes.length := by
  obtain ⟨-, ⟨rfl, -⟩ | ⟨hpos, hle⟩⟩ := add_le_of_goes hstraight h
  · exact Nat.zero_le _
  · omega

/-- Execution ends here: the answer is false, or an error. -/
def Stops (t : Machine) : Prop :=
  (∃ t', statement t = .ok false t') ∨ ∃ signal t', statement t = .error signal t'

theorem stops_or_goes (t : Machine) : t.Stops ∨ ∃ t', statement t = .ok true t' := by
  cases h : statement t with
  | error signal t' => exact .inl (.inr ⟨signal, t', h⟩)
  | ok more t' =>
    cases more with
    | true => exact .inr ⟨t', rfl⟩
    | false => exact .inl (.inl ⟨t', h⟩)

/-- A machine stops within a number of statements, or goes on that long. -/
theorem stops_before_or_goes (m : Machine) (n : Nat) :
    (∃ k t, k < n ∧ m.Goes k t ∧ t.Stops) ∨ ∃ t, m.Goes n t := by
  induction n with
  | zero => exact .inr ⟨m, .start⟩
  | succ n ih =>
    obtain ⟨k, t, hk, hgoes, hstops⟩ | ⟨t, hgoes⟩ := ih
    · exact .inl ⟨k, t, by omega, hgoes, hstops⟩
    · obtain hstops | ⟨t', hcall⟩ := t.stops_or_goes
      · exact .inl ⟨n, t, by omega, hgoes, hstops⟩
      · exact .inr ⟨t', hgoes.call hcall⟩

/-- On any bytes: all that is read for a statement comes to an end; a statement after which execution goes
on has moved forward in the same code, unless it jumps; and where no statement that comes up jumps, a call
answers false or fails after at most as many others as the code has bytes. -/
theorem statements_progress (m : Machine) :
    Parse.Terminates m.session.scope ∧
      (∀ m', statement m = .ok true m' → (∀ st, m.Upcoming st → st.jumps = false) →
        m.session.Advanced m'.session) ∧
      (m.Straight → ∃ k t, k ≤ m.session.stream.bytes.length ∧ m.Goes k t ∧ t.Stops) := by
  refine ⟨Parse.terminates _, fun m' => advanced_of_statement, fun hstraight => ?_⟩
  obtain ⟨k, t, hk, hgoes, hstops⟩ | ⟨t, hgoes⟩ :=
    m.stops_before_or_goes (m.session.stream.bytes.length + 1)
  · exact ⟨k, t, Nat.le_of_lt_succ hk, hgoes, hstops⟩
  · have hle := le_length_of_goes hstraight hgoes
    omega

/-- The direct line `TRON:` before its first byte. -/
def tracing : Machine where
  session := { direct := { bytes := [0xA2, colon] } }

/-- The same line at a later place. -/
def tracingAt (pos statement : Nat) : Machine where
  session := { direct := { bytes := [0xA2, colon], pos }, tron := true, statement }

/-- Two bytes, and the third call is the last. -/
theorem tracing_ends :
    tracing.Straight ∧ ∃ k t, k ≤ 2 ∧ tracing.Goes k t ∧ t.Stops := by
  have hfirst : statement tracing = .ok true (tracingAt 1 0) := rfl
  have hsecond : statement (tracingAt 1 0) = .ok true (tracingAt 2 1) := rfl
  have hgoes : ∀ k t, tracing.Goes k t → t = tracing ∨ t = tracingAt 1 0 ∨ t = tracingAt 2 1 := by
    intro k t h
    induction h with
    | start => exact .inl rfl
    | call h hcall ih =>
      obtain rfl | rfl | rfl := ih
      · rw [hfirst] at hcall
        cases hcall
        exact .inr (.inl rfl)
      · rw [hsecond] at hcall
        cases hcall
        exact .inr (.inr rfl)
      · cases hcall
  have hstraight : tracing.Straight := by
    intro k t st h hst
    obtain rfl | rfl | rfl := hgoes k t h
    · have htron : tracing.Upcoming (.trace true) := ⟨_, _, .inLine, rfl, by simp, rfl⟩
      rw [hst.unique htron]
      rfl
    · have hnothing : (tracingAt 1 0).Upcoming .nothing := ⟨_, _, .inLine, rfl, by simp, rfl⟩
      rw [hst.unique hnothing]
      rfl
    · obtain ⟨before, after, b, hb, hmore, -⟩ := hst
      cases hb
      exact absurd rfl hmore
  exact ⟨hstraight, (statements_progress tracing).2.2 hstraight⟩

end Machine

end LineBasic

import LineBasic.Proofs.Machine.Shutdown

/-!
# What leaves a cycle

A cycle reports the signal that ended its passes, and a report goes to the console: a new line is started,
and the message is written.  A request to leave or to start anew is handed on.  Any other signal is taken
in, unless the console fails in the middle of the report: that fault has nobody left to report it.

* `Console.Fails`: one of the next writes fails, or one of the next starts of a line.
* `Machine.Sends`: an operation that sends an amount of output, and fails exactly if some of it does.
* `Machine.cycle_quits_iff`: the outcomes of a cycle.
-/

namespace LineBasic

open Effect

/-! ## Failing consoles -/

/-- An amount of output: texts that are written, and lines that are started. -/
structure Output where
  writes : Nat := 0
  starts : Nat := 0

instance : Add Output :=
  ⟨fun o o' => ⟨o.writes + o'.writes, o.starts + o'.starts⟩⟩

theorem Output.zero_add (o : Output) : {} + o = o := by
  show Output.mk (0 + o.writes) (0 + o.starts) = o
  rw [Nat.zero_add, Nat.zero_add]

theorem Output.add_zero (o : Output) : o + {} = o := rfl

namespace Console

/-- One of the next `n` numbers after a count is among those that fail. -/
def FailsWithin (failing : List Nat) (count n : Nat) : Prop :=
  ∃ i, i < n ∧ count + i + 1 ∈ failing

instance (failing : List Nat) (count n : Nat) : Decidable (FailsWithin failing count n) :=
  inferInstanceAs (Decidable (∃ i, i < n ∧ count + i + 1 ∈ failing))

/-- One of the writes to come fails, or one of the starts of a line. -/
def Fails (c : Console) (o : Output) : Prop :=
  FailsWithin c.failing c.writes o.writes ∨ FailsWithin c.failingStarts c.starts o.starts

instance (c : Console) (o : Output) : Decidable (c.Fails o) :=
  inferInstanceAs (Decidable (_ ∨ _))

/-- The console has been sent an amount of output. -/
structure Advances (c : Console) (o : Output) (c' : Console) : Prop where
  failing : c'.failing = c.failing
  writes : c'.writes = c.writes + o.writes
  failingStarts : c'.failingStarts = c.failingStarts
  starts : c'.starts = c.starts + o.starts

section Counts

variable {failing : List Nat} {count n k : Nat}

theorem not_failsWithin_zero : ¬ FailsWithin failing count 0 := by
  rintro ⟨i, hi, -⟩
  exact absurd hi (Nat.not_lt_zero i)

/-- One output fails if its number is listed. -/
theorem failsWithin_one : FailsWithin failing count 1 ↔ failing.contains (count + 1) = true := by
  rw [List.contains_iff_mem]
  constructor
  · rintro ⟨i, hi, h⟩
    obtain rfl : i = 0 := by omega
    exact h
  · intro h
    exact ⟨0, Nat.one_pos, h⟩

/-- Among `n + k` numbers one fails if one fails among the first `n`, or among the `k` after them. -/
theorem failsWithin_add : FailsWithin failing count (n + k) ↔
    FailsWithin failing count n ∨ FailsWithin failing (count + n) k := by
  constructor
  · rintro ⟨i, hi, hfails⟩
    by_cases hlt : i < n
    · exact .inl ⟨i, hlt, hfails⟩
    · refine .inr ⟨i - n, by omega, ?_⟩
      rwa [show count + n + (i - n) + 1 = count + i + 1 by omega]
  · rintro (⟨i, hi, hfails⟩ | ⟨i, hi, hfails⟩)
    · exact ⟨i, by omega, hfails⟩
    · refine ⟨n + i, by omega, ?_⟩
      rwa [Nat.add_assoc count n i] at hfails

end Counts

variable {c c' : Console} {o o' : Output}

/-- Without output nothing fails. -/
theorem not_fails_nothing (c : Console) : ¬ c.Fails {} := by
  rintro (h | h)
  · exact not_failsWithin_zero h
  · exact not_failsWithin_zero h

/-- Output after output. -/
theorem Advances.trans {c'' : Console} (h : c.Advances o c') (h' : c'.Advances o' c'') :
    c.Advances (o + o') c'' where
  failing := h'.failing.trans h.failing
  writes := by rw [h'.writes, h.writes, Nat.add_assoc]; rfl
  failingStarts := h'.failingStarts.trans h.failingStarts
  starts := by rw [h'.starts, h.starts, Nat.add_assoc]; rfl

/-- Output fails if its first part fails, or what is sent after that. -/
theorem Advances.fails_add (h : c.Advances o c') : c.Fails (o + o') ↔ c.Fails o ∨ c'.Fails o' := by
  have hwrites : FailsWithin c.failing c.writes (o + o').writes ↔
      FailsWithin c.failing c.writes o.writes ∨ FailsWithin c'.failing c'.writes o'.writes := by
    rw [h.failing, h.writes]
    exact failsWithin_add
  have hstarts : FailsWithin c.failingStarts c.starts (o + o').starts ↔
      FailsWithin c.failingStarts c.starts o.starts ∨
        FailsWithin c'.failingStarts c'.starts o'.starts := by
    rw [h.failingStarts, h.starts]
    exact failsWithin_add
  unfold Fails
  rw [hwrites, hstarts]
  exact or_or_or_comm

/-- What fails still does if more is sent after it. -/
theorem Fails.add_right (h : c.Fails o) (o' : Output) : c.Fails (o + o') :=
  h.imp (fun h => failsWithin_add.2 (.inl h)) fun h => failsWithin_add.2 (.inl h)

theorem advances_emit (c : Console) (text : String) : c.Advances {} (c.emit text) := by
  unfold Console.emit
  split
  · exact ⟨rfl, rfl, rfl, rfl⟩
  · split <;> exact ⟨rfl, rfl, rfl, rfl⟩

/-- A write is counted, whether or not it fails. -/
theorem advances_write (c : Console) (text : String) : c.Advances { writes := 1 } (c.write text).2 := by
  unfold Console.write
  dsimp only
  split
  · exact ⟨rfl, rfl, rfl, rfl⟩
  · have h := advances_emit { c with writes := c.writes + 1 } text
    exact ⟨h.failing, h.writes, h.failingStarts, h.starts⟩

/-- So is the start of a line, whether or not there is one to start. -/
theorem advances_startLine (c : Console) : c.Advances { starts := 1 } c.startLine.2 := by
  unfold Console.startLine
  dsimp only
  split
  · exact ⟨rfl, rfl, rfl, rfl⟩
  · split
    · have h := advances_emit { c with starts := c.starts + 1 } "\n"
      exact ⟨h.failing, h.writes, h.failingStarts, h.starts⟩
    · exact ⟨rfl, rfl, rfl, rfl⟩

/-- A write succeeds exactly if it is not one of those that fail. -/
theorem write_succeeds_iff (c : Console) (text : String) :
    (c.write text).1 = true ↔ ¬ c.Fails { writes := 1 } := by
  unfold Fails
  rw [failsWithin_one, or_iff_left not_failsWithin_zero]
  unfold Console.write
  dsimp only
  split <;> simp_all

theorem startLine_succeeds_iff (c : Console) :
    c.startLine.1 = true ↔ ¬ c.Fails { starts := 1 } := by
  unfold Fails
  rw [failsWithin_one, or_iff_right not_failsWithin_zero]
  unfold Console.startLine
  dsimp only
  split
  · simp_all
  · split <;> simp_all

end Console

namespace Machine

/-! ## Operations with output -/

/-- An operation on a machine that sends an amount of output: it succeeds after all of it, or ends with the
fault of the part that fails. -/
def Sends {α : Type} (x : MachineM α) (m : Machine) (o : Output) : Prop :=
  (¬ m.console.Fails o ∧ ∃ a m', x m = .ok a m' ∧ m.console.Advances o m'.console) ∨
    (m.console.Fails o ∧ ∃ m', x m = .error (.fault "write failed") m')

section Sends

variable {α β : Type} {x : MachineM α} {f : α → MachineM β} {m : Machine} {o o' : Output}

theorem Sends.of_ok {a : α} {m' : Machine} (h : x m = .ok a m')
    (hadvances : m.console.Advances {} m'.console) : Sends x m {} :=
  .inl ⟨m.console.not_fails_nothing, a, m', h, hadvances⟩

theorem Sends.congr {y : MachineM α} (h : x m = y m) (hy : Sends y m o) : Sends x m o := by
  unfold Sends
  rwa [h]

/-- One output after another: the second is sent if the first has not failed. -/
theorem Sends.bind (hx : Sends x m o) (hf : ∀ a m', x m = .ok a m' → Sends (f a) m' o') :
    Sends (x >>= f) m (o + o') := by
  unfold Sends
  rw [bind_apply]
  obtain ⟨hfirst, a, m₁, hok, hadvances⟩ | ⟨hfirst, m₁, herror⟩ := hx
  · rw [hok, hadvances.fails_add]
    obtain ⟨hsecond, b, m₂, hok', hadvances'⟩ | ⟨hsecond, m₂, herror'⟩ := hf a m₁ hok
    · exact .inl ⟨by simp [hfirst, hsecond], b, m₂, hok', hadvances.trans hadvances'⟩
    · exact .inr ⟨.inr hsecond, m₂, herror'⟩
  · rw [herror]
    exact .inr ⟨hfirst.add_right o', m₁, rfl⟩

/-- What sends nothing may come first. -/
theorem Sends.after {a : α} {m' : Machine} (hx : x m = .ok a m')
    (hadvances : m.console.Advances {} m'.console) (hf : Sends (f a) m' o) : Sends (x >>= f) m o := by
  have hbind : Sends (x >>= f) m ({} + o) := (Sends.of_ok hx hadvances).bind fun b m₁ hb => by
    rw [hx] at hb
    cases hb
    exact hf
  rwa [Output.zero_add] at hbind

/-- What sends nothing may come last. -/
theorem Sends.modifySession (hx : Sends x m o) (f : Session → Session) :
    Sends (x >>= fun _ => modifySession f) m o := by
  rw [← o.add_zero]
  exact hx.bind fun _ _ _ => .of_ok rfl ⟨rfl, rfl, rfl, rfl⟩

/-- Output of any kind. -/
theorem sends_output {send : Console → Bool × Console}
    (hadvances : m.console.Advances o (send m.console).2)
    (hsucceeds : (send m.console).1 = true ↔ ¬ m.console.Fails o) : Sends (output send) m o := by
  unfold Sends
  rw [output_apply]
  by_cases hfails : m.console.Fails o
  · rw [if_neg (by simpa [hsucceeds] using hfails)]
    exact .inr ⟨hfails, _, rfl⟩
  · rw [if_pos (hsucceeds.2 hfails)]
    exact .inl ⟨hfails, _, _, rfl, hadvances⟩

end Sends

theorem sends_write (text : String) (m : Machine) : Sends (write text) m { writes := 1 } :=
  sends_output (m.console.advances_write text) (m.console.write_succeeds_iff text)

theorem sends_startLine (m : Machine) : Sends startLine m { starts := 1 } :=
  sends_output m.console.advances_startLine m.console.startLine_succeeds_iff

theorem sends_writeLine (text : String) (m : Machine) : Sends (writeLine text) m { writes := 2 } :=
  (sends_write text m).bind fun _ m' _ => sends_write "\n" m'

/-- A message: the start of a line, the text and a newline. -/
def messageOutput : Output where
  writes := 2
  starts := 1

theorem sends_writeMessage (message : String) (line : Option UInt16) (m : Machine) :
    Sends (writeMessage message line) m messageOutput := by
  cases line with
  | none => exact (sends_startLine m).bind fun _ m' _ => sends_writeLine _ m'
  | some n => exact (sends_startLine m).bind fun _ m' _ => sends_writeLine _ m'

/-! ## Reports -/

/-- The output of the report of a signal: a message, and before it the sign of a break that comes neither
from `STOP` nor at a prompt. -/
def reportOutput (awaitingInput : Bool) : Signal → Output
  | .error _ => messageOutput
  | .interrupt stop =>
    if !awaitingInput && !stop then { writes := 1 } + messageOutput else messageOutput
  | .fault _ => messageOutput
  | .exit => {}
  | .reset => {}

theorem sends_handleError (e : BasicError) (m : Machine) : Sends (handleError e) m messageOutput :=
  .after rfl ⟨rfl, rfl, rfl, rfl⟩ ((sends_writeMessage _ _ m).modifySession _)

/-- The message of a break. -/
theorem sends_breakReport (stop : Bool) (m : Machine) : Sends (breakReport stop) m messageOutput := by
  -- the message is the same whether or not a place to go on is noted before it
  have hmessage : ∀ (line : Option UInt16) (m : Machine), Sends (do
      writeMessage "Break" line
      modifySession fun s => { s.endExecution with awaitingInput := false }) m messageOutput :=
    fun line m => (sends_writeMessage _ line m).modifySession _
  refine .after rfl ⟨rfl, rfl, rfl, rfl⟩ ?_
  by_cases hcode : m.session.inProgram = true
  · rw [if_pos hcode]
    exact .after rfl ⟨rfl, rfl, rfl, rfl⟩ (hmessage _ _)
  · rw [if_neg hcode]
    exact hmessage _ m

/-- A break: its sign and its message, or the message alone. -/
theorem sends_handleBreak (stop : Bool) (m : Machine) :
    Sends (handleBreak stop) m (reportOutput m.session.awaitingInput (.interrupt stop)) := by
  have hbreak : handleBreak stop m = (if !m.session.awaitingInput && !stop then
      write "^C" >>= fun _ => breakReport stop else breakReport stop) m := rfl
  refine .congr hbreak ?_
  rw [reportOutput]
  by_cases hsign : (!m.session.awaitingInput && !stop) = true
  · rw [if_pos hsign, if_pos hsign]
    exact (sends_write "^C" m).bind fun _ m' _ => sends_breakReport stop m'
  · rw [if_neg hsign, if_neg hsign]
    exact sends_breakReport stop m

/-- The message of a fault. -/
theorem sends_handleFault (message : String) (m : Machine) :
    Sends (handleFault message) m messageOutput :=
  .after rfl ⟨rfl, rfl, rfl, rfl⟩ ((sends_startLine _).bind fun _ m' _ => sends_writeLine _ m')

/-- The report of a signal that is not handed on. -/
theorem sends_report {s : Signal} (hs : s ≠ .exit ∧ s ≠ .reset) (m : Machine) :
    Sends (report s) m (reportOutput m.session.awaitingInput s) := by
  cases s with
  | error e => exact (sends_handleError e m).modifySession _
  | interrupt stop =>
    let m₁ : Machine := { m with console := m.console.note .stopSound }
    have hbreak : Sends (handleBreak stop) m₁ (reportOutput m.session.awaitingInput (.interrupt stop)) :=
      sends_handleBreak stop m₁
    exact .after rfl ⟨rfl, rfl, rfl, rfl⟩ (hbreak.modifySession _)
  | fault message => exact sends_handleFault message m
  | exit => exact absurd rfl hs.1
  | reset => exact absurd rfl hs.2

/-- A report hands on a request to leave or to start anew, succeeds, or ends with the fault of the
console. -/
theorem quits_of_report (s : Signal) (m : Machine) :
    ∃ outcome m', once (report s) m = some (outcome, m') ∧
      (Quits outcome ↔ ¬ m.console.Fails (reportOutput m.session.awaitingInput s)) ∧
      (¬ Quits outcome → outcome = .error (.fault "write failed")) := by
  by_cases hs : s ≠ .exit ∧ s ≠ .reset
  · obtain ⟨hsent, ⟨⟩, m', hok, -⟩ | ⟨hsent, m', herror⟩ := sends_report hs m
    · exact ⟨.ok (), m', by simp only [once, hok], iff_of_true .done hsent,
        fun h => absurd .done h⟩
    · refine ⟨_, m', by simp only [once, herror], iff_of_false ?_ (not_not_intro hsent),
        fun _ => rfl⟩
      rintro ⟨⟩
  · obtain rfl | rfl : s = .exit ∨ s = .reset := by
      simpa [Classical.or_iff_not_imp_left] using hs
    · exact ⟨_, m, rfl, iff_of_true .exit m.console.not_fails_nothing, fun h => absurd .exit h⟩
    · exact ⟨_, m, rfl, iff_of_true .reset m.console.not_fails_nothing, fun h => absurd .reset h⟩

/-! ## Cycles -/

/-- A cycle that returns does so with success, or with a request to leave or to start anew, exactly if the
console does not fail in the report of the signal that ended its passes, neither at the start of a line nor
at a write.  If it does, its fault is the outcome. -/
theorem cycle_quits_iff {e : Engine} {fuel : Nat} {m m' : Machine} {outcome : Except Signal Unit}
    (h : cycle e fuel m = some (outcome, m')) :
    (Quits outcome ↔ ∀ s m₁, settle e fuel m = some (.error s, m₁) →
      ¬ m₁.console.Fails (reportOutput m₁.session.awaitingInput s)) ∧
    (¬ Quits outcome → outcome = .error (.fault "write failed")) := by
  unfold cycle at h
  rw [Loop.tryCatch_apply] at h
  cases hsettle : settle e fuel m with
  | none =>
    rw [hsettle] at h
    cases h
  | some result =>
    obtain ⟨settled, m₁⟩ := result
    rw [hsettle] at h
    cases settled with
    | ok _ =>
      cases h
      refine ⟨iff_of_true .done ?_, fun h => absurd .done h⟩
      rintro s m₁ ⟨⟩
    | error s =>
      obtain ⟨reported, m₂, hreport, hquits, hfault⟩ := quits_of_report s m₁
      cases hreport.symm.trans h
      refine ⟨hquits.trans ⟨?_, fun h => h s m₁ rfl⟩, hfault⟩
      rintro hsent s' m₁' ⟨⟩
      exact hsent

/-- Whether a loop ends with a signal, and signal and machine pass a test. -/
def raises (x : LoopM Unit) (m : Machine) (test : Signal → Machine → Bool) : Bool :=
  match x m with
  | some (.error s, m') => test s m'
  | _ => false

theorem exists_of_raises {x : LoopM Unit} {m : Machine} {test : Signal → Machine → Bool}
    (h : raises x m test = true) : ∃ s m', x m = some (.error s, m') ∧ test s m' = true := by
  unfold raises at h
  split at h
  · exact ⟨_, _, by assumption, h⟩
  · cases h

/-- The first start of a line, that of the prompt, fails, and so do the third and the third write. -/
def failingPrompt : Machine where
  console := { failing := [3], failingStarts := [1, 3] }

/-- The fault of the prompt is reported, and the cycle succeeds. -/
theorem failingPrompt_quits :
    ∃ m₁ outcome m', settle .standard 2 failingPrompt = some (.error (.fault "write failed"), m₁) ∧
      cycle .standard 2 failingPrompt = some (outcome, m') ∧ Quits outcome := by
  obtain ⟨s, m₁, hsettle, htest⟩ := @exists_of_raises (settle .standard 2) failingPrompt
    (fun s m => s = .fault "write failed" ∧
      ¬ m.console.Fails (reportOutput m.session.awaitingInput s)) (by decide +kernel)
  obtain ⟨rfl, hsent⟩ := of_decide_eq_true htest
  obtain ⟨⟨outcome, m'⟩, hcycle⟩ := Option.isSome_iff_exists.1
    (show (cycle .standard 2 failingPrompt).isSome = true by decide +kernel)
  refine ⟨m₁, outcome, m', hsettle, hcycle, (cycle_quits_iff hcycle).1.2 ?_⟩
  intro s' m₁' hsettle'
  cases hsettle.symm.trans hsettle'
  exact hsent

/-- The operator raises an error, and the third write, that of its message, fails. -/
def failingReport : Machine where
  console := { failing := [3], input := [.typed "ERROR 5"] }

/-- The fault leaves the cycle. -/
theorem failingReport_faults :
    ∃ m', cycle .standard 4 failingReport = some (.error (.fault "write failed"), m') := by
  obtain ⟨s, m', hcycle, htest⟩ := @exists_of_raises (cycle .standard 4) failingReport
    (fun s _ => s = .fault "write failed") (by decide +kernel)
  obtain rfl := of_decide_eq_true htest
  exact ⟨m', hcycle⟩

end Machine

end LineBasic

import LineBasic.Proofs.Machine.Statement
import LineBasic.Proofs.Statement.Extent

/-!
# Statements that are malformed

A statement is read whole before anything is done, with two exceptions: `CLOSE` closes files as it
reads their numbers, and `ON TIMER` starts the timer before it reads where to go.

* `Machine.Raises`: a computation whose errors are conditions of a kind and nothing more.
* `Statement.raises_execute`, `Statement.avoidsSyntax_execute`: executing a statement is such a thing, and raises
  no syntax error, but for `ERROR`, `ON ERROR GOTO 0` and the two exceptions.
* `Statement.early`: what a malformed statement has done by the time it fails.
* `Machine.malformed_unchanged_iff`: a syntax error changes nothing unless one of the two exceptions
  had something to do.
-/

namespace LineBasic

/-! ## Conditions -/

namespace Machine

variable {α β : Type}

/-- A computation whose errors are conditions of a kind, without a place.  Signals that are not errors may
be of any kind. -/
def Raises (kind : ErrorCode → Prop) (x : MachineM α) : Prop :=
  ∀ ⦃m e m'⦄, x m = .error (.error e) m' → ∃ code, kind code ∧ e = .of code

/-- A computation that raises no syntax error. -/
def AvoidsSyntax (x : MachineM α) : Prop :=
  ∀ ⦃m e m'⦄, x m = .error (.error e) m' → e.isSyntax = false

namespace Raises

variable {kind : ErrorCode → Prop}

theorem pure (a : α) : Raises kind (pure a : MachineM α) := by
  intro m e m' h
  cases h

theorem get : Raises kind (get : MachineM Machine) := by
  intro m e m' h
  cases h

theorem set (m₀ : Machine) : Raises kind (set m₀ : MachineM PUnit) := by
  intro m e m' h
  cases h

theorem modifySession (f : Session → Session) : Raises kind (modifySession f) := by
  intro m e m' h
  cases h

theorem throw {signal : Signal}
    (hsignal : ∀ e, signal = .error e → ∃ code, kind code ∧ e = .of code) :
    Raises kind (throw signal : MachineM α) := by
  intro m e m' h
  cases h
  exact hsignal e rfl

theorem raise {code : ErrorCode} (hcode : kind code) :
    Raises kind (MonadExcept.throw (.raise code) : MachineM α) := by
  refine .throw fun e h => ?_
  cases h
  exact ⟨code, hcode, rfl⟩

theorem bind {x : MachineM α} {f : α → MachineM β} (hx : Raises kind x)
    (hf : ∀ a, Raises kind (f a)) : Raises kind (x >>= f) := by
  intro m e m' h
  rw [Effect.bind_apply] at h
  split at h
  · exact hf _ h
  · rename_i signal m₁ herror
    cases h
    exact hx herror

theorem ite {c : Prop} [Decidable c] {x y : MachineM α} (hx : Raises kind x)
    (hy : Raises kind y) : Raises kind (if c then x else y) := by
  split
  · exact hx
  · exact hy

theorem ofExcept {x : Except BasicError α} (hx : LineBasic.Raises kind x) :
    Raises kind (ofExcept x : MachineM α) := by
  intro m e m' h
  cases x with
  | ok a => cases h
  | error e' =>
    cases h
    exact hx _ rfl

theorem onSession {f : SessionM Unit}
    (hf : ∀ ⦃s e s'⦄, f s = .error e s' → ∃ code, kind code ∧ e = .of code) :
    Raises kind (onSession f) := by
  intro m e m' h
  unfold Machine.onSession at h
  split at h <;> cases h
  exact hf (by assumption)

theorem of_shows {x : MachineM α} (hx : Shows x) : Raises kind x := by
  intro m e m' h
  obtain ⟨console, ⟨a, hok⟩ | hfault⟩ := hx m
  · simp [hok] at h
  · simp [hfault] at h

end Raises

end Machine

/-! ## Files and the timer -/

namespace FileTable

/-- Closing files one by one takes all their numbers out of the table. -/
theorem files_foldl_close (numbers : List UInt8) (t : FileTable) :
    (numbers.foldl close t).files = t.files.filter fun f => f.1 ∉ numbers := by
  induction numbers generalizing t with
  | nil => simp
  | cons number rest ih =>
    rw [List.foldl_cons, ih, close, List.filter_filter]
    refine List.filter_congr fun f _ => ?_
    simp [Bool.and_comm]

/-- Closing does nothing only if nothing was open. -/
theorem foldl_close_eq_self_iff {numbers : List UInt8} {t : FileTable} :
    numbers.foldl close t = t ↔ ∀ number ∈ numbers, t.get? number = none := by
  have hfiles : numbers.foldl close t = t ↔ (numbers.foldl close t).files = t.files := by
    constructor
    · exact congrArg files
    · cases t
      intro h
      cases hclosed : numbers.foldl close _
      simp_all
  rw [hfiles, files_foldl_close, List.filter_eq_self]
  simp only [get?, List.lookup_eq_none_iff, decide_eq_true_eq, bne_iff_ne]
  constructor
  · rintro h number hnumber f hf rfl
    exact h f hf hnumber
  · intro h f hf hnumber
    exact h f.1 hnumber f hf rfl

end FileTable

/-- Setting the timer changes nothing exactly if it has that period and was set at that time. -/
theorem EventTable.setTimer_eq_self_iff {t : EventTable} {seconds : Nat} {now : Int64} :
    t.setTimer seconds now = t ↔
      t.timerPeriod = some (Int64.ofNat seconds * 1000) ∧ t.timerStart = now := by
  cases t
  simp [setTimer, eq_comm]

namespace Statement

open Machine

/-- A handler at a line is installed without a syntax error. -/
theorem raises_installErrorHandler {line : UInt16} (hline : line ≠ 0) :
    Machine.Raises (· ≠ .syntaxError) (installErrorHandler line) := by
  have hset : Machine.Raises (· ≠ .syntaxError)
      (onSession (Session.setErrorHandler (some line))) := by
    refine .onSession fun s e s' h => ?_
    simp [Session.setErrorHandler_apply, hline] at h
  exact Machine.Raises.get.bind fun m => .ite (.bind (.raise (by decide)) fun _ => hset) hset

/-- Statements raise conditions without a place when they are executed, and no syntax errors, if they
are told apart from those that raise an error of choice, raise the last one again, or are malformed. -/
theorem raises_execute {st : Statement} (hformed : st.isMalformed = false)
    (hraise : ∀ code, st ≠ .raise code) (hagain : st ≠ .onError 0) :
    Machine.Raises (· ≠ .syntaxError) st.execute := by
  have hflow (op : FlowOperation) :
      Machine.Raises (· ≠ .syntaxError) (do onSession op.perform; return true) :=
    .bind (.onSession fun _ _ _ h => op.exists_of_perform h) fun _ => .pure true
  have hsession (f : Session → Session) (more : Bool) :
      Machine.Raises (· ≠ .syntaxError) (do modifySession f; return more) :=
    .bind (.modifySession f) fun _ => .pure more
  cases st with
  | nothing | comment => exact .pure true
  | goto line => exact hflow (.jump (some line))
  | gosub line => exact hflow (.call line none)
  | returnTo line => exact hflow (.back line)
  | cont => exact hflow .cont
  | resume target => exact hflow (.resume target)
  | run line => exact .bind (.modifySession _) fun _ => hflow (.jump line)
  | endProgram => exact hsession _ false
  | new => exact hsession _ false
  | clear => exact hsession _ true
  | onKey key line => exact hsession _ true
  | trapCommand kind command => exact hsession _ true
  | trace on => exact hsession _ true
  | closeAll => exact hsession _ true
  | stop => exact .throw fun e h => by cases h
  | system => exact .throw fun e h => by cases h
  | raise code => exact absurd rfl (hraise code)
  | assign name value =>
    exact .bind (.bind .get fun m => .bind (.ofExcept (m.session.vars.raises_store name value))
      fun _ => .modifySession _) fun _ => .pure true
  | print file text =>
    cases file with
    | none => exact .bind (.of_shows (shows_write text)) fun _ => .pure true
    | some number =>
      exact .bind (.bind .get fun m =>
        .bind (.ofExcept (m.session.files.raises_write m.disk number text)) fun _ => .set _)
        fun _ => .pure true
  | openFile name mode number =>
    exact .bind (.bind .get fun m =>
      .bind (.ofExcept (m.session.files.raises_open m.disk number name mode)) fun _ => .set _)
      fun _ => .pure true
  | list first last =>
    exact .bind .get fun m =>
      .bind (.of_shows (shows_writeLines (m.session.program.listing first last)))
        fun _ => .pure true
  | auto line increment =>
    exact .bind (.bind .get fun m =>
      .ite (.bind (.raise (by decide)) fun _ => .modifySession _) (.modifySession _)) fun _ => .pure true
  | edit line =>
    refine .bind (.bind .get fun m => ?_) fun _ => .pure false
    split
    · exact .raise (by decide)
    · exact .modifySession _
  | delete first last =>
    exact .bind .get fun m =>
      .bind (.ofExcept (m.session.program.raises_deleteRange first last))
        fun _ => hsession _ false
  | onError line =>
    have hline : line ≠ 0 := fun hline => hagain (congrArg onError hline)
    exact .bind (raises_installErrorHandler hline) fun _ => .pure true
  | onTimer seconds line =>
    cases line with
    | error e => cases hformed
    | ok line =>
      exact .bind .get fun m => .bind (.modifySession _) fun _ =>
        .bind (.ofExcept (.ok line)) fun _ => hsession _ true
  | closeFiles numbers rest =>
    cases rest with
    | error e => cases hformed
    | ok => exact .bind (.modifySession _) fun _ => .bind (.ofExcept (.ok _)) fun _ => .pure true

/-- With `ERROR`, there may be a syntax error if the statement asks for one. -/
theorem exists_of_execute {st : Statement} {m m' : Machine} {e : BasicError}
    (hformed : st.isMalformed = false) (hagain : st ≠ .onError 0)
    (h : st.execute m = .error (.error e) m') :
    ∃ code, (code = .syntaxError → st = .raise .syntaxError) ∧ e = .of code := by
  by_cases hchoice : ∃ code, st = .raise code
  · obtain ⟨code, rfl⟩ := hchoice
    cases h
    exact ⟨code, congrArg raise, rfl⟩
  · obtain ⟨code, hcode, rfl⟩ := raises_execute hformed (not_exists.1 hchoice) hagain h
    exact ⟨code, fun hkind => absurd hkind hcode, rfl⟩

/-- A well formed statement raises no syntax error, apart from `ERROR` and `ON ERROR GOTO 0`. -/
theorem avoidsSyntax_execute {st : Statement} (hformed : st.isMalformed = false)
    (hraise : st ≠ .raise .syntaxError) (hagain : st ≠ .onError 0) : AvoidsSyntax st.execute := by
  intro m e m' h
  obtain ⟨code, hcode, rfl⟩ := exists_of_execute hformed hagain h
  exact decide_eq_false fun hkind => hraise (hcode hkind)

/-! ## What a malformed statement does -/

/-- What a malformed statement has done to a session by the time it fails. -/
def early (now : Int64) (s : Session) : Statement → Session
  | onTimer seconds (.error _) => { s with events := s.events.setTimer seconds now }
  | closeFiles numbers (.error _) => { s with files := numbers.foldl FileTable.close s.files }
  | _ => s

/-- A malformed statement acts up to its flaw, and fails there. -/
theorem execute_of_flaw? {st : Statement} {e : BasicError} (h : st.flaw? = some e) (m : Machine) :
    st.execute m = .error (.error e) { m with session := st.early m.clock m.session } := by
  unfold flaw? at h
  split at h <;> cases h
  · rfl
  · rfl

theorem execute_of_isMalformed {st : Statement} (h : st.isMalformed = true) (m : Machine) :
    ∃ e, st.execute m = .error (.error e) { m with session := st.early m.clock m.session } := by
  rw [isMalformed_eq_isSome] at h
  obtain ⟨e, he⟩ := Option.isSome_iff_exists.1 h
  exact ⟨e, execute_of_flaw? he m⟩

/-- A malformed statement has something to do before it fails: files to close or a timer to start. -/
def ActsEarly (now : Int64) (s : Session) : Statement → Prop
  | onTimer seconds (.error _) =>
    ¬ (s.events.timerPeriod = some (Int64.ofNat seconds * 1000) ∧ s.events.timerStart = now)
  | closeFiles numbers (.error _) => ∃ number ∈ numbers, s.files.get? number ≠ none
  | _ => False

/-- It does nothing to anything else. -/
theorem early_eq (now : Int64) (s : Session) (st : Statement) :
    st.early now s =
      { s with files := (st.early now s).files, events := (st.early now s).events } := by
  unfold early
  split <;> rfl

theorem early_events (now : Int64) (s : Session) (st : Statement) :
    (st.early now s).events =
      { s.events with
        timerPeriod := (st.early now s).events.timerPeriod
        timerStart := (st.early now s).events.timerStart } := by
  unfold early
  split <;> rfl

/-- Files and events stay as they are exactly if the statement does not act early. -/
theorem early_eq_self_iff {now : Int64} {s : Session} {st : Statement} :
    (st.early now s).files = s.files ∧ (st.early now s).events = s.events ↔
      ¬ st.ActsEarly now s := by
  unfold early ActsEarly
  split
  · simp [EventTable.setTimer_eq_self_iff]
  · simp [FileTable.foldl_close_eq_self_iff]
  · simp

end Statement

namespace Session

@[simp] theorem moveTo_files (s : Session) (pos : Nat) : (s.moveTo pos).files = s.files := by
  unfold moveTo
  split <;> rfl

@[simp] theorem moveTo_events (s : Session) (pos : Nat) : (s.moveTo pos).events = s.events := by
  unfold moveTo
  split <;> rfl

end Session

namespace Machine

@[simp] theorem reading_files (m : Machine) (pos : Nat) (console : Console) :
    (m.reading pos console).session.files = m.session.files := by
  simp [reading]

@[simp] theorem reading_events (m : Machine) (pos : Nat) (console : Console) :
    (m.reading pos console).session.events = m.session.events := by
  simp [reading]

theorem actsEarly_reading {m : Machine} {pos : Nat} {console : Console} {st : Statement} :
    st.ActsEarly m.clock (m.reading pos console).session ↔ st.ActsEarly m.clock m.session := by
  unfold Statement.ActsEarly
  simp only [reading_files, reading_events]

/-- A statement that can only have changed files and events has changed nothing if it has not
changed those. -/
theorem eq_reading_iff {m m' : Machine} {pos : Nat} {console : Console} {s : Session}
    (hm' : m' = { m.reading pos console with session := s })
    (hs : s = { (m.reading pos console).session with files := s.files, events := s.events }) :
    (∃ pos console, m' = m.reading pos console) ↔
      s.files = m.session.files ∧ s.events = m.session.events := by
  constructor
  · rintro ⟨pos', console', heq⟩
    have hsession : s = (m.reading pos' console').session := by
      rw [← heq, hm']
    rw [hsession]
    exact ⟨reading_files m pos' console', reading_events m pos' console'⟩
  · rintro ⟨hfiles, hevents⟩
    refine ⟨pos, console, ?_⟩
    rw [hm', hs, hfiles, hevents, ← reading_files m pos console, ← reading_events m pos console]

/-- A syntax error that `ERROR` or `ON ERROR GOTO 0` has not raised leaves everything as it was but
the place in the code, the files and the timer; those too unless `CLOSE` had files to close or
`ON TIMER` a timer to start before the rest of it turned out to be malformed. -/
theorem malformed_unchanged_iff {m m' : Machine} {e : BasicError}
    (h : statement m = .error (.error e) m') (hkind : e.isSyntax = true)
    (hraise : ¬ m.Upcoming (.raise .syntaxError)) (hagain : ¬ m.Upcoming (.onError 0)) :
    (∃ pos console files events,
      m' = { m.reading pos console with
        session := { (m.reading pos console).session with files, events } } ∧
      events = { m.session.events with
        timerPeriod := events.timerPeriod, timerStart := events.timerStart }) ∧
    ((∃ pos console, m' = m.reading pos console) ↔
      ¬ ∃ st, m.Upcoming st ∧ st.ActsEarly m.clock m.session) := by
  obtain ⟨pos, console, ⟨rfl, hfault⟩ | ⟨st, hst, hexecute⟩⟩ := statement_error_cases h
  · -- the statement was not read
    have hnone : ¬ ∃ st, m.Upcoming st ∧ st.ActsEarly m.clock m.session := by
      rintro ⟨st, hst, -⟩
      obtain ⟨message, hmessage⟩ := hfault st hst
      cases hmessage
    refine ⟨⟨pos, console, m.session.files, m.session.events, ?_, rfl⟩, fun _ => hnone,
      fun _ => ⟨pos, console, rfl⟩⟩
    rw [← reading_files m pos console, ← reading_events m pos console]
  · -- the statement was read, and failed when it was executed
    have hmalformed : st.isMalformed = true := by
      by_contra hformed
      have havoids := Statement.avoidsSyntax_execute (Bool.eq_false_iff.2 hformed)
        (fun hst' => hraise (hst' ▸ hst)) (fun hst' => hagain (hst' ▸ hst)) hexecute
      rw [hkind] at havoids
      cases havoids
    obtain ⟨e', herror⟩ := Statement.execute_of_isMalformed hmalformed (m.reading pos console)
    rw [hexecute] at herror
    cases herror
    have hearly := Statement.early_eq m.clock (m.reading pos console).session st
    have hevents := Statement.early_events m.clock (m.reading pos console).session st
    rw [reading_events] at hevents
    have hacts : (∃ st, m.Upcoming st ∧ st.ActsEarly m.clock m.session) ↔
        st.ActsEarly m.clock (m.reading pos console).session := by
      rw [actsEarly_reading]
      constructor
      · rintro ⟨st', hst', hacts⟩
        rwa [hst.unique hst']
      · exact fun hacts => ⟨st, hst, hacts⟩
    refine ⟨⟨pos, console, _, _,
      congrArg (fun s => { m.reading pos console with session := s }) hearly, hevents⟩, ?_⟩
    rw [hacts, ← Statement.early_eq_self_iff, reading_files, reading_events]
    exact eq_reading_iff rfl hearly

/-- A machine with a file open and a line to run. -/
def filing (line : List UInt8) : Machine where
  session :=
    { direct := { bytes := line }
      mode := .executing
      files :=
        { files := [(1, ⟨"a", .output, .file 0 0⟩)], ascending := List.pairwise_singleton _ _ } }

/-- `GOTO` without a line leaves the file open. -/
theorem malformed_goto_unchanged :
    ∃ m', statement (filing [0x89, 0x00]) = .error (.raise .syntaxError) m' ∧
      ∃ pos console, m' = (filing [0x89, 0x00]).reading pos console := by
  have hfails : statement (filing [0x89, 0x00]) =
      .error (.raise .syntaxError) ((filing [0x89, 0x00]).reading 1 {}) := rfl
  have hnone (st : Statement) : ¬ (filing [0x89, 0x00]).Upcoming st := by
    rintro ⟨before, after, b, hb, -, hst⟩
    cases hb
    cases hst
  exact ⟨_, hfails, (malformed_unchanged_iff hfails rfl (hnone _) (hnone _)).2.2
    fun ⟨st, hst, _⟩ => hnone st hst⟩

/-- `CLOSE 1 2` is malformed, and has closed the file. -/
theorem malformed_close_closes :
    ∃ m', statement (filing [0xFE, 0x82, 0x20, 0x12, 0x20, 0x13, 0x00]) =
        .error (.raise .syntaxError) m' ∧ m'.session.files.get? 1 = none :=
  ⟨_, rfl, rfl⟩

end Machine

end LineBasic

import LineBasic.Proofs.Machine.Change
import LineBasic.Proofs.Snapshot.Session

/-!
# A firm footing

Two things that every operation of a machine upholds.  A console that shows what it is sent goes on to do
so, and the place in the program stays in its image.

* `Console.Works`: nothing to come fails.
* `Program.InRange`: the place is in the image, or at its end.
* `Machine.Says`: operations that show something, and succeed on a console that works.
* `Machine.Upholding`: operations that uphold both, whether they succeed or fail.
* `Moment.upholds_next`, `Moment.upholds_moment`: so does every operation of a run.
* `EventSource.Silent`: sources of events that leave the console alone.
-/

namespace LineBasic

open Effect

/-! ## Consoles -/

namespace Console

/-- No write to come fails, and no start of a line. -/
def Works (c : Console) : Prop :=
  (∀ n ∈ c.failing, n ≤ c.writes) ∧ ∀ n ∈ c.failingStarts, n ≤ c.starts

variable {c : Console}

/-- A console on which nothing is to fail works. -/
theorem works_of_nil (hwrites : c.failing = []) (hstarts : c.failingStarts = []) : c.Works := by
  simp [Works, hwrites, hstarts]

theorem Works.emit (h : c.Works) (text : String) : (c.emit text).Works := by
  unfold Console.emit
  split
  · exact h
  · split <;> exact h

/-- A console that works has no failure at the number that is counted next. -/
theorem contains_next {failing : List Nat} {count : Nat} (h : ∀ n ∈ failing, n ≤ count) :
    ¬ failing.contains (count + 1) = true := by
  intro hfails
  have hle := h _ (List.contains_iff_mem.1 hfails)
  omega

/-- On a console that works a line is started. -/
theorem Works.startLine (h : c.Works) : c.startLine.1 = true ∧ c.startLine.2.Works := by
  have hcounted : Works { c with starts := c.starts + 1 } :=
    ⟨h.1, fun n hn => Nat.le_succ_of_le (h.2 n hn)⟩
  unfold Console.startLine
  dsimp only
  rw [if_neg (contains_next h.2)]
  split
  · exact ⟨rfl, hcounted.emit "\n"⟩
  · exact ⟨rfl, hcounted⟩

theorem Works.readLine (h : c.Works) (offered : String) (cursor : Nat) :
    (c.readLine offered cursor).2.Works := by
  unfold Console.readLine
  cases c.input with
  | nil => exact h
  | cons reply rest => cases reply <;> exact h

/-- A write on a console that works succeeds. -/
theorem Works.write (h : c.Works) (text : String) :
    (c.write text).1 = true ∧ (c.write text).2.Works := by
  have hcounted : Works { c with writes := c.writes + 1 } :=
    ⟨fun n hn => Nat.le_succ_of_le (h.1 n hn), h.2⟩
  unfold Console.write
  dsimp only
  rw [if_neg (contains_next h.1)]
  exact ⟨rfl, hcounted.emit text⟩

end Console

/-! ## Places in the program -/

namespace Program

/-- The place is in the image, or at its end. -/
def InRange (p : Program) : Prop :=
  p.pos ≤ p.image.length

/-- A program made of lines is in range, at its start. -/
theorem inRange_of_ofLines {lines : List Line} {ascending : Ascending lines} {p : Program}
    (h : ofLines lines ascending = .ok p) : p.InRange := by
  unfold ofLines at h
  dsimp only at h
  split at h
  · cases h
    exact Nat.zero_le _
  · cases h

theorem inRange_of_store {p q : Program} {code : List UInt8} (h : p.store code = .ok q) :
    q.InRange := by
  unfold store at h
  split at h
  · split at h
    · exact inRange_of_ofLines h
    · cases h
  · cases h

theorem inRange_of_delete {p q : Program} {number : UInt16} (h : p.delete number = .ok q) :
    q.InRange := by
  unfold delete at h
  split at h
  · exact inRange_of_ofLines h
  · cases h

theorem inRange_of_deleteRange {p q : Program} {first last : Option UInt16}
    (h : p.deleteRange first last = .ok q) : q.InRange := by
  unfold deleteRange at h
  split at h
  · exact inRange_of_ofLines h
  · cases h

/-- A line that is entered leaves the program in range, whether it is stored, deleted or ignored. -/
theorem InRange.enter {p q : Program} {code : List UInt8} (hp : p.InRange)
    (h : p.enter code = .ok q) : q.InRange := by
  unfold Program.enter at h
  split at h
  · split at h
    · cases h
    · split at h
      · exact inRange_of_store h
      · split at h
        · exact inRange_of_delete h
        · cases h
          exact hp
  · cases h

theorem InRange.loadLine {p q : Program} {bytes : List UInt8} (hp : p.InRange)
    (h : p.loadLine bytes = .ok q) : q.InRange := by
  unfold Program.loadLine at h
  split at h
  · cases h
  · split at h
    · cases h
      exact hp
    · exact hp.enter h

/-- So do any number of lines of text, one after the other. -/
theorem InRange.loadLines {p q : Program} {texts : List (List UInt8)} (hp : p.InRange)
    (h : texts.foldlM Program.loadLine p = .ok q) : q.InRange := by
  induction texts generalizing p with
  | nil =>
    cases h
    exact hp
  | cons text rest ih =>
    rw [List.foldlM_cons] at h
    cases hline : p.loadLine text with
    | error e =>
      rw [hline] at h
      cases h
    | ok p₁ =>
      rw [hline] at h
      exact ih (hp.loadLine hline) h

theorem inRange_of_load {bytes : List UInt8} {p : Program} (h : load bytes = .ok p) : p.InRange :=
  InRange.loadLines (p := empty) (Nat.zero_le _) h

end Program

namespace Decoder

/-- Everything that a decoder reads has a property. -/
def Yields {α : Type} (read : Decoder α) (P : α → Prop) : Prop :=
  ∀ code a rest, read.run code = some (a, rest) → P a

variable {α β : Type} {read : Decoder α}

theorem Yields.bind {f : α → Decoder β} {P : α → Prop} {Q : β → Prop} (h : Yields read P)
    (hf : ∀ a, P a → Yields (f a) Q) : Yields (read >>= f) Q := by
  intro code b rest hb
  rw [StateT.run_bind] at hb
  cases hread : read.run code with
  | none =>
    rw [hread] at hb
    cases hb
  | some first =>
    rw [hread] at hb
    exact hf first.1 (h code first.1 first.2 hread) first.2 b rest hb

/-- A part that does not matter. -/
theorem Yields.skip {f : α → Decoder β} {Q : β → Prop} (hf : ∀ a, Yields (f a) Q) :
    Yields (read >>= f) Q :=
  Yields.bind (P := fun _ => True) (fun _ _ _ _ => trivial) fun a _ => hf a

theorem Yields.pure {P : α → Prop} {a : α} (h : P a) : Yields (pure a) P := by
  rintro code b rest ⟨⟩
  exact h

/-- A program that is read from its image stands in it, wherever it was saved. -/
theorem yields_program : Yields program Program.InRange := by
  refine .skip fun s => ?_
  intro code p rest hp
  cases hscan : Program.ofStream s with
  | error e =>
    simp only [hscan] at hp
    cases hp
  | ok q =>
    simp only [hscan] at hp
    cases hp
    rw [Program.InRange, pos_of_ofStream hscan]
    exact Nat.min_le_right _ _

/-- So does the program of a session that is read. -/
theorem yields_sessionBeforeFiles : Yields sessionBeforeFiles fun s => s.program.InRange := by
  refine yields_program.bind fun p hp => ?_
  repeat refine .skip fun _ => ?_
  exact .pure hp

end Decoder

namespace Session

/-- The place in the program stays in range. -/
def Upholds (s s' : Session) : Prop :=
  s.program.InRange → s'.program.InRange

theorem Upholds.trans {s s₁ s₂ : Session} (h : s.Upholds s₁) (h' : s₁.Upholds s₂) : s.Upholds s₂ :=
  fun hs => h' (h hs)

theorem upholds_of_eq {s s' : Session} (h : s'.program = s.program) : s.Upholds s' := by
  intro hs
  rw [h]
  exact hs

/-- Wherever the pointer is put, the program stays in range. -/
theorem upholds_setPointer (s : Session) (inProgram : Bool) (pos : Option Nat) :
    s.Upholds (s.setPointer inProgram pos) := by
  intro hs
  cases inProgram with
  | true => exact Nat.min_le_right _ _
  | false => exact hs

/-- Scanning does not go beyond the end of the code. -/
theorem upholds_scanned (s : Session) (n : Nat) :
    s.Upholds (s.moveTo (s.stream.pos + (s.stream.rest.length - n))) := by
  intro hs
  cases hcode : s.inProgram with
  | true =>
    have hstream : s.stream = s.program.stream := stream_of_inProgram hcode
    have hmove : ∀ pos, (s.moveTo pos).program = { s.program with pos } := by simp [moveTo, hcode]
    have hs : s.program.stream.pos ≤ s.program.stream.bytes.length := hs
    rw [hmove, Program.InRange, hstream, CodeStream.rest, List.length_drop]
    show s.program.stream.pos + _ ≤ s.program.stream.bytes.length
    omega
  | false =>
    have hmove : ∀ pos, (s.moveTo pos).program = s.program := by simp [moveTo, hcode]
    rw [hmove]
    exact hs

/-- A scan goes forward and stops at the end of the code. -/
theorem upholds_scan {α : Type} (p : Scanner α) (s : Session) : s.Upholds (left (scan p s)) := by
  rw [scan_apply]
  cases p s.stream.rest with
  | ok a rest => exact upholds_scanned s rest.length
  | error e rest => exact upholds_scanned s rest.length

theorem upholds_jump (line : Option UInt16) (s : Session) : s.Upholds (left (jump line s)) := by
  rw [jump_apply]
  cases s.target? line with
  | none => exact id
  | some pos => exact upholds_setPointer s true (some pos)

theorem upholds_call (line : UInt16) (handler : Option EventKind) (s : Session) :
    s.Upholds (left (call line handler s)) := by
  obtain ⟨e, hfail⟩ | ⟨gosub, pos, -, -, hcall⟩ := call_apply line handler s
  · rw [hfail]
    exact id
  · rw [hcall]
    exact upholds_setPointer { s with gosub } true (some pos)

theorem upholds_return (line : Option UInt16) (s : Session) :
    s.Upholds (left (Session.return line s)) := by
  rw [return_apply]
  cases s.gosub.items with
  | nil => exact id
  | cons frame rest =>
    cases line with
    | none => exact upholds_setPointer (s.popped frame rest) _ _
    | some line => exact upholds_jump (some line) (s.popped frame rest)

theorem upholds_cont (s : Session) : s.Upholds (left (cont s)) := by
  rw [cont_apply]
  cases s.stop with
  | none => exact id
  | some pos => exact upholds_setPointer s true (some pos)

theorem upholds_resume (target : ResumeTarget) (s : Session) :
    s.Upholds (left (resume target s)) := by
  rw [resume_apply]
  cases s.trap.active with
  | none => exact id
  | some context =>
    have hback := upholds_setPointer s.resumed context.inProgram (some context.statement)
    cases target with
    | statement => exact hback
    | next => exact hback.trans (upholds_scanned _ _)
    | line number => exact upholds_jump (some number) s.resumed

theorem upholds_setErrorHandler (line : UInt16) (s : Session) :
    s.Upholds (left (setErrorHandler (some line) s)) := by
  rw [setErrorHandler_apply]
  split <;> exact id

/-- An error goes to the start of a line, or changes no place. -/
theorem upholds_trapError (e : BasicError) (s : Session) : s.Upholds (left (trapError e s)) := by
  obtain hleft | ⟨offset, hleft⟩ := left_trapError_cases e s
  · rw [hleft]
    exact id
  · rw [hleft]
    exact upholds_setPointer (s.noted e) true (some offset)

/-- An event goes to the start of a line, or changes no place. -/
theorem upholds_dispatchEvent (s : Session) : s.Upholds (left (dispatchEvent s)) := by
  -- the state of a trap is no part of the program
  have hstate : ∀ kind state, Always Upholds (modify (setEventState kind state) : SessionM Unit) :=
    fun _ _ _ => id
  unfold dispatchEvent
  simp only [bind_apply, get_apply, Effect.ite_apply]
  split
  · exact id
  · cases s.events.nextReady? with
    | none => exact id
    | some due =>
      obtain ⟨kind, line⟩ := due
      have hcall : Always Upholds (do
          call line (some kind)
          modify (setEventState kind .handlerActive) : SessionM Unit) :=
        Always.bind (upholds_call line (some kind)) (fun _ => hstate _ _) (fun _ _ => id)
          fun _ _ _ => Upholds.trans
      simp only [bind_apply, set_apply]
      refine Always.recover hcall (fun e => ?_) (fun _ _ => id) (fun _ _ _ => Upholds.trans)
        { s with events := s.events.modify kind fun d =>
          { d with triggered := false, state := .dispatching } }
      exact Always.bind (hstate _ _) (fun _ _ => id) (fun _ _ => id) fun _ _ _ => Upholds.trans

end Session

namespace Machine

/-! ## Operations that only show something -/

/-- An operation that shows something and does nothing else.  On a console that works it succeeds. -/
def Says {α : Type} (x : MachineM α) : Prop :=
  ∀ m : Machine, m.console.Works → ∃ a console, console.Works ∧ x m = .ok a { m with console }

section Says

variable {α β : Type} {x : MachineM α} {f : α → MachineM β}

theorem Says.pure (a : α) : Says (pure a : MachineM α) :=
  fun m h => ⟨a, m.console, h, rfl⟩

/-- One output after another. -/
theorem Says.bind (hx : Says x) (hf : ∀ a, Says (f a)) : Says (x >>= f) := by
  intro m h
  obtain ⟨a, console, hconsole, ha⟩ := hx m h
  obtain ⟨b, console', hconsole', hb⟩ := hf a { m with console } hconsole
  exact ⟨b, console', hconsole', by rw [bind_apply, ha]; exact hb⟩

theorem Says.ite {c : Prop} [Decidable c] {y : MachineM α} (hx : Says x) (hy : Says y) :
    Says (if c then x else y) := by
  split
  · exact hx
  · exact hy

theorem says_modifyConsole {f : Console → Console} (h : ∀ c, c.Works → (f c).Works) :
    Says (modifyConsole f) :=
  fun m hm => ⟨(), f m.console, h m.console hm, rfl⟩

/-- Output that a working console takes is shown. -/
theorem says_output {send : Console → Bool × Console}
    (h : ∀ c : Console, c.Works → (send c).1 = true ∧ (send c).2.Works) : Says (output send) := by
  intro m hm
  obtain ⟨hsucceeds, hworks⟩ := h m.console hm
  exact ⟨(), (send m.console).2, hworks, by rw [output_apply, if_pos hsucceeds]⟩

theorem says_write (text : String) : Says (write text) :=
  says_output fun _ h => h.write text

theorem says_startLine : Says startLine :=
  says_output fun _ h => h.startLine

theorem says_writeLine (text : String) : Says (writeLine text) :=
  (says_write text).bind fun _ => says_write "\n"

/-- Any number of lines are shown. -/
theorem says_writeLines (lines : List String) :
    Says (forIn lines PUnit.unit fun line _ => do
      writeLine line
      pure (ForInStep.yield PUnit.unit)) := by
  induction lines with
  | nil => exact .pure PUnit.unit
  | cons line rest ih =>
    simp only [List.forIn_cons, bind_assoc, pure_bind] at ih ⊢
    exact (says_writeLine line).bind fun _ => ih

/-- A message is shown, at the start of a line. -/
theorem says_writeMessage (message : String) (line : Option UInt16) :
    Says (writeMessage message line) := by
  refine says_startLine.bind fun _ => ?_
  cases line with
  | none => exact says_writeLine _
  | some n => exact says_writeLine _

end Says

/-! ## Judgements -/

/-- A machine that has lost neither its console nor its place. -/
structure Upholds (m m' : Machine) : Prop where
  console : m.console.Works → m'.console.Works
  session : m.session.Upholds m'.session

theorem Upholds.refl (m : Machine) : m.Upholds m :=
  ⟨id, id⟩

theorem Upholds.trans {m m₁ m₂ : Machine} (h : m.Upholds m₁) (h' : m₁.Upholds m₂) : m.Upholds m₂ :=
  ⟨fun hm => h'.console (h.console hm), h.session.trans h'.session⟩

/-- An operation that upholds both, whether it succeeds or fails. -/
def Upholding {α : Type} (x : MachineM α) : Prop :=
  Always Upholds x

section Rules

variable {α β : Type} {x : MachineM α} {f : α → MachineM β}

theorem Upholding.pure (a : α) : Upholding (pure a) :=
  Upholds.refl

theorem Upholding.throw (s : Signal) : Upholding (throw s : MachineM α) :=
  Upholds.refl

theorem Upholding.bind (hx : Upholding x) (hf : ∀ a, Upholding (f a)) : Upholding (x >>= f) :=
  Always.bind hx hf (fun _ _ => id) fun _ _ _ => Upholds.trans

theorem Upholding.recover {f : Signal → MachineM α} (hx : Upholding x) (hf : ∀ s, Upholding (f s)) :
    Upholding (tryCatch x f) :=
  Always.recover hx hf (fun _ _ => id) fun _ _ _ => Upholds.trans

theorem Upholding.ite {c : Prop} [Decidable c] {y : MachineM α} (hx : Upholding x)
    (hy : Upholding y) : Upholding (if c then x else y) :=
  Always.ite hx hy

/-- What has been read of the machine is the machine as it is. -/
theorem Upholding.get_bind {f : Machine → MachineM β} (h : ∀ m : Machine, m.Upholds (left (f m m))) :
    Upholding (get >>= f) :=
  h

/-- A console that does not work may be lost to a write that fails. -/
theorem Upholding.of_shows (h : Shows x) (hsaid : Says x) : Upholding x := by
  intro m
  refine ⟨fun hm => ?_, ?_⟩
  · obtain ⟨a, console, hconsole, hok⟩ := hsaid m hm
    rw [hok]
    exact hconsole
  · obtain ⟨console, ⟨a, hok⟩ | herror⟩ := h m
    · rw [hok]
      exact id
    · rw [herror]
      exact id

theorem upholding_write (text : String) : Upholding (write text) :=
  .of_shows (shows_write text) (says_write text)

theorem upholding_writeLine (text : String) : Upholding (writeLine text) :=
  .of_shows (shows_writeLine text) (says_writeLine text)

theorem upholding_writeMessage (message : String) (line : Option UInt16) :
    Upholding (writeMessage message line) :=
  .of_shows (shows_writeMessage message line) (says_writeMessage message line)

/-- What is done to the console leaves the program alone. -/
theorem upholding_modifyConsole {f : Console → Console} (h : ∀ c, c.Works → (f c).Works) :
    Upholding (modifyConsole f) :=
  .of_shows (shows_modifyConsole f) (says_modifyConsole h)

theorem upholding_note (e : ConsoleEvent) : Upholding (modifyConsole fun c => c.note e) :=
  upholding_modifyConsole fun _ h => h

theorem upholding_startLine : Upholding startLine :=
  .of_shows shows_startLine says_startLine

theorem upholding_ofExcept (r : Except BasicError α) : Upholding (ofExcept r) := by
  cases r with
  | ok a => exact .pure a
  | error e => exact .throw _

/-- What is done to the session upholds the machine if it upholds the session. -/
theorem upholding_modifySession {f : Session → Session} (h : ∀ s : Session, s.Upholds (f s)) :
    Upholding (modifySession f) :=
  fun m => ⟨id, h m.session⟩

/-- A change of the session that does not touch the program. -/
theorem upholding_modifySession_of_eq {f : Session → Session}
    (h : ∀ s : Session, (f s).program = s.program) : Upholding (modifySession f) :=
  upholding_modifySession fun s => Session.upholds_of_eq (h s)

/-- So does what the session does, whether it succeeds or fails. -/
theorem upholding_onSession {f : SessionM α} (h : ∀ s : Session, s.Upholds (left (f s))) :
    Upholding (onSession f) := by
  intro m
  rw [left_onSession]
  exact ⟨id, h m.session⟩

end Rules

/-! ## Lines -/

theorem upholding_readLine (offered : String) (cursor : Nat) :
    Upholding (readLine offered cursor) := by
  intro m
  have hread : m.Upholds { m with
      console := (m.console.readLine offered cursor).2
      session := { m.session with awaitingInput := false } } :=
    ⟨fun hm => hm.readLine offered cursor, id⟩
  simp only [readLine, bind_apply, modifySession_apply, get_apply, set_apply]
  cases (m.console.readLine offered cursor).1 with
  | ok text => exact hread
  | error s => exact hread

theorem upholding_takeLine (text : String) : Upholding (takeLine text) :=
  (upholding_modifySession_of_eq (by intro s; rfl)).bind fun _ => .pure _

theorem upholding_checkDirect : Upholding checkDirect := by
  intro m
  unfold checkDirect
  cases Program.checkNumbered m.session.direct with
  | ok a direct => exact ⟨id, id⟩
  | error e direct => exact ⟨id, id⟩

/-- A program that has been edited is to run from its start. -/
theorem upholding_editProgram (deleteMissing : Bool) : Upholding (editProgram deleteMissing) := by
  refine upholding_checkDirect.bind fun checked => .get_bind fun m => ?_
  obtain ⟨isEmpty, number⟩ := checked
  dsimp only
  rw [bind_apply]
  generalize hedit : (if (!isEmpty) = true then m.session.program.store m.session.direct.bytes
    else if (deleteMissing || m.session.program.contains number) = true then
      m.session.program.delete number
    else .ok m.session.program) = edited
  cases edited with
  | error e => exact .refl m
  | ok program =>
    refine ⟨id, fun hs => ?_⟩
    split at hedit
    · exact Program.inRange_of_store hedit
    · split at hedit
      · exact Program.inRange_of_delete hedit
      · cases hedit
        exact hs

/-- Entering a line at the direct prompt. -/
theorem upholding_storeLine (text : String) : Upholding (storeLine text) := by
  unfold storeLine
  refine .ite (.pure true) ((upholding_takeLine text).bind fun isNumbered => .ite ?_ ?_)
  · exact (upholding_editProgram true).bind fun _ => .get_bind fun m => .refl m
  · exact (upholding_modifySession_of_eq (by intro s; rfl)).bind fun _ => .pure false

theorem upholding_offerNext (number : UInt16) : Upholding (offerNext number) := by
  refine upholding_modifySession_of_eq fun s => ?_
  dsimp only
  split <;> rfl

theorem upholding_autoStep : Upholding autoStep := by
  refine Upholding.bind (fun m => .refl m) fun m => ?_
  refine (upholding_readLine _ _).bind fun line => ?_
  refine (upholding_takeLine _).bind fun isNumbered => .ite ?_ ?_
  · exact (upholding_editProgram false).bind upholding_offerNext
  · exact .ite (upholding_modifySession_of_eq (by intro s; rfl)) (.pure ())

/-- A pass that takes a numbered line. -/
theorem upholding_autoPass : Upholding autoPass := by
  refine upholding_autoStep.recover fun s => ?_
  cases s with
  | interrupt stop =>
    exact (upholding_note _).bind fun _ => upholding_modifySession_of_eq (by intro s; rfl)
  | error e => exact .throw _
  | exit => exact .throw _
  | reset => exact .throw _
  | fault message => exact .throw _

theorem upholding_showPrompt : Upholding showPrompt := by
  refine Upholding.bind (fun m => .refl m) fun m => ?_
  refine (upholding_modifySession_of_eq (by intro s; rfl)).bind fun _ => ?_
  cases m.session.editPrompt.bind fun edit => m.session.program.editText? edit.line edit.position with
  | some offered => exact .pure offered
  | none =>
    refine .ite ?_ (.pure _)
    exact upholding_startLine.bind fun _ => (upholding_writeLine _).bind fun _ => .pure _

/-- A pass that takes a line at the direct prompt. -/
theorem upholding_directPass : Upholding directPass := by
  refine upholding_showPrompt.bind fun prompt => ?_
  refine Upholding.bind ?_ fun line => ?_
  · refine ((upholding_readLine _ _).bind fun _ => .pure _).recover fun s => ?_
    cases s with
    | interrupt stop =>
      refine (upholding_note _).bind fun _ => ?_
      exact (upholding_modifySession_of_eq (by intro s; rfl)).bind fun _ => .pure _
    | error e => exact .throw _
    | exit => exact .throw _
    | reset => exact .throw _
    | fault message => exact .throw _
  · cases line with
    | none => exact .pure _
    | some line =>
      refine (upholding_storeLine line).bind fun stored => ?_
      exact (upholding_modifySession_of_eq (by intro s; rfl)).bind fun _ => .pure _

/-! ## Reports -/

theorem upholding_handleError (e : BasicError) : Upholding (handleError e) := by
  refine Upholding.bind (fun m => .refl m) fun m => ?_
  refine (upholding_writeMessage _ _).bind fun _ => upholding_modifySession_of_eq fun s => ?_
  dsimp only
  split
  · split <;> rfl
  · rfl

theorem upholding_handleBreak (stop : Bool) : Upholding (handleBreak stop) := by
  have hend : ∀ line, Upholding (do
      writeMessage "Break" line
      modifySession fun s => { s.endExecution with awaitingInput := false }) := by
    intro line
    exact (upholding_writeMessage _ _).bind fun _ => upholding_modifySession_of_eq (by intro s; rfl)
  refine Upholding.bind (fun m => .refl m) fun m => ?_
  -- the sign of a break is shown or not; what follows is the same
  refine .ite ((upholding_write "^C").bind fun _ => ?_) ?_
  all_goals
    refine Upholding.bind (fun m => .refl m) fun m => ?_
    exact .ite ((upholding_modifySession_of_eq (by intro s; rfl)).bind fun _ => hend _) (hend _)

theorem upholding_handleFault (message : String) : Upholding (handleFault message) := by
  refine Upholding.bind (upholding_modifySession fun s => ?_) fun _ => ?_
  · exact Session.upholds_setPointer
      { s with autoActive := false, mode := .direct, awaitingInput := false } false none
  · exact upholding_startLine.bind fun _ => upholding_writeLine _

/-- The report of whatever has ended the passes. -/
theorem upholding_report (s : Signal) : Upholding (report s) := by
  have hprompt : Upholding (modifySession fun s => { s with prompt := true }) :=
    upholding_modifySession_of_eq (by intro s; rfl)
  cases s with
  | error e => exact (upholding_handleError e).bind fun _ => hprompt
  | interrupt stop =>
    exact (upholding_note _).bind fun _ => (upholding_handleBreak stop).bind fun _ => hprompt
  | fault message => exact upholding_handleFault message
  | exit => exact .throw _
  | reset => exact .throw _

theorem upholding_switchMode (wasExecuting : Bool) : Upholding (switchMode wasExecuting) := by
  refine Upholding.bind (fun m => .refl m) fun m => .ite ?_ (.pure _)
  refine (upholding_modifySession fun s => s.upholds_setPointer false (some 0)).bind fun _ => ?_
  exact (upholding_note _).bind fun _ => .pure _

theorem upholding_startProgram : Upholding startProgram := by
  refine (upholding_onSession (Session.upholds_jump none)).bind fun _ => ?_
  exact (upholding_modifySession_of_eq (by intro s; rfl)).bind fun _ => upholding_note _

/-! ## Statements -/

theorem upholding_list (first last : Option UInt16) :
    Upholding (Statement.list first last).execute := by
  intro m
  let lines := m.session.program.listing first last
  exact Upholding.of_shows ((shows_writeLines lines).bind fun _ => .pure true)
    ((says_writeLines lines).bind fun _ => .pure true) m

theorem upholding_printTo (file : Option UInt8) (text : String) :
    Upholding (Statement.printTo file text) := by
  cases file with
  | none => exact upholding_write text
  | some number =>
    refine .get_bind fun m => ?_
    rw [bind_apply]
    cases m.session.files.write m.disk number text with
    | ok written => exact ⟨id, id⟩
    | error e => exact .refl m

theorem upholding_openNumbered (name : String) (mode : FileMode) (number : UInt8) :
    Upholding (Statement.openNumbered name mode number) := by
  refine .get_bind fun m => ?_
  rw [bind_apply]
  cases m.session.files.open m.disk number name mode with
  | ok opened => exact ⟨id, id⟩
  | error e => exact .refl m

theorem upholding_startAuto (line : UInt16) (increment : Option UInt16) :
    Upholding (Statement.startAuto line increment) := by
  refine Upholding.bind (fun m => .refl m) fun m => ?_
  refine .ite ((Upholding.throw _).bind fun _ => ?_) ?_
  all_goals exact upholding_modifySession_of_eq (by intro s; rfl)

theorem upholding_offerEdit (line : UInt16) : Upholding (Statement.offerEdit line) := by
  refine Upholding.bind (fun m => .refl m) fun m => ?_
  cases m.session.program.offsetOf? line with
  | none => exact .throw _
  | some offset => exact upholding_modifySession_of_eq (by intro s; rfl)

theorem upholding_installErrorHandler (line : UInt16) :
    Upholding (Statement.installErrorHandler line) := by
  refine Upholding.bind (fun m => .refl m) fun m => .ite ((Upholding.throw _).bind fun _ => ?_) ?_
  all_goals exact upholding_onSession (Session.upholds_setErrorHandler line)

/-- The program that is left after a deletion stands at its start. -/
theorem upholding_delete (first last : Option UInt16) :
    Upholding (Statement.delete first last).execute := by
  refine .get_bind fun m => ?_
  rw [bind_apply]
  cases hdelete : m.session.program.deleteRange first last with
  | error e => exact .refl m
  | ok program => exact ⟨id, fun _ => Program.inRange_of_deleteRange hdelete⟩

/-- Every statement. -/
theorem upholding_execute (st : Statement) : Upholding st.execute := by
  have hthen : ∀ {x : MachineM Unit}, Upholding x → Upholding (do x; return true : MachineM Bool) :=
    fun hx => hx.bind fun _ => .pure true
  have hclear : Upholding (modifySession Session.clear) :=
    upholding_modifySession_of_eq (by intro s; rfl)
  cases st with
  | nothing => exact .pure true
  | comment => exact .pure true
  | assign name value =>
    refine hthen (Upholding.bind (fun m => .refl m) fun m => ?_)
    exact (upholding_ofExcept _).bind fun _ => upholding_modifySession_of_eq (by intro s; rfl)
  | print file text => exact hthen (upholding_printTo file text)
  | goto line => exact hthen (upholding_onSession (Session.upholds_jump _))
  | gosub line => exact hthen (upholding_onSession (Session.upholds_call line none))
  | returnTo line => exact hthen (upholding_onSession (Session.upholds_return line))
  | endProgram => exact (upholding_modifySession_of_eq (by intro s; rfl)).bind fun _ => .pure false
  | stop => exact .throw _
  | cont => exact hthen (upholding_onSession Session.upholds_cont)
  | run line =>
    exact hclear.bind fun _ => hthen (upholding_onSession (Session.upholds_jump line))
  | new =>
    refine Upholding.bind (upholding_modifySession fun s => ?_) fun _ => .pure false
    exact fun _ => Nat.zero_le _
  | clear => exact hthen hclear
  | list first last => exact upholding_list first last
  | auto line increment => exact hthen (upholding_startAuto line increment)
  | edit line => exact (upholding_offerEdit line).bind fun _ => .pure false
  | delete first last => exact upholding_delete first last
  | onError line => exact hthen (upholding_installErrorHandler line)
  | onKey key line => exact hthen (upholding_modifySession_of_eq (by intro s; rfl))
  | onTimer seconds line =>
    refine Upholding.bind (fun m => .refl m) fun m => ?_
    refine (upholding_modifySession_of_eq (by intro s; rfl)).bind fun _ => ?_
    refine (upholding_ofExcept line).bind fun _ => ?_
    exact hthen (upholding_modifySession_of_eq (by intro s; rfl))
  | trapCommand kind command => exact hthen (upholding_modifySession_of_eq (by intro s; rfl))
  | raise code => exact .throw _
  | resume target => exact hthen (upholding_onSession (Session.upholds_resume target))
  | trace on => exact hthen (upholding_modifySession_of_eq (by intro s; rfl))
  | openFile name mode number => exact hthen (upholding_openNumbered name mode number)
  | closeFiles numbers rest =>
    refine (upholding_modifySession_of_eq (by intro s; rfl)).bind fun _ => ?_
    exact (upholding_ofExcept rest).bind fun _ => .pure true
  | closeAll => exact hthen (upholding_modifySession_of_eq (by intro s; rfl))
  | system => exact .throw _

theorem upholding_scan {α : Type} (p : Scanner α) : Upholding (scan p) :=
  upholding_onSession (Session.upholds_scan p)

theorem upholding_readAndExecute : Upholding readAndExecute :=
  Upholding.bind (fun m => .refl m) fun _ => (upholding_scan _).bind upholding_execute

theorem upholding_endOfCode : Upholding endOfCode := by
  intro m
  obtain herror | hok := endOfCode_cases m
  · rw [herror]
    exact .refl m
  · rw [hok]
    exact .refl m

/-- A statement is read and executed. -/
theorem upholding_statement : Upholding statement := by
  refine (upholding_modifySession_of_eq (by intro s; rfl)).bind fun _ => ?_
  refine (upholding_scan Parse.boundary).bind fun b => ?_
  cases b with
  | ended => exact upholding_endOfCode
  | line number =>
    refine Upholding.bind (fun m => .refl m) fun m => .ite ?_ upholding_readAndExecute
    exact (upholding_write _).bind fun _ => upholding_readAndExecute
  | inLine => exact upholding_readAndExecute

/-! ## The beginning of a session -/

/-- A program that is loaded stands at its start. -/
theorem upholding_loadProgram (name : String) : Upholding (loadProgram name) := by
  refine .get_bind fun m => ?_
  cases m.disk.read name with
  | error fault => exact upholding_writeMessage _ none m
  | ok bytes =>
    dsimp only
    cases hload : Program.load bytes with
    | error e => exact upholding_writeMessage _ none m
    | ok program => exact ⟨id, fun _ => Program.inRange_of_load hload⟩

/-- In a session that is read from its layout the program is in range. -/
theorem inRange_of_decoded {disk disk' : Disk} {code : List UInt8} {s : Session}
    (h : Decoder.session disk code = (some s, disk')) : s.program.InRange := by
  have hread : Decoder.Yields (do return (← Decoder.sessionBeforeFiles, ← Decoder.size))
      fun found : Session × Nat => found.1.program.InRange :=
    Decoder.yields_sessionBeforeFiles.bind fun _ hs => .skip fun _ => .pure hs
  unfold Decoder.session at h
  cases hrun : (do return (← Decoder.sessionBeforeFiles, ← Decoder.size) :
      Decoder (Session × Nat)).run code with
  | none =>
    rw [hrun] at h
    cases h
  | some found =>
    rw [hrun] at h
    obtain ⟨files, -, rfl⟩ := Option.map_eq_some_iff.1 (congrArg Prod.fst h)
    exact hread code found.1 found.2 hrun

/-- In a session that is read from a file the program is in range. -/
theorem inRange_of_loaded {disk disk' : Disk} {name : Option String} {s : Session}
    (h : Snapshot.load disk name = (.ok s, disk')) : s.program.InRange := by
  unfold Snapshot.load at h
  split at h
  · cases h
  · split at h
    · cases h
    · unfold Snapshot.ofBytes at h
      split at h
      · cases h
      · split at h
        · cases h
        · split at h
          · rename_i hdecoded
            cases h
            exact inRange_of_decoded hdecoded
          · cases h

/-- The machine takes such a session, or stays as it is. -/
theorem upholding_resumeSaved : Upholding resumeSaved := by
  refine .get_bind fun m => ?_
  rw [Effect.ite_apply]
  split
  · exact .refl m
  · cases hload : Snapshot.load m.disk m.config.stateFile with
    | mk saved disk =>
      cases saved with
      | error e => exact ⟨id, id⟩
      | ok session =>
        have hsession := inRange_of_loaded hload
        exact ⟨id, fun _ => hsession⟩

end Machine

namespace Moment

open Machine

theorem upholding_statementPart (poll : MachineM Unit) : Upholding (statementPart (.polling poll)) := by
  refine upholding_statement.bind fun goesOn => .ite ?_ (.pure ())
  exact upholding_modifySession_of_eq (by intro s; rfl)

theorem upholding_shutdownPart (outcome : Except Signal Unit) : Upholding (shutdownPart outcome) := by
  have hshutdown : Upholding shutdown := fun _ => ⟨id, id⟩
  refine .ite (Upholding.bind (fun m => .refl m) fun m => .ite ?_ hshutdown) hshutdown
  exact (upholding_note _).bind fun _ => hshutdown

/-- Every operation upholds the console and the place in the program, if looking for events does. -/
theorem upholds_next {poll : MachineM Unit} (hpoll : Upholding poll) (t : Moment) :
    t.machine.Upholds (t.next (.polling poll)).machine := by
  have hafter : ∀ {α : Type} {x : MachineM α} {ok : α → Control} {error : Signal → Control},
      Upholding x → t.machine.Upholds (after x t.machine ok error).machine := by
    intro α x ok error hx
    rw [machine_after]
    exact hx t.machine
  obtain ⟨control, m⟩ := t
  cases control with
  | launch => exact hafter upholding_resumeSaved
  | load =>
    refine hafter ?_
    cases m.config.program with
    | none => exact .pure ()
    | some name => exact upholding_loadProgram name
  | greet config => exact hafter (.ite (upholding_writeLine _) (.pure ()))
  | command config =>
    unfold next
    dsimp only
    cases config.exec with
    | none => exact .refl m
    | some text => exact hafter (upholding_storeLine text)
  | refuse e config => exact hafter (upholding_handleError e)
  | commanded stored config => exact hafter (upholding_modifySession_of_eq (by intro s; rfl))
  | begin config => exact hafter (.ite upholding_startProgram (.pure ()))
  | idle => exact .refl m
  | pass caller =>
    unfold next
    dsimp only
    cases m.session.mode with
    | executing => exact hafter hpoll
    | autoNumbering => exact hafter upholding_autoPass
    | direct => exact hafter upholding_directPass
  | dispatch caller => exact hafter (upholding_onSession Session.upholds_dispatchEvent)
  | statement caller => exact hafter (upholding_statementPart poll)
  | trap e caller => exact hafter (upholding_onSession (Session.upholds_trapError e))
  | interrupt stop caller =>
    exact hafter ((upholding_note _).bind fun _ => upholding_handleBreak stop)
  | switch wasExecuting caller => exact hafter (upholding_switchMode wasExecuting)
  | report s caller => exact hafter (upholding_report s)
  | cycled outcome caller => exact .refl m
  | shutdown outcome => exact hafter (upholding_shutdownPart outcome)
  | reset => exact ⟨id, fun _ => Nat.zero_le _⟩
  | enter text => exact hafter (upholding_storeLine text)
  | returned outcome => exact .refl m

/-- At every moment of a run the program is in range and the console works if they did at first. -/
theorem upholds_moment {poll : MachineM Unit} (hpoll : Upholding poll) (m : Machine) (n : Nat) :
    m.Upholds (m.moment (.polling poll) n).machine := by
  induction n with
  | zero => exact .refl m
  | succ n ih =>
    rw [moment_succ]
    exact ih.trans (upholds_next hpoll _)

end Moment

/-! ## Sources of events -/

namespace EventSource

/-- A source that leaves the console alone. -/
def Silent (source : EventSource) : Prop :=
  ∀ m, (left (source.poll m)).console = m.console

/-- A source that leaves the console alone upholds the machine. -/
theorem Silent.upholding {source : EventSource} (h : source.Silent) :
    Machine.Upholding source.poll := by
  intro m
  obtain ⟨events, -, hsession, -⟩ := source.spares m
  refine ⟨fun hm => ?_, ?_⟩
  · rw [h m]
    exact hm
  · rw [hsession]
    exact id

theorem silent_feed : feed.Silent := by
  intro m
  show (left (Machine.poll m)).console = m.console
  simp only [Machine.poll, bind_apply, get_apply, set_apply]
  cases (m.feed.poll m.session.events m.clock).1 with
  | ok => rfl
  | error s => rfl

end EventSource

end LineBasic

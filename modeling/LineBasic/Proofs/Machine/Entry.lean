import LineBasic.Machine.Entry
import LineBasic.Proofs.Program.Entry
import LineBasic.Proofs.Session.Memory
import LineBasic.Proofs.Statement.Outcome

/-!
# Lines of the operator

A line is entered at the direct prompt, or at a prompt that offers its number.  Both ignore it, edit the
program, refuse it or queue it as a command.

* `Program.edits_refine_map`: a program after any edits, told from its map.
* `Entry`: what may become of a line; `Entry.Made`: what an operation has made of one.
* `entryOf`: what becomes of a line at the direct prompt.
* `prompts_agree_iff`: the lines with which the other prompt does the same.
-/

namespace LineBasic

open Token Effect

/-- What becomes of a line that is entered. -/
inductive Entry where
  | ignored
  /-- A line of the program is stored or deleted. -/
  | edited (program : Program)
  | refused (e : BasicError)
  /-- The line is a command, to be executed next. -/
  | queued (code : List UInt8)

/-- What an operation has made of a line, told from the session before it and from its outcome. -/
inductive Entry.Made (s : Session) {α : Type} : EStateM.Result Signal Machine α → Entry → Prop where
  | ignored {a : α} {m : Machine} (hmode : m.session.mode = s.mode)
      (hmemory : m.session.memory = s.memory) : Made s (.ok a m) .ignored
  | edited {a : α} {m : Machine} {program : Program} (hmode : m.session.mode ≠ .executing)
      (hprogram : m.session.program = program)
      (hmemory : m.session.memory = { s.memory with lines := program.lines }.clear) :
      Made s (.ok a m) (.edited program)
  | refused {e : BasicError} {m : Machine} (hmode : m.session.mode = s.mode)
      (hmemory : m.session.memory = s.memory) : Made s (.error (.error e) m) (.refused e)
  | queued {a : α} {m : Machine} {code : List UInt8} (hmode : m.session.mode = .executing)
      (hdirect : m.session.direct = { bytes := code }) (hmemory : m.session.memory = s.memory) :
      Made s (.ok a m) (.queued code)

namespace Entry.Made

variable {α : Type} {s s' : Session} {r : EStateM.Result Signal Machine α}

/-- What becomes of a line is told from mode and memory. -/
theorem congr_session {entry : Entry} (hmode : s'.mode = s.mode) (hmemory : s'.memory = s.memory)
    (h : Made s r entry) : Made s' r entry := by
  cases h with
  | ignored hm hk => exact .ignored (hm.trans hmode.symm) (hk.trans hmemory.symm)
  | edited hm hp hk => exact .edited hm hp (by rw [hk, hmemory])
  | refused hm hk => exact .refused (hm.trans hmode.symm) (hk.trans hmemory.symm)
  | queued hm hd hk => exact .queued hm hd (hk.trans hmemory.symm)

theorem not_refused_of_ignored {e : BasicError} (h : Made s r .ignored) :
    ¬ Made s' r (.refused e) := by
  intro h'
  cases h
  cases h'

theorem not_refused_of_edited {program : Program} {e : BasicError} (h : Made s r (.edited program)) :
    ¬ Made s' r (.refused e) := by
  intro h'
  cases h
  cases h'

end Entry.Made

/-- What becomes of a line that changes a program. -/
def Entry.ofEdit : Except BasicError (Program × UInt16) → Entry
  | .ok (program, _) => .edited program
  | .error e => .refused e

/-- What becomes of a line at the direct prompt. -/
def entryOf (p : Program) (line : String) : Entry :=
  if Text.isBlank line then .ignored
  else if (Crunch.line line).head? = some endLine then .ofEdit (p.edit true (Crunch.line line))
  else .queued (Crunch.line line)

/-! ## The number after a line -/

namespace Session

/-- The number to be offered after another, which may be too high to be offered. -/
def numberAfter (s : Session) (number : UInt16) : UInt32 :=
  number.toUInt32 + s.auto.increment.toUInt32

/-- A session that goes on to the number after another, or to direct mode if that is too high. -/
def goOn (number : UInt16) (s : Session) : Session :=
  if Program.maxLineNumber.toUInt32 < s.numberAfter number then
    { s with auto.line := s.numberAfter number, autoActive := false, mode := .direct }
  else { s with auto.line := s.numberAfter number }

variable (number : UInt16) (s : Session)

@[simp] theorem goOn_program : (s.goOn number).program = s.program := by
  unfold goOn
  split <;> rfl

@[simp] theorem goOn_memory : (s.goOn number).memory = s.memory := by
  unfold goOn
  split <;> rfl

@[simp] theorem goOn_auto : (s.goOn number).auto = { s.auto with line := s.numberAfter number } := by
  unfold goOn
  split <;> rfl

/-- After the last number that a line may have, the direct prompt comes back. -/
@[simp] theorem goOn_mode :
    (s.goOn number).mode =
      if Program.maxLineNumber.toUInt32 < s.numberAfter number then .direct else s.mode := by
  unfold goOn
  split <;> rfl

end Session

namespace Machine

theorem offerNext_apply (number : UInt16) (m : Machine) :
    offerNext number m = .ok () { m with session := m.session.goOn number } := rfl

/-! ## The parts of an entry -/

/-- What an edit of the program by the direct line comes to. -/
def afterEdit (m : Machine) (direct : CodeStream) :
    Except BasicError (Program × UInt16) → EStateM.Result Signal Machine UInt16
  | .ok (program, number) =>
    .ok number { m with session := Session.clear { m.session with direct, program } }
  | .error e => .error (.error e) { m with session := { m.session with direct } }

/-- The machine edits its program by the direct line, or refuses it. -/
theorem editProgram_apply (deleteMissing : Bool) (m : Machine) :
    ∃ direct, editProgram deleteMissing m =
      m.afterEdit direct (m.session.program.edit deleteMissing m.session.direct.bytes) := by
  -- a check starts at the first byte of the line, wherever the line stands
  have hcheck : Program.checkNumbered { bytes := m.session.direct.bytes } =
      Program.checkNumbered m.session.direct := rfl
  simp only [editProgram, checkDirect, bind_apply, Program.edit, hcheck]
  cases hchecked : Program.checkNumbered m.session.direct with
  | error e direct => exact ⟨direct, rfl⟩
  | ok checked direct =>
    obtain ⟨isEmpty, number⟩ := checked
    have hbytes : direct.bytes = m.session.direct.bytes := Program.bytes_checkNumbered hchecked
    refine ⟨direct, ?_⟩
    simp only [get_apply, hbytes]
    generalize (if !isEmpty then m.session.program.store m.session.direct.bytes
      else if deleteMissing || m.session.program.contains number then m.session.program.delete number
      else .ok m.session.program) = edited
    cases edited with
    | error e => rfl
    | ok program => rfl

/-- A numbered line that is refused has at most been read. -/
theorem editProgram_error {deleteMissing : Bool} {m m' : Machine} {s : Signal}
    (h : editProgram deleteMissing m = .error s m') :
    ∃ direct, m' = { m with session := { m.session with direct } } := by
  obtain ⟨direct, hedit⟩ := editProgram_apply deleteMissing m
  rw [hedit] at h
  cases hedited : m.session.program.edit deleteMissing m.session.direct.bytes with
  | ok edited =>
    rw [hedited] at h
    cases h
  | error e =>
    rw [hedited] at h
    cases h
    exact ⟨direct, rfl⟩

/-- A range of lines that cannot be deleted leaves the machine as it is. -/
theorem delete_error {first last : Option UInt16} {m m' : Machine} {s : Signal}
    (h : (Statement.delete first last).execute m = .error s m') : m' = m := by
  simp only [Statement.execute, bind_apply, get_apply] at h
  cases hdelete : m.session.program.deleteRange first last with
  | ok program =>
    rw [hdelete] at h
    cases h
  | error e =>
    rw [hdelete] at h
    cases h
    rfl

end Machine

/-- **The store is a finite map.**  After any edits a program shows the map that the same edits make of
its map; an edit is refused exactly if it is refused on the map, and then changes nothing, neither the
program that it is run on nor that of a machine which enters a line or deletes a range; a numbered line is
refused exactly if the image would have more than 65535 bytes; and programs that come to the same map, by
whatever edits, have the same image. -/
theorem Program.edits_refine_map (p₀ q₀ : Program) (edits edits' : List Edit) :
    let p := edits.foldl Edit.perform p₀
    let m := edits.foldl Edit.performOnMap p₀.toMap
    Shows p m ∧
      (∀ e : Edit, (e.apply p).toOption.map toMap = e.onMap? m) ∧
      (∀ (e : Edit) err q, e.run p = .error err q → q = p) ∧
      (∀ (machine machine' : Machine) s,
        (∃ deleteMissing, Machine.editProgram deleteMissing machine = .error s machine') ∨
          (∃ first last, (Statement.delete first last).execute machine = .error s machine') →
        machine'.session.program = machine.session.program) ∧
      (∀ code l err, numberedLine? code = some l → (p.store code = .error err ↔
        err = .of .outOfMemory ∧ 65535 < (m.insert l.number l.body).image.length)) ∧
      (edits'.foldl Edit.performOnMap q₀.toMap = m →
        (edits'.foldl Edit.perform q₀).image = p.image) := by
  intro p m
  have hm : p.toMap = m := p₀.toMap_foldl_perform edits
  refine ⟨?_, ?_, ?_, ?_, ?_, ?_⟩
  · rw [← hm]
    exact p.shows_toMap
  · intro e
    rw [← hm]
    exact p.toMap_apply e
  · intro e err q
    exact Edit.eq_of_run_error
  · rintro machine machine' s (⟨deleteMissing, hedit⟩ | ⟨first, last, hdelete⟩)
    · obtain ⟨direct, rfl⟩ := Machine.editProgram_error hedit
      rfl
    · rw [Machine.delete_error hdelete]
  · intro code l err hcode
    rw [← hm]
    exact store_eq_error_iff hcode
  · intro h
    rw [← toMap_foldl_perform, ← hm] at h
    rw [← image_toMap, h, image_toMap]

namespace Machine

/-- A machine with a direct line. -/
def withLine (m : Machine) (code : List UInt8) : Machine :=
  { m with session := { m.session with direct := { bytes := code } } }

/-- The program is edited by a line that has just been taken. -/
theorem editProgram_withLine (deleteMissing : Bool) (m : Machine) (code : List UInt8) :
    ∃ direct, editProgram deleteMissing (m.withLine code) =
      (m.withLine code).afterEdit direct (m.session.program.edit deleteMissing code) :=
  editProgram_apply deleteMissing (m.withLine code)

/-- A blank line is ignored. -/
theorem storeLine_of_isBlank (m : Machine) {line : String} (h : Text.isBlank line = true) :
    storeLine line m = .ok true m := by
  simp [storeLine, h]

/-- A line with a number edits the program. -/
theorem storeLine_of_head (m : Machine) {line : String} (hblank : Text.isBlank line = false)
    (hhead : (Crunch.line line).head? = some endLine) :
    storeLine line m =
      (do
        let _ ← editProgram true
        return (← get).session.mode ≠ .executing : MachineM Bool) (m.withLine (Crunch.line line)) := by
  simp [storeLine, hblank, takeLine, hhead, withLine]

/-- Any other line is a command. -/
theorem storeLine_of_command (m : Machine) {line : String} (hblank : Text.isBlank line = false)
    (hhead : (Crunch.line line).head? ≠ some endLine) :
    storeLine line m = .ok false
      { m.withLine (Crunch.line line) with
        session := { (m.withLine (Crunch.line line)).session with mode := .executing } } := by
  simp [storeLine, hblank, takeLine, hhead, withLine]

/-- Enters a line at the prompt that offers its number. -/
def enterOffered (line : String) : MachineM Unit := do
  if ← takeLine line then
    offerNext (← editProgram false)
  else if !Text.isBlank line then
    modifySession fun s => { s with mode := .executing }

/-- The text offered: a number, with a star if the line exists. -/
def offered (s : Session) : String :=
  toString s.auto.line ++
    if s.auto.line ≤ 65535 && s.program.contains s.auto.line.toUInt16 then "*" else " "

/-- A machine that has asked for a line. -/
def asked (m : Machine) : Machine :=
  { m with
    console := (m.console.readLine (offered m.session) (offered m.session).utf8ByteSize).2
    session := { m.session with awaitingInput := false } }

/-- What was typed over the star is taken for the line. -/
theorem autoStep_of_read (m : Machine) {line : String}
    (hread : (m.console.readLine (offered m.session) (offered m.session).utf8ByteSize).1 = .ok line) :
    autoStep m = enterOffered (dropStar (toString m.session.auto.line) line) m.asked := by
  have hline : readLine (offered m.session) (offered m.session).utf8ByteSize m = .ok line m.asked := by
    simp only [readLine, bind_apply, modifySession_apply, get_apply, set_apply, hread]
    rfl
  show (readLine (offered m.session) (offered m.session).utf8ByteSize >>= fun line =>
    enterOffered (dropStar (toString m.session.auto.line) line)) m = _
  rw [bind_apply, hline]

theorem enterOffered_of_head (m : Machine) {line : String}
    (hhead : (Crunch.line line).head? = some endLine) :
    enterOffered line m = (editProgram false >>= offerNext) (m.withLine (Crunch.line line)) := by
  simp [enterOffered, takeLine, hhead, withLine]

theorem enterOffered_of_command (m : Machine) {line : String}
    (hhead : (Crunch.line line).head? ≠ some endLine) :
    enterOffered line m =
      if Text.isBlank line then .ok () (m.withLine (Crunch.line line))
      else .ok () { m.withLine (Crunch.line line) with
        session := { (m.withLine (Crunch.line line)).session with mode := .executing } } := by
  cases hblank : Text.isBlank line with
  | true => simp [enterOffered, takeLine, hhead, hblank, withLine]
  | false => simp [enterOffered, takeLine, hhead, hblank, withLine]

theorem dropStar_of_not_isPrefix {number line : String}
    (h : ¬ (number ++ "*").toList <+: line.toList) : dropStar number line = line :=
  if_neg fun hstar => h (List.isPrefixOf_iff_prefix.1 hstar)

/-! ## What becomes of a line -/

/-- The machine at a prompt. -/
def atPrompt (m : Machine) (mode : Mode) : Machine :=
  { m with session := { m.session with mode } }

/-- The direct prompt. -/
theorem made_storeLine (m : Machine) (line : String) :
    Entry.Made (m.atPrompt .direct).session (storeLine line (m.atPrompt .direct))
      (entryOf m.session.program line) := by
  have hprogram : (m.atPrompt .direct).session.program = m.session.program := rfl
  unfold entryOf
  cases hblank : Text.isBlank line with
  | true =>
    rw [storeLine_of_isBlank _ hblank, if_pos rfl]
    exact .ignored rfl rfl
  | false =>
    rw [if_neg Bool.false_ne_true]
    by_cases hhead : (Crunch.line line).head? = some endLine
    · obtain ⟨direct, hedit⟩ := editProgram_withLine true (m.atPrompt .direct) (Crunch.line line)
      rw [if_pos hhead, storeLine_of_head _ hblank hhead, bind_apply, hedit, hprogram]
      cases m.session.program.edit true (Crunch.line line) with
      | error e => exact .refused rfl rfl
      | ok edited => exact .edited Mode.noConfusion rfl rfl
    · rw [if_neg hhead, storeLine_of_command _ hblank hhead]
      exact .queued rfl rfl rfl

/-- An edit at the prompt that offers numbers goes on to the next number, if there is one. -/
theorem made_enterOffered_edit (m : Machine) {line : String} (hmode : m.session.mode = .autoNumbering)
    (hhead : (Crunch.line line).head? = some endLine) :
    Entry.Made m.session (enterOffered line m)
      (.ofEdit (m.session.program.edit false (Crunch.line line))) := by
  obtain ⟨direct, hedit⟩ := editProgram_withLine false m (Crunch.line line)
  rw [enterOffered_of_head _ hhead, bind_apply, hedit]
  cases m.session.program.edit false (Crunch.line line) with
  | error e => exact .refused rfl rfl
  | ok edited =>
    obtain ⟨program, number⟩ := edited
    simp only [afterEdit, offerNext_apply]
    refine .edited ?_ (by simp [Session.clear]) (by rw [Session.goOn_memory]; rfl)
    have hkept : (Session.clear { (m.withLine (Crunch.line line)).session with direct, program }).mode =
        .autoNumbering := hmode
    rw [Session.goOn_mode, hkept]
    split
    · exact Mode.noConfusion
    · exact Mode.noConfusion

/-- A command is queued at either prompt. -/
theorem made_enterOffered_command (m : Machine) {line : String}
    (hhead : (Crunch.line line).head? ≠ some endLine) :
    Entry.Made m.session (enterOffered line m) (entryOf m.session.program line) := by
  rw [enterOffered_of_command _ hhead, entryOf]
  cases Text.isBlank line with
  | true => exact .ignored rfl rfl
  | false =>
    rw [if_neg Bool.false_ne_true, if_neg Bool.false_ne_true, if_neg hhead]
    exact .queued rfl rfl rfl

/-! ## The lines that are not alike -/

/-- A blank line without code. -/
def Codeless (line : String) : Prop :=
  Text.isBlank line = true ∧ Crunch.line line = [endLine]

section Unlike

variable {p : Program} {line : String}

theorem Codeless.head (h : Codeless line) : (Crunch.line line).head? = some endLine := by
  rw [h.2]
  rfl

theorem Codeless.entryOf_eq (h : Codeless line) : entryOf p line = .ignored :=
  if_pos h.1

/-- A line that is to be deleted is marked as numbered. -/
theorem head_of_missing (h : p.Missing (Text.utf8 line)) :
    (Crunch.line line).head? = some endLine := by
  obtain ⟨number, text, hnumber, -⟩ := h
  exact (Program.head_line_iff line).2 (.inl (by rw [hnumber]; rfl))

theorem isBlank_of_missing (h : p.Missing (Text.utf8 line)) : Text.isBlank line = false := by
  obtain ⟨number, text, hnumber, -⟩ := h
  cases hblank : Text.isBlank line with
  | false => rfl
  | true =>
    rw [Program.numberedText?_of_isBlank hblank] at hnumber
    cases hnumber

/-- To delete a line that does not exist is an error at one prompt and nothing at the other. -/
theorem edit_of_missing (h : p.Missing (Text.utf8 line)) :
    p.edit true (Crunch.line line) = .error (.of .undefinedLineNumber) ∧
      ∃ number, p.edit false (Crunch.line line) = .ok (p, number) := by
  obtain ⟨-, hmissing⟩ | ⟨-, hedit⟩ := p.edit_or_missing (head_of_missing h)
  · exact absurd h hmissing
  · exact hedit

theorem entryOf_of_missing (h : p.Missing (Text.utf8 line)) :
    entryOf p line = .refused (.of .undefinedLineNumber) := by
  rw [entryOf, isBlank_of_missing h, if_neg Bool.false_ne_true, if_pos (head_of_missing h),
    (edit_of_missing h).1]
  rfl

end Unlike

section Offered

variable (m : Machine) {line : String}

/-- At the prompt that offers numbers a line without code is refused. -/
theorem made_of_empty (hmode : m.session.mode = .autoNumbering) (h : Codeless line) :
    Entry.Made m.session (enterOffered line m) (.refused (.of .syntaxError)) := by
  have hedit := made_enterOffered_edit m hmode h.head
  rwa [h.2, Program.edit_endLine] at hedit

theorem made_of_missing (hmode : m.session.mode = .autoNumbering)
    (h : m.session.program.Missing (Text.utf8 line)) :
    Entry.Made m.session (enterOffered line m) (.edited m.session.program) := by
  have hedit := made_enterOffered_edit m hmode (head_of_missing h)
  obtain ⟨-, number, hkept⟩ := edit_of_missing h
  rwa [hkept] at hedit

/-- Any other line is treated as at the direct prompt. -/
theorem made_of_alike (hmode : m.session.mode = .autoNumbering) (hempty : ¬ Codeless line)
    (hmissing : ¬ m.session.program.Missing (Text.utf8 line)) :
    Entry.Made m.session (enterOffered line m) (entryOf m.session.program line) := by
  by_cases hhead : (Crunch.line line).head? = some endLine
  · have hblank : Text.isBlank line = false := by
      cases hblank : Text.isBlank line with
      | false => rfl
      | true => exact absurd ⟨hblank, (Program.head_line_of_isBlank hblank).1 hhead⟩ hempty
    obtain ⟨hsame, -⟩ | ⟨h, -⟩ := m.session.program.edit_or_missing hhead
    · rw [entryOf, hblank, if_neg Bool.false_ne_true, if_pos hhead, hsame]
      exact made_enterOffered_edit m hmode hhead
    · exact absurd h hmissing
  · exact made_enterOffered_command m hhead

/-- The lines with which the prompts do the same. -/
theorem made_enterOffered_iff (hmode : m.session.mode = .autoNumbering) :
    Entry.Made m.session (enterOffered line m) (entryOf m.session.program line) ↔
      ¬ (Codeless line ∨ m.session.program.Missing (Text.utf8 line)) := by
  constructor
  · rintro h (hempty | hmissing)
    · rw [hempty.entryOf_eq] at h
      exact h.not_refused_of_ignored (made_of_empty m hmode hempty)
    · rw [entryOf_of_missing hmissing] at h
      exact (made_of_missing m hmode hmissing).not_refused_of_edited h
  · intro h
    exact made_of_alike m hmode (fun hempty => h (.inl hempty)) fun hmissing => h (.inr hmissing)

end Offered

/-- **The two prompts.**  Any line that does not start with the offered number and a star is treated
alike at both prompts, unless it is empty or deletes a line that does not exist.  An empty line is
ignored at the direct prompt, and refused where numbers are offered; the deletion is refused at the
direct prompt, and changes no line where numbers are offered. -/
theorem prompts_agree_iff (m : Machine) (line : String)
    (hread : (m.console.readLine (offered m.session) (offered m.session).utf8ByteSize).1 = .ok line)
    (hstar : ¬ (toString m.session.auto.line ++ "*").toList <+: line.toList) :
    let p := m.session.program
    let direct := m.atPrompt .direct
    let auto := m.atPrompt .autoNumbering
    Entry.Made direct.session (storeLine line direct) (entryOf p line) ∧
      (Entry.Made auto.session (autoStep auto) (entryOf p line) ↔
        ¬ (Codeless line ∨ p.Missing (Text.utf8 line))) ∧
      (Codeless line → entryOf p line = .ignored ∧
        Entry.Made auto.session (autoStep auto) (.refused (.of .syntaxError))) ∧
      (p.Missing (Text.utf8 line) → entryOf p line = .refused (.of .undefinedLineNumber) ∧
        Entry.Made auto.session (autoStep auto) (.edited p)) := by
  intro p direct auto
  have hstep : autoStep auto = enterOffered line auto.asked := by
    rw [autoStep_of_read auto hread]
    exact congrArg (enterOffered · auto.asked) (dropStar_of_not_isPrefix hstar)
  have hasked : ∀ entry, Entry.Made auto.asked.session (enterOffered line auto.asked) entry ↔
      Entry.Made auto.session (enterOffered line auto.asked) entry :=
    fun entry => ⟨.congr_session rfl rfl, .congr_session rfl rfl⟩
  rw [hstep]
  refine ⟨made_storeLine m line, ?_, fun hempty => ⟨hempty.entryOf_eq, ?_⟩,
    fun hmissing => ⟨entryOf_of_missing hmissing, ?_⟩⟩
  · rw [← hasked]
    exact made_enterOffered_iff auto.asked rfl
  · rw [← hasked]
    exact made_of_empty auto.asked rfl hempty
  · rw [← hasked]
    exact made_of_missing auto.asked rfl hmissing

/-- Line 100 is offered, and the operator types over it. -/
def typingOver (line : String) : Machine where
  session := { auto := { line := 100 }, autoActive := true }
  console := { input := [.over line] }

theorem codeless_nil : Codeless "" := by
  have hbytes : Text.utf8 "" = [] := by decide
  have hline : Crunch.bytes [] = Crunch.body false [] ++ [endLine] := rfl
  exact ⟨by decide, by rw [Crunch.line, hbytes, hline, Crunch.body]; rfl⟩

/-- A line that deletes line 20, which is not there: an error, or nothing. -/
theorem typingOver_prompts_agree :
    let m := typingOver "20"
    let auto := m.atPrompt .autoNumbering
    (m.console.readLine (offered m.session) (offered m.session).utf8ByteSize).1 = .ok "20" ∧
      ¬ (toString m.session.auto.line ++ "*").toList <+: "20".toList ∧
      m.session.program.Missing (Text.utf8 "20") ∧
      ¬ Entry.Made auto.session (autoStep auto) (entryOf m.session.program "20") ∧
      Entry.Made auto.session (autoStep auto) (.edited m.session.program) := by
  intro m auto
  have hstar : ¬ (toString m.session.auto.line ++ "*").toList <+: "20".toList := by decide
  have hmissing : m.session.program.Missing (Text.utf8 "20") := by
    refine ⟨20, [], by decide, by decide, ?_, by decide⟩
    rw [Crunch.body]
    rfl
  obtain ⟨-, hagree, -, hkept⟩ := prompts_agree_iff m "20" rfl hstar
  exact ⟨rfl, hstar, hmissing, fun h => hagree.1 h (.inr hmissing), (hkept hmissing).2⟩

/-- An empty line is ignored at one prompt and refused at the other. -/
theorem prompts_differ_on_empty :
    let m := typingOver ""
    let direct := m.atPrompt .direct
    let auto := m.atPrompt .autoNumbering
    Entry.Made direct.session (storeLine "" direct) .ignored ∧
      Entry.Made auto.session (autoStep auto) (.refused (.of .syntaxError)) := by
  intro m direct auto
  have hstar : ¬ (toString auto.session.auto.line ++ "*").toList <+: "".toList := by decide
  refine ⟨?_, ?_⟩
  · rw [← codeless_nil.entryOf_eq]
    exact made_storeLine m ""
  · rw [@autoStep_of_read auto "" rfl, dropStar_of_not_isPrefix hstar]
    exact (made_of_empty auto.asked rfl codeless_nil).congr_session rfl rfl

end Machine

end LineBasic

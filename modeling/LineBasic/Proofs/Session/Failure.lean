import LineBasic.Proofs.Session.Flow

/-!
# What a jump that fails leaves behind

Jumps, calls and `CONT` look before they act: if they fail, nothing has happened.  `RETURN` and
`RESUME` with a line let go of the subroutine or the handler that they leave, and only then look for
the line.

* `FlowOperation`: the operations that say where a session goes on.
* `FlowOperation.failure?`, `FlowOperation.leftover`: the error with which such an operation fails,
  and the session that it then leaves.
* `FlowOperation.perform_eq_error_iff`: these are what it does.
* `FlowOperation.unchanged_iff_not_releases`: when the session is left as it was.
-/

namespace LineBasic

/-- The operations that say where a session goes on. -/
inductive FlowOperation where
  | jump (line : Option UInt16)
  | call (line : UInt16) (handler : Option EventKind)
  | back (line : Option UInt16)
  | cont
  | resume (target : ResumeTarget)

namespace FlowOperation

/-- What a session does for the operation. -/
def perform : FlowOperation → SessionM Unit
  | jump line => Session.jump line
  | call line handler => Session.call line handler
  | back line => Session.return line
  | cont => Session.cont
  | resume target => Session.resume target

/-- Why a jump fails. -/
def missing? (s : Session) (line : Option UInt16) : Option ErrorCode :=
  match s.target? line with
  | some _ => none
  | none => some .undefinedLineNumber

/-- Why the operation fails. -/
def failure? (s : Session) : FlowOperation → Option ErrorCode
  | jump line => missing? s line
  | call line _ =>
    (missing? s (some line)).or
      (if s.gosub.limit < s.gosub.items.length + 1 then some .outOfMemory else none)
  | back line =>
    match s.gosub.items, line with
    | [], _ => some .returnWithoutGosub
    | _ :: _, some _ => missing? s line
    | _ :: _, none => none
  | cont => if s.stop.isNone then some .cantContinue else none
  | resume target =>
    match s.trap.active, target with
    | none, _ => some .resumeWithoutError
    | some _, .line number => missing? s (some number)
    | some _, _ => none

/-- The operation lets go of a subroutine or a handler before it looks for a line. -/
def Releases (s : Session) : FlowOperation → Prop
  | back (some _) => s.gosub.items ≠ []
  | resume (.line _) => s.trap.active ≠ none
  | _ => False

/-- What the operation leaves of a session if it fails. -/
def leftover (s : Session) : FlowOperation → Session
  | back (some _) =>
    match s.gosub.items with
    | [] => s
    | frame :: rest => s.popped frame rest
  | resume (.line _) =>
    match s.trap.active with
    | none => s
    | some _ => s.resumed
  | _ => s

theorem leftover_of_releases_back {s : Session} {line : UInt16}
    (h : Releases s (back (some line))) :
    (leftover s (back (some line))).gosub.items = s.gosub.items.tail := by
  cases hitems : s.gosub.items with
  | nil => exact absurd hitems h
  | cons frame rest => simp [leftover, hitems, Session.popped]

theorem leftover_of_releases_resume {s : Session} {line : UInt16}
    (h : Releases s (resume (.line line))) :
    (leftover s (resume (.line line))).trap.active = none := by
  cases hactive : s.trap.active with
  | none => exact absurd hactive h
  | some context => simp [leftover, hactive, Session.resumed]

/-- Letting go shows, and nothing else does. -/
theorem leftover_eq_self_iff {s : Session} {op : FlowOperation} :
    op.leftover s = s ↔ ¬ op.Releases s := by
  cases op with
  | jump line => simp [leftover, Releases]
  | call line handler => simp [leftover, Releases]
  | cont => simp [leftover, Releases]
  | back line =>
    cases line with
    | none => simp [leftover, Releases]
    | some line =>
      constructor
      · intro hself hreleases
        have hitems := leftover_of_releases_back hreleases
        rw [hself] at hitems
        have hlength := congrArg List.length hitems
        have hpos : 0 < s.gosub.items.length := List.length_pos_iff.2 hreleases
        rw [List.length_tail] at hlength
        omega
      · intro hreleases
        have hitems : s.gosub.items = [] := by simpa [Releases] using hreleases
        simp [leftover, hitems]
  | resume target =>
    cases target with
    | statement => simp [leftover, Releases]
    | next => simp [leftover, Releases]
    | line number =>
      constructor
      · intro hself hreleases
        have hactive := leftover_of_releases_resume hreleases
        rw [hself] at hactive
        exact hreleases hactive
      · intro hreleases
        have hactive : s.trap.active = none := by simpa [Releases] using hreleases
        simp [leftover, hactive]

/-! ## Failing -/

variable {s s' : Session} {e : BasicError}

theorem jump_eq_error_iff {line : Option UInt16} :
    Session.jump line s = .error e s' ↔
      ∃ code, missing? s line = some code ∧ e = .of code ∧ s' = s := by
  rw [Session.jump_apply, missing?]
  cases s.target? line <;> simp [eq_comm]

theorem call_eq_error_iff {line : UInt16} {handler : Option EventKind} :
    Session.call line handler s = .error e s' ↔
      ∃ code, failure? s (call line handler) = some code ∧ e = .of code ∧ s' = s := by
  have hcontains := Program.isSome_offsetOf? s.program line
  simp only [Session.call, Effect.bind_apply, Effect.get_apply, Effect.ite_apply, ← hcontains,
    failure?, missing?, Session.target?, BoundedStack.push]
  cases hoffset : s.program.offsetOf? line with
  | none => simp [eq_comm]
  | some pos =>
    by_cases hfull : s.gosub.limit < s.gosub.items.length + 1
    · simp [hfull, eq_comm]
    · simp [hfull, Session.jump_apply, Session.target?, hoffset]

/-- What the operations do when they fail. -/
theorem perform_eq_error_iff {op : FlowOperation} :
    op.perform s = .error e s' ↔
      ∃ code, op.failure? s = some code ∧ e = .of code ∧ s' = op.leftover s := by
  cases op with
  | jump line => exact jump_eq_error_iff
  | call line handler => exact call_eq_error_iff
  | cont =>
    simp only [perform, Session.cont_apply, failure?, leftover]
    cases s.stop <;> simp [eq_comm]
  | back line =>
    simp only [perform, Session.return_apply, failure?, leftover]
    cases s.gosub.items with
    | nil => cases line <;> simp [eq_comm]
    | cons frame rest =>
      cases line with
      | none => simp
      | some line => exact jump_eq_error_iff
  | resume target =>
    simp only [perform, Session.resume_apply, failure?, leftover]
    cases s.trap.active with
    | none => cases target <;> simp [eq_comm]
    | some context =>
      cases target with
      | statement => simp
      | next => simp
      | line number => exact jump_eq_error_iff

theorem failure?_of_releases {op : FlowOperation} {code : ErrorCode} (hreleases : op.Releases s)
    (hfailure : op.failure? s = some code) : code = .undefinedLineNumber := by
  have hmissing {line : Option UInt16} (h : missing? s line = some code) :
      code = .undefinedLineNumber := by
    unfold missing? at h
    cases htarget : s.target? line with
    | some pos => simp [htarget] at h
    | none => simpa [htarget, eq_comm] using h
  cases op with
  | jump line => cases hreleases
  | call line handler => cases hreleases
  | cont => cases hreleases
  | back line =>
    cases line with
    | none => cases hreleases
    | some line =>
      cases hitems : s.gosub.items with
      | nil => exact absurd hitems hreleases
      | cons frame rest => exact hmissing (by simpa [failure?, hitems] using hfailure)
  | resume target =>
    cases target with
    | statement => cases hreleases
    | next => cases hreleases
    | line number =>
      cases hactive : s.trap.active with
      | none => exact absurd hactive hreleases
      | some context => exact hmissing (by simpa [failure?, hactive] using hfailure)

/-- An operation that fails leaves the code, the places in it and where `CONT` goes on alone.  It
leaves the whole session alone unless it is a return or a resumption to a line that does not exist,
made where there is a subroutine to return from or a handler to leave: that has happened. -/
theorem unchanged_iff_not_releases {op : FlowOperation} (h : op.perform s = .error e s') :
    s' = { s with gosub := s'.gosub, events := s'.events, trap := s'.trap } ∧
      (s' = s ↔ ¬ op.Releases s) ∧
      (op.Releases s → e = .of .undefinedLineNumber ∧ s' = op.leftover s) := by
  obtain ⟨code, hfailure, rfl, rfl⟩ := perform_eq_error_iff.1 h
  refine ⟨?_, leftover_eq_self_iff, fun hreleases => ⟨?_, rfl⟩⟩
  · unfold leftover
    split
    · split <;> rfl
    · split <;> rfl
    · rfl
  · rw [failure?_of_releases hreleases hfailure]

/-- The handler of a key, called from the direct line. -/
def handlingKey : Session where
  gosub := { label := "GOSUB", limit := 256, items := [⟨0, false, some (.key 1)⟩] }
  events := EventTable.initial.modify (.key 1) fun d => { d with state := .handlerActive }

/-- A call that fails leaves the subroutine that it is made from. -/
theorem failed_call_unchanged :
    ∃ e s', (call 999 none).perform handlingKey = .error e s' ∧ s' = handlingKey := by
  have hfails : (call 999 none).perform handlingKey = .error (.of .undefinedLineNumber) handlingKey :=
    rfl
  exact ⟨_, _, hfails, (unchanged_iff_not_releases hfails).2.1.2 id⟩

/-- A return that fails has returned: the subroutine is gone, and the key may call it again. -/
theorem failed_return_returned :
    ∃ s', (back (some 999)).perform handlingKey = .error (.of .undefinedLineNumber) s' ∧
      s'.gosub ≠ handlingKey.gosub ∧ s'.events ≠ handlingKey.events :=
  ⟨_, rfl, by decide, by decide⟩

end FlowOperation

end LineBasic

import LineBasic.Program.Basic

/-!
# The image of a program

Where the lines of a program stand in its image.

* `length_render`, `drop_render`: how long an image is, and what it looks like from a line on.
* `offsetFrom_eq_some_iff`: the offset of a line is the room that the lines before it take.
* `lineFrom_append`: an offset belongs to the last line that starts at or before it.
-/

namespace LineBasic.Program

/-- The number of bytes that lines take in an image. -/
def extent : List Line → Nat
  | [] => 0
  | l :: rest => l.size + extent rest

@[simp] theorem extent_nil : extent [] = 0 := rfl

@[simp] theorem extent_cons (l : Line) (rest : List Line) :
    extent (l :: rest) = l.size + extent rest := rfl

@[simp] theorem extent_append (before after : List Line) :
    extent (before ++ after) = extent before + extent after := by
  induction before with
  | nil => simp
  | cons l rest ih => simp only [List.cons_append, extent_cons, ih]; omega

/-! ## Cutting an image -/

/-- An image is as long as its lines, with three bytes at the end. -/
theorem length_render (offset : Nat) (lines : List Line) :
    (render offset lines).length = extent lines + 3 := by
  induction lines generalizing offset with
  | nil => rfl
  | cons l rest ih =>
    simp only [render, List.length_append, List.length_cons, Endian.length_bytes,
      Endian.length_word, ih, extent_cons, Line.size]
    omega

/-- One line of an image, with its link. -/
def entry (link : Nat) (l : Line) : List UInt8 :=
  Token.endLine :: Endian.bytes 2 link ++ Endian.word l.number ++ l.body

@[simp] theorem length_entry (link : Nat) (l : Line) : (entry link l).length = l.size := by
  simp only [entry, List.length_append, List.length_cons, Endian.length_bytes,
    Endian.length_word, Line.size]
  omega

/-- An image, line by line. -/
theorem render_cons (offset : Nat) (l : Line) (rest : List Line) :
    render offset (l :: rest) =
      entry (offset + l.size + 1) l ++ render (offset + l.size) rest := rfl

theorem render_eq_cons (offset : Nat) (lines : List Line) :
    ∃ rest, render offset lines = Token.endLine :: rest := by
  cases lines with
  | nil => exact ⟨_, rfl⟩
  | cons l rest => exact ⟨_, rfl⟩

/-- From a line on, an image is the image of the lines from there on. -/
theorem drop_render (offset : Nat) (before after : List Line) :
    (render offset (before ++ after)).drop (extent before) =
      render (offset + extent before) after := by
  induction before generalizing offset with
  | nil => rfl
  | cons l rest ih =>
    have h : extent (l :: rest) = (entry (offset + l.size + 1) l).length + extent rest := by simp
    rw [List.cons_append, render_cons, h, List.drop_length_add_append, ih]
    congr 1
    simp only [length_entry]
    omega

/-! ## Programs of given lines -/

theorem ofLines_of_fits {lines : List Line} (h : Ascending lines)
    (hfits : (render 0 lines).length ≤ maxImageSize) :
    ofLines lines h =
      .ok { lines, pos := 0, image := render 0 lines, ascending := h, linked := rfl, fits := hfits } :=
  dif_pos hfits

theorem ofLines_of_not_fits {lines : List Line} (h : Ascending lines)
    (hfits : ¬ (render 0 lines).length ≤ maxImageSize) :
    ofLines lines h = .error (.of .outOfMemory) :=
  dif_neg hfits

/-! ## Ascending lines -/

theorem Ascending.of_cons {l : Line} {rest : List Line} (h : Ascending (l :: rest)) :
    Ascending rest :=
  (List.pairwise_cons.1 h).2

theorem Ascending.number_lt {before after : List Line} {l m : Line}
    (h : Ascending (before ++ l :: after)) (hm : m ∈ before) : m.number < l.number :=
  (List.pairwise_append.1 h).2.2 m hm l List.mem_cons_self

theorem Ascending.lt_number {before after : List Line} {l m : Line}
    (h : Ascending (before ++ l :: after)) (hm : m ∈ after) : l.number < m.number :=
  (List.pairwise_cons.1 (List.pairwise_append.1 h).2.1).1 m hm

/-- Of ascending lines, one with a number is the only one with it. -/
theorem Ascending.eq_of_number_eq {lines : List Line} (h : Ascending lines) {l m : Line}
    (hl : l ∈ lines) (hm : m ∈ lines) (he : l.number = m.number) : l = m := by
  induction lines with
  | nil => exact absurd hl List.not_mem_nil
  | cons a rest ih =>
    obtain ⟨ha, hr⟩ := List.pairwise_cons.1 h
    rcases List.mem_cons.1 hl with rfl | hl' <;> rcases List.mem_cons.1 hm with rfl | hm'
    · rfl
    · exact absurd he (UInt16.ne_of_lt (ha m hm'))
    · exact absurd he.symm (UInt16.ne_of_lt (ha l hl'))
    · exact ih hr hl' hm'

/-! ## Offsets -/

/-- The offset of a number is where the first line with it starts. -/
theorem offsetFrom_eq_some_iff {number : UInt16} {offset start : Nat} {lines : List Line} :
    offsetFrom number offset lines = some start ↔
      ∃ before l after, lines = before ++ l :: after ∧ l.number = number ∧
        (∀ m ∈ before, m.number ≠ number) ∧ start = offset + extent before := by
  induction lines generalizing offset with
  | nil => simp [offsetFrom]
  | cons a rest ih =>
    unfold offsetFrom
    by_cases ha : a.number = number
    · rw [if_pos ha]
      constructor
      · intro h
        refine ⟨[], a, rest, rfl, ha, by simp, ?_⟩
        simpa using (Option.some.inj h).symm
      · rintro ⟨before, l, after, hs, hl, hb, rfl⟩
        cases before with
        | nil => simp
        | cons b before =>
          have : a = b := (List.cons.inj hs).1
          exact absurd ha (hb a (by simp [this]))
    · rw [if_neg ha, ih]
      constructor
      · rintro ⟨before, l, after, rfl, hl, hb, rfl⟩
        refine ⟨a :: before, l, after, rfl, hl, ?_, ?_⟩
        · intro m hm
          rcases List.mem_cons.1 hm with rfl | hm
          · exact ha
          · exact hb m hm
        · rw [extent_cons]
          omega
      · rintro ⟨before, l, after, hs, hl, hb, rfl⟩
        cases before with
        | nil => exact absurd (by rw [(List.cons.inj hs).1]; exact hl) ha
        | cons b before =>
          obtain ⟨rfl, hr⟩ := List.cons.inj hs
          refine ⟨before, l, after, hr, hl, fun m hm => hb m (List.mem_cons_of_mem _ hm), ?_⟩
          rw [extent_cons]
          omega

/-- A number has no offset exactly if no line has it. -/
theorem offsetFrom_eq_none_iff {number : UInt16} {offset : Nat} {lines : List Line} :
    offsetFrom number offset lines = none ↔ ∀ l ∈ lines, l.number ≠ number := by
  induction lines generalizing offset with
  | nil => simp [offsetFrom]
  | cons a rest ih =>
    unfold offsetFrom
    by_cases ha : a.number = number <;> simp [ha, ih]

/-- Ascending lines start where the lines before them end. -/
theorem Ascending.offsetFrom_eq {before after : List Line} {l : Line} (offset : Nat)
    (h : Ascending (before ++ l :: after)) :
    offsetFrom l.number offset (before ++ l :: after) = some (offset + extent before) := by
  refine offsetFrom_eq_some_iff.2 ⟨before, l, after, rfl, rfl, fun m hm => ?_, rfl⟩
  exact UInt16.ne_of_lt (h.number_lt hm)

/-! ## The line of an offset -/

/-- An offset inside a line belongs to it; the last line reaches to the end and beyond. -/
theorem lineFrom_append {pos offset : Nat} {before after : List Line} {l : Line}
    (found : Option UInt16) (hl : offset + extent before ≤ pos)
    (ha : after ≠ [] → pos < offset + extent before + l.size) :
    lineFrom pos found offset (before ++ l :: after) = some l.number := by
  induction before generalizing offset found with
  | nil =>
    rw [extent_nil, Nat.add_zero] at hl ha
    rw [List.nil_append, lineFrom, if_pos hl]
    cases after with
    | nil => rfl
    | cons m rest =>
      have : ¬ offset + l.size ≤ pos := Nat.not_le.2 (ha (by simp))
      rw [lineFrom, if_neg this]
  | cons m rest ih =>
    rw [extent_cons] at hl ha
    rw [List.cons_append, lineFrom, if_pos (by omega), ih]
    · omega
    · intro h
      have := ha h
      omega

/-- The same of a whole program. -/
theorem lineAt?_of_append {p : Program} {pos : Nat} {before after : List Line} {l : Line}
    (hlines : p.lines = before ++ l :: after) (hl : extent before ≤ pos)
    (ha : after ≠ [] → pos < extent before + l.size) : p.lineAt? pos = some l.number := by
  rw [lineAt?, hlines]
  exact lineFrom_append none (by omega) (by simpa using ha)

/-- Every offset of a program with lines lies in one of them, in the sense of `lineFrom_append`. -/
theorem exists_line_of_offset (pos : Nat) {lines : List Line} (h : lines ≠ []) :
    ∃ before l after, lines = before ++ l :: after ∧ extent before ≤ pos ∧
      (after ≠ [] → pos < extent before + l.size) := by
  induction lines generalizing pos with
  | nil => exact absurd rfl h
  | cons a rest ih =>
    by_cases hr : rest = [] ∨ pos < a.size
    · refine ⟨[], a, rest, rfl, by simp, fun hne => ?_⟩
      simpa using hr.resolve_left hne
    · obtain ⟨hne, hp⟩ := not_or.1 hr
      obtain ⟨before, l, after, rfl, hl, ha⟩ := ih (pos - a.size) hne
      refine ⟨a :: before, l, after, rfl, ?_, fun hne => ?_⟩
      · rw [extent_cons]
        omega
      · have := ha hne
        rw [extent_cons]
        omega

end LineBasic.Program

import Mathlib.Data.List.Sort
import LineBasic.Proofs.Program.Image

/-!
# Programs as finite maps

What a program holds, seen from outside: a map from line numbers to bodies.  The bodies are cut out of
the image between the offset of a line and that of the next one, and everything else that a program
answers (its image, offsets, listing) can be told from the map alone.

* `LineMap.lines`, `LineMap.offset`, `LineMap.image`: the lines of a map in ascending order, where each
  of them starts, and the image they make.
* `Program.body?`, `Program.toMap`: the bodies of a program, cut out of its image.
* `Program.lines_toMap`, `Program.image_toMap`: a program has the lines and the image of its map.
-/

namespace LineBasic

/-- Line numbers and the bodies stored under them. -/
abbrev LineMap := UInt16 → Option (List UInt8)

namespace LineMap

/-- All line numbers, in ascending order. -/
def numbers : List UInt16 :=
  (List.range 65536).map UInt16.ofNat

/-- The lines of a map, in ascending order. -/
def lines (m : LineMap) : List Line :=
  numbers.filterMap fun n => (m n).map (Line.mk n)

/-- Where a line starts: after all lines with lower numbers. -/
def offset (m : LineMap) (n : UInt16) : Nat :=
  Program.extent (m.lines.filter (·.number < n))

/-- Where the line after `n` starts, or the end of the program if there is none. -/
def next (m : LineMap) (n : UInt16) : Nat :=
  ((m.lines.find? (n < ·.number)).map fun l => m.offset l.number).getD (Program.extent m.lines)

/-- The lines one after the other, each as `00`, the offset of the next line plus one, its number and
its body; then three zero bytes. -/
def image (m : LineMap) : List UInt8 :=
  (m.lines.flatMap fun l =>
    0 :: Endian.bytes 2 (m.next l.number + 1) ++ Endian.bytes 2 l.number.toNat ++ l.body) ++ [0, 0, 0]

/-- The empty map. -/
def empty : LineMap := fun _ => none

/-- Adds a line or replaces its body. -/
def insert (m : LineMap) (n : UInt16) (body : List UInt8) : LineMap :=
  fun k => if k = n then some body else m k

/-- Removes the lines whose numbers pass a test. -/
def erase (m : LineMap) (test : UInt16 → Bool) : LineMap :=
  fun k => if test k then none else m k

/-- The map of a list of lines. -/
def ofLines (lines : List Line) : LineMap :=
  fun n => (lines.find? fun l => l.number = n).map Line.body

/-! ## The lines of a map -/

theorem mem_numbers (n : UInt16) : n ∈ numbers := by
  refine List.mem_map.2 ⟨n.toNat, List.mem_range.2 (UInt16.toNat_lt n), ?_⟩
  exact UInt16.ofNat_toNat

theorem numbers_pairwise : numbers.Pairwise (· < ·) := by
  rw [numbers, List.pairwise_map]
  refine List.Pairwise.imp_of_mem ?_ List.pairwise_lt_range
  intro a b ha hb hab
  rw [List.mem_range] at ha hb
  rw [UInt16.lt_iff_toNat_lt, UInt16.toNat_ofNat', UInt16.toNat_ofNat']
  omega

-- Unfolded, the list has 65536 numbers in it: from here on only the two lemmas above speak of it.
attribute [irreducible] numbers

theorem mem_lines {m : LineMap} {l : Line} : l ∈ m.lines ↔ m l.number = some l.body := by
  rw [lines, List.mem_filterMap]
  constructor
  · rintro ⟨n, -, h⟩
    obtain ⟨body, hb, rfl⟩ := Option.map_eq_some_iff.1 h
    exact hb
  · intro h
    exact ⟨l.number, mem_numbers _, by rw [h]; rfl⟩

theorem ascending_lines (m : LineMap) : Program.Ascending m.lines := by
  rw [Program.Ascending, lines, List.pairwise_filterMap]
  refine numbers_pairwise.imp ?_
  intro a b hab l hl l' hl'
  obtain ⟨_, -, rfl⟩ := Option.map_eq_some_iff.1 hl
  obtain ⟨_, -, rfl⟩ := Option.map_eq_some_iff.1 hl'
  exact hab

end LineMap

namespace Program

/-- Two ascending lists with the same lines are equal. -/
theorem Ascending.ext {lines lines' : List Line} (h : Ascending lines) (h' : Ascending lines')
    (hm : ∀ l, l ∈ lines ↔ l ∈ lines') : lines = lines' := by
  have hirrefl : ∀ l : Line, ¬ l.number < l.number := fun l => UInt16.lt_irrefl l.number
  have hasymm : ∀ l l' : Line, l.number < l'.number → ¬ l'.number < l.number :=
    fun l l' h => UInt16.lt_asymm h
  have : Std.Irrefl fun l l' : Line => l.number < l'.number := ⟨hirrefl⟩
  have : Std.Antisymm fun l l' : Line => l.number < l'.number :=
    ⟨fun l l' h h' => absurd h' (hasymm l l' h)⟩
  exact h.eq_of_mem_iff h' hm

theorem Ascending.mem_iff_ofLines {lines : List Line} (h : Ascending lines) {l : Line} :
    LineMap.ofLines lines l.number = some l.body ↔ l ∈ lines := by
  rw [LineMap.ofLines, Option.map_eq_some_iff]
  constructor
  · rintro ⟨k, hk, hb⟩
    have hn : k.number = l.number := by simpa using List.find?_some hk
    have : k = l := by
      cases k
      cases l
      simp_all
    exact this ▸ List.mem_of_find?_eq_some hk
  · intro hl
    obtain ⟨k, hk⟩ : ∃ k, lines.find? (fun k => k.number = l.number) = some k := by
      cases hf : lines.find? (fun k => k.number = l.number) with
      | none => exact absurd (by simp) (List.find?_eq_none.1 hf l hl)
      | some k => exact ⟨k, rfl⟩
    have hn : k.number = l.number := by simpa using List.find?_some hk
    exact ⟨k, hk, by rw [h.eq_of_number_eq (List.mem_of_find?_eq_some hk) hl hn]⟩

/-- Ascending lines are the lines of their map. -/
theorem Ascending.lines_ofLines {lines : List Line} (h : Ascending lines) :
    (LineMap.ofLines lines).lines = lines := by
  refine (LineMap.ascending_lines _).ext h fun l => ?_
  rw [LineMap.mem_lines, h.mem_iff_ofLines]

end Program

namespace LineMap

variable {m : LineMap} {before after : List Line} {l : Line}

/-- A line of a map starts where the lines before it end. -/
theorem offset_eq (h : m.lines = before ++ l :: after) :
    m.offset l.number = Program.extent before := by
  have hasc : Program.Ascending (before ++ l :: after) := by
    rw [← h]
    exact m.ascending_lines
  have hb : before.filter (·.number < l.number) = before :=
    List.filter_eq_self.2 fun k hk => decide_eq_true (hasc.number_lt hk)
  have ha : (l :: after).filter (·.number < l.number) = [] := by
    refine List.filter_eq_nil_iff.2 fun k hk => ?_
    rw [decide_eq_true_eq]
    rcases List.mem_cons.1 hk with rfl | hk
    · exact UInt16.lt_irrefl _
    · exact UInt16.lt_asymm (hasc.lt_number hk)
  rw [offset, h, List.filter_append, hb, ha, List.append_nil]

/-- The line after a line of a map starts where that line ends. -/
theorem next_eq (h : m.lines = before ++ l :: after) :
    m.next l.number = Program.extent before + l.size := by
  have hasc : Program.Ascending (before ++ l :: after) := by
    rw [← h]
    exact m.ascending_lines
  have hnot : ∀ k ∈ before ++ [l], ¬ l.number < k.number := by
    intro k hk
    rcases List.mem_append.1 hk with hk | hk
    · exact UInt16.lt_asymm (hasc.number_lt hk)
    · rw [List.mem_singleton.1 hk]
      exact UInt16.lt_irrefl _
  have hsplit : m.lines = (before ++ [l]) ++ after := by rw [h]; simp
  have hfind : m.lines.find? (l.number < ·.number) = after.find? (l.number < ·.number) := by
    rw [hsplit, List.find?_append, List.find?_eq_none.2 fun k hk => by simpa using hnot k hk]
    rfl
  rw [next, hfind]
  cases after with
  | nil =>
    rw [List.find?_nil, Option.map_none, Option.getD_none, h]
    simp
  | cons k after =>
    have hk : l.number < k.number := hasc.lt_number List.mem_cons_self
    rw [List.find?_cons_of_pos (by simpa using hk), Option.map_some, Option.getD_some]
    have hnext : m.lines = (before ++ [l]) ++ k :: after := hsplit
    simpa using offset_eq hnext

/-- The image of a map is the image of its lines. -/
theorem image_eq_render (m : LineMap) : m.image = Program.render 0 m.lines := by
  have key : ∀ before rest, m.lines = before ++ rest →
      (rest.flatMap fun l => 0 :: Endian.bytes 2 (m.next l.number + 1) ++
        Endian.bytes 2 l.number.toNat ++ l.body) ++ [0, 0, 0] =
      Program.render (Program.extent before) rest := by
    intro before rest
    induction rest generalizing before with
    | nil => intro _; rfl
    | cons l rest ih =>
      intro h
      have hr := ih (before ++ [l]) (by rw [h]; simp)
      rw [Program.extent_append, Program.extent_cons, Program.extent_nil, Nat.add_zero] at hr
      rw [List.flatMap_cons, List.append_assoc, hr, next_eq h]
      rfl
  exact key [] m.lines (List.nil_append _).symm

end LineMap

namespace Program

/-! ## The map of a program -/

/-- Where the line after `number` starts, or the end of the program if there is none. -/
def stopOf (p : Program) (number : UInt16) : Nat :=
  ((p.lines.find? fun l => number < l.number).bind fun l => p.offsetOf? l.number).getD
    (p.image.length - 3)

/-- The body of a line, cut out of the image between the line's header and the next line. -/
def body? (p : Program) (number : UInt16) : Option (List UInt8) :=
  (p.offsetOf? number).map fun start => (p.image.take (p.stopOf number)).drop (start + 5)

/-- The bodies of a program by line number. -/
def toMap (p : Program) : LineMap :=
  fun number => p.body? number

/-- The lines before and after a line of a program that has one. -/
theorem exists_split_of_offsetOf? {p : Program} {number : UInt16} {start : Nat}
    (h : p.offsetOf? number = some start) :
    ∃ before l after, p.lines = before ++ l :: after ∧ l.number = number ∧
      start = extent before := by
  obtain ⟨before, l, after, hs, hl, -, rfl⟩ := offsetFrom_eq_some_iff.1 h
  exact ⟨before, l, after, hs, hl, Nat.zero_add _⟩

theorem offsetOf?_eq {p : Program} {before after : List Line} {l : Line}
    (h : p.lines = before ++ l :: after) : p.offsetOf? l.number = some (extent before) := by
  have hasc : Ascending (before ++ l :: after) := by
    rw [← h]
    exact p.ascending
  rw [offsetOf?, h, hasc.offsetFrom_eq, Nat.zero_add]

/-- The lines of a program are the lines of the map they make. -/
theorem lines_ofLines (p : Program) : (LineMap.ofLines p.lines).lines = p.lines :=
  p.ascending.lines_ofLines

theorem stopOf_eq {p : Program} {before after : List Line} {l : Line}
    (h : p.lines = before ++ l :: after) : p.stopOf l.number = extent before + l.size := by
  have hm : (LineMap.ofLines p.lines).lines = before ++ l :: after := by rw [lines_ofLines, h]
  have hnext := LineMap.next_eq hm
  rw [LineMap.next, lines_ofLines] at hnext
  unfold stopOf
  cases hf : p.lines.find? (fun k => l.number < k.number) with
  | none =>
    rw [hf, Option.map_none, Option.getD_none] at hnext
    rw [p.linked, length_render, Option.bind_none, Option.getD_none, ← hnext]
    omega
  | some k =>
    rw [hf, Option.map_some, Option.getD_some] at hnext
    obtain ⟨before', after', hs⟩ := List.append_of_mem (List.mem_of_find?_eq_some hf)
    have hm' : (LineMap.ofLines p.lines).lines = before' ++ k :: after' := by
      rw [lines_ofLines, hs]
    rw [Option.bind_some, offsetOf?_eq hs, Option.getD_some, ← LineMap.offset_eq hm']
    exact hnext

/-- What is cut out of the image for a line is the line's body. -/
theorem toMap_eq_ofLines (p : Program) : p.toMap = LineMap.ofLines p.lines := by
  funext number
  unfold toMap body?
  cases ho : p.offsetOf? number with
  | none =>
    have hnone := offsetFrom_eq_none_iff.1 ho
    have : p.lines.find? (fun l => l.number = number) = none :=
      List.find?_eq_none.2 fun l hl => by simpa using hnone l hl
    rw [LineMap.ofLines, this]
    rfl
  | some start =>
    obtain ⟨before, l, after, hs, rfl, rfl⟩ := exists_split_of_offsetOf? ho
    have hl : LineMap.ofLines p.lines l.number = some l.body :=
      p.ascending.mem_iff_ofLines.2 (by rw [hs]; simp)
    have himage : p.image.drop (extent before) =
        entry (extent before + l.size + 1) l ++ render (extent before + l.size) after := by
      rw [p.linked, hs, drop_render, Nat.zero_add, render_cons]
    have hbody : (p.image.drop (extent before)).drop 5 =
        l.body ++ render (extent before + l.size) after := by
      rw [himage]
      rfl
    have hlen : extent before + l.size - (extent before + 5) = l.body.length := by
      unfold Line.size
      omega
    rw [hl, Option.map_some, stopOf_eq hs, List.drop_take, ← List.drop_drop, hbody, hlen,
      List.take_left]

/-- The lines of a program are the lines of its map. -/
theorem lines_toMap (p : Program) : p.toMap.lines = p.lines := by
  rw [toMap_eq_ofLines, lines_ofLines]

/-- The image of a program is the image of its map. -/
theorem image_toMap (p : Program) : p.toMap.image = p.image := by
  rw [LineMap.image_eq_render, lines_toMap, p.linked]

end Program

end LineBasic

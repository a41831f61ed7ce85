import LineBasic.Program.Rescan
import LineBasic.Program.Text
import LineBasic.Proofs.Code.Scanner
import LineBasic.Proofs.Program.LineMap

/-!
# The program store

Editing a program is editing a finite map.  An edit of a program is accepted exactly when the same edit
of its map is, and both then show the same map again, so the bodies, the image, the offsets and the
listing of a program depend on nothing but the map that its edits have made.

* `Edit.apply`, `Edit.onMap?`: an edit of a program, and of a map.
* `Edit.run`: an edit of the program that is kept in a state.
* `toMap_apply`: an edit of a program is that of its map.
* `shows_toMap`: what a program shows is told from its map.
* `toMap_foldl_perform`: the map after any edits.
-/

namespace LineBasic.Program

/-- A change of a program. -/
inductive Edit where
  /-- Store a line, given as crunched code. -/
  | store (code : List UInt8)
  | delete (number : UInt16)
  | deleteRange (first last : Option UInt16)
  | clear

/-- Number and body of a crunched line: what follows its header of five bytes, less one end of line. -/
def numberedLine? : List UInt8 → Option Line
  | first :: _ :: _ :: lo :: hi :: rest =>
    if first = 0 then
      some ⟨UInt16.ofNat (lo.toNat + 256 * hi.toNat),
        if rest.getLast? = some 0 then rest.dropLast else rest⟩
    else none
  | _ => none

namespace Edit

/-- A program after an edit, or why it is refused. -/
def apply (p : Program) : Edit → Except BasicError Program
  | store code => p.store code
  | delete number => p.delete number
  | deleteRange first last => p.deleteRange first last
  | clear => .ok .empty

/-- A map after an edit; none if it is refused.  A line is refused if it is not a numbered line or if the
image would grow too large, and a deletion if there is nothing to delete. -/
def onMap? (m : LineMap) : Edit → Option LineMap
  | store code =>
    (numberedLine? code).bind fun l =>
      if (m.insert l.number l.body).image.length ≤ 65535 then some (m.insert l.number l.body)
      else none
  | delete number => if (m number).isSome then some (m.erase (· = number)) else none
  | deleteRange first last =>
    if m.lines.any fun l => inRange first last l.number then some (m.erase (inRange first last))
    else none
  | clear => some .empty

/-- Edits the program that is kept in a state: another takes its place, or the edit fails. -/
def run (e : Edit) : EStateM BasicError Program Unit := do
  let p ← get
  match e.apply p with
  | .ok q => set q
  | .error err => throw err

/-- What an edit leaves of a program, whether it succeeds or fails. -/
def perform (p : Program) (e : Edit) : Program :=
  Effect.left (e.run p)

/-- A map after an edit; one that is refused leaves it as it was. -/
def performOnMap (m : LineMap) (e : Edit) : LineMap :=
  (e.onMap? m).getD m

end Edit

/-! ## One edit -/

/-- Lines become a program exactly if their image is not too large, and the program has their map. -/
theorem toMap_ofLines {lines : List Line} (h : Ascending lines) :
    (ofLines lines h).toOption.map toMap =
      if (LineMap.ofLines lines).image.length ≤ 65535 then some (LineMap.ofLines lines)
      else none := by
  have himage : (LineMap.ofLines lines).image = render 0 lines := by
    rw [LineMap.image_eq_render, h.lines_ofLines]
  rw [himage]
  by_cases hfits : (render 0 lines).length ≤ 65535
  · rw [ofLines_of_fits h hfits, if_pos hfits]
    simp only [Except.toOption, Option.map_some, toMap_eq_ofLines]
  · rw [ofLines_of_not_fits h hfits, if_neg hfits]
    rfl

/-- A line that is stored takes the place of the one with its number. -/
theorem mem_insertLine_iff {l k : Line} {lines : List Line} (h : Ascending lines) :
    k ∈ insertLine l lines ↔ k = l ∨ k.number ≠ l.number ∧ k ∈ lines := by
  induction lines with
  | nil => simp [insertLine]
  | cons a rest ih =>
    have ha : ∀ k ∈ rest, a.number < k.number := (List.pairwise_cons.1 h).1
    unfold insertLine
    split
    · rename_i hl
      have hne : ∀ k ∈ a :: rest, k.number ≠ l.number := by
        intro k hk
        rcases List.mem_cons.1 hk with rfl | hk
        · exact (UInt16.ne_of_lt hl).symm
        · exact (UInt16.ne_of_lt (UInt16.lt_trans hl (ha k hk))).symm
      rw [List.mem_cons]
      exact or_congr_right ⟨fun hk => ⟨hne k hk, hk⟩, And.right⟩
    · split
      · rename_i he
        have hne : ∀ k ∈ rest, k.number ≠ l.number := by
          intro k hk
          rw [he]
          exact (UInt16.ne_of_lt (ha k hk)).symm
        rw [List.mem_cons, List.mem_cons]
        refine or_congr_right ⟨fun hk => ⟨hne k hk, .inr hk⟩, ?_⟩
        rintro ⟨hk, rfl | hk'⟩
        · exact absurd he.symm hk
        · exact hk'
      · rename_i he
        rw [List.mem_cons, List.mem_cons, ih h.of_cons]
        constructor
        · rintro (rfl | rfl | ⟨hk, hm⟩)
          · exact .inr ⟨fun hk => he hk.symm, .inl rfl⟩
          · exact .inl rfl
          · exact .inr ⟨hk, .inr hm⟩
        · rintro (rfl | ⟨hk, rfl | hm⟩)
          · exact .inr (.inl rfl)
          · exact .inl rfl
          · exact .inr (.inr ⟨hk, hm⟩)

/-- Storing a line among others inserts it into their map. -/
theorem ofLines_insertLine (l : Line) {lines : List Line} (h : Ascending lines) :
    LineMap.ofLines (insertLine l lines) = (LineMap.ofLines lines).insert l.number l.body := by
  funext n
  refine Option.ext fun body => ?_
  rw [(ascending_insertLine h).mem_iff_ofLines (l := ⟨n, body⟩), mem_insertLine_iff h,
    LineMap.insert]
  by_cases hn : n = l.number
  · cases l
    simp only at hn
    subst hn
    simp [eq_comm]
  · have hne : (⟨n, body⟩ : Line) ≠ l := fun he => hn (by rw [← he])
    rw [if_neg hn, h.mem_iff_ofLines (l := ⟨n, body⟩)]
    simp [hne, hn]

/-- Keeping some of the lines erases the others from their map. -/
theorem ofLines_filter (test : UInt16 → Bool) {lines : List Line} (h : Ascending lines) :
    LineMap.ofLines (lines.filter fun l => test l.number) =
      (LineMap.ofLines lines).erase (fun n => !test n) := by
  funext n
  refine Option.ext fun body => ?_
  rw [Ascending.mem_iff_ofLines (l := ⟨n, body⟩) (List.Pairwise.filter _ h), LineMap.erase,
    List.mem_filter]
  cases ht : test n with
  | true => simp [h.mem_iff_ofLines (l := ⟨n, body⟩)]
  | false => simp

/-- The map has the lines of the program. -/
theorem isSome_toMap (p : Program) (number : UInt16) :
    (p.toMap number).isSome = p.contains number := by
  rw [toMap_eq_ofLines, LineMap.ofLines, Option.isSome_map, contains, find?]

theorem extent_filter_le (test : Line → Bool) (lines : List Line) :
    extent (lines.filter test) ≤ extent lines := by
  induction lines with
  | nil => simp
  | cons l rest ih =>
    rw [List.filter_cons]
    split
    · simp only [extent_cons]
      omega
    · simp only [extent_cons]
      omega

/-- Fewer lines always fit. -/
theorem toMap_keep (p : Program) (test : UInt16 → Bool) :
    (p.keep test).toOption.map toMap = some (p.toMap.erase fun n => !test n) := by
  have hfits := p.fits
  rw [p.linked, length_render, maxImageSize] at hfits
  have hle := extent_filter_le (fun l => test l.number) p.lines
  have hasc : Ascending (p.lines.filter fun l => test l.number) :=
    List.Pairwise.filter _ p.ascending
  have hmap := toMap_ofLines hasc
  rw [LineMap.image_eq_render, hasc.lines_ofLines, length_render, if_pos (by omega),
    ofLines_filter test p.ascending, ← toMap_eq_ofLines] at hmap
  exact hmap

/-- A numbered line is inserted, if the image then fits. -/
theorem store_of_numberedLine? (p : Program) {code : List UInt8} {l : Line}
    (h : numberedLine? code = some l) :
    p.store code = ofLines (insertLine l p.lines) (ascending_insertLine p.ascending) := by
  unfold numberedLine? at h
  split at h
  · rename_i first x y lo hi rest
    split at h
    · rename_i hfirst
      subst hfirst
      cases h
      rfl
    · cases h
  · cases h

theorem store_of_not_numbered (p : Program) {code : List UInt8} (h : numberedLine? code = none) :
    p.store code = .error (.noted .internalError "NOT A NUMBERED LINE") := by
  unfold numberedLine? at h
  split at h
  · rename_i first x y lo hi rest
    split at h
    · cases h
    · rename_i hfirst
      exact if_neg hfirst
  · rename_i hcode
    unfold store
    split
    · exact absurd rfl (hcode _ _ _ _ _ _)
    · rfl

/-- An edit of a program is accepted exactly if the edit of its map is, with the same result. -/
theorem toMap_apply (p : Program) (e : Edit) :
    (e.apply p).toOption.map toMap = e.onMap? p.toMap := by
  cases e with
  | store code =>
    simp only [Edit.apply, Edit.onMap?]
    cases hcode : numberedLine? code with
    | none =>
      rw [p.store_of_not_numbered hcode]
      rfl
    | some l =>
      rw [p.store_of_numberedLine? hcode, toMap_ofLines, ofLines_insertLine l p.ascending,
        ← toMap_eq_ofLines]
      rfl
  | delete number =>
    simp only [Edit.apply, Edit.onMap?, delete, isSome_toMap]
    split
    · rw [toMap_keep]
      simp
    · rfl
  | deleteRange first last =>
    simp only [Edit.apply, Edit.onMap?, deleteRange, lines_toMap]
    split
    · rw [toMap_keep]
      simp
    · rfl
  | clear =>
    simp only [Edit.apply, Edit.onMap?, Except.toOption, Option.map_some, toMap_eq_ofLines]
    rfl

/-! ## What a program shows of its map -/

/-- A program shows a map if all it can be asked is answered from the map: its bodies, its image, where
its lines start, which line an offset belongs to, and its listing. -/
structure Shows (p : Program) (m : LineMap) : Prop where
  body : ∀ number, p.body? number = m number
  image : p.image = m.image
  offset : ∀ number, p.offsetOf? number = (m number).map fun _ => m.offset number
  /-- An offset belongs to the greatest line that starts at or before it. -/
  lineAt : ∀ pos number, p.lineAt? pos = some number ↔
    (m number).isSome ∧ m.offset number ≤ pos ∧
      ∀ k, (m k).isSome → m.offset k ≤ pos → k ≤ number
  listing : ∀ first last, p.listing first last =
    (m.lines.filter fun l => inRange first last l.number).map Line.text

/-- Offsets are told from the map. -/
theorem offsetOf?_eq_toMap (p : Program) (number : UInt16) :
    p.offsetOf? number = (p.toMap number).map fun _ => p.toMap.offset number := by
  cases ho : p.offsetOf? number with
  | none =>
    have hb : p.toMap number = none := by rw [toMap, body?, ho]; rfl
    rw [hb]
    rfl
  | some start =>
    obtain ⟨before, l, after, hs, rfl, rfl⟩ := exists_split_of_offsetOf? ho
    have hb : ∃ body, p.toMap l.number = some body := ⟨_, by rw [toMap, body?, ho]; rfl⟩
    obtain ⟨body, hb⟩ := hb
    rw [hb, Option.map_some, LineMap.offset_eq (by rw [lines_toMap, hs])]

/-- A number is stored exactly if one of the lines has it. -/
theorem isSome_toMap_iff {p : Program} {number : UInt16} :
    (p.toMap number).isSome ↔ ∃ l ∈ p.lines, l.number = number := by
  rw [isSome_toMap, contains, find?, List.find?_isSome]
  simp

/-- The line at a place is the last that starts there or before. -/
theorem lineAt?_eq_some_iff (p : Program) (pos : Nat) (number : UInt16) :
    p.lineAt? pos = some number ↔
      (p.toMap number).isSome ∧ p.toMap.offset number ≤ pos ∧
        ∀ k, (p.toMap k).isSome → p.toMap.offset k ≤ pos → k ≤ number := by
  by_cases hlines : p.lines = []
  · have hnone : ∀ k, ¬ (p.toMap k).isSome := by
      intro k hk
      obtain ⟨l, hl, -⟩ := isSome_toMap_iff.1 hk
      rw [hlines] at hl
      exact List.not_mem_nil hl
    rw [lineAt?, hlines, lineFrom]
    constructor
    · intro h
      cases h
    · intro h
      exact absurd h.1 (hnone number)
  · obtain ⟨before, l, after, hs, hl, ha⟩ := exists_line_of_offset pos hlines
    have hasc : Ascending (before ++ l :: after) := by
      rw [← hs]
      exact p.ascending
    have hline : p.lineAt? pos = some l.number := lineAt?_of_append hs hl ha
    have hoffset : p.toMap.offset l.number = extent before :=
      LineMap.offset_eq (by rw [lines_toMap, hs])
    -- The lines after `l` start behind `pos`, so `l` is the greatest line that starts before it.
    have hgreatest : ∀ k, (p.toMap k).isSome → p.toMap.offset k ≤ pos → k ≤ l.number := by
      intro k hk hpos
      obtain ⟨l', hl', rfl⟩ := isSome_toMap_iff.1 hk
      rw [hs] at hl'
      rcases List.mem_append.1 hl' with hb | hb
      · exact UInt16.le_of_lt (hasc.number_lt hb)
      rcases List.mem_cons.1 hb with rfl | hb
      · exact UInt16.le_refl _
      obtain ⟨between, rest, rfl⟩ := List.append_of_mem hb
      have hsplit : p.toMap.lines = (before ++ l :: between) ++ l' :: rest := by
        rw [lines_toMap, hs]
        simp
      rw [LineMap.offset_eq hsplit, extent_append, extent_cons] at hpos
      have := ha (by simp)
      omega
    have hsome : (p.toMap l.number).isSome := isSome_toMap_iff.2 ⟨l, by rw [hs]; simp, rfl⟩
    rw [hline]
    constructor
    · intro h
      cases h
      exact ⟨hsome, by omega, hgreatest⟩
    · rintro ⟨hk, hpos, hall⟩
      have h₁ := hgreatest number hk hpos
      have h₂ := hall l.number hsome (by omega)
      rw [UInt16.le_antisymm h₁ h₂]

/-- A program shows its own map. -/
theorem shows_toMap (p : Program) : Shows p p.toMap where
  body _ := rfl
  image := p.image_toMap.symm
  offset := p.offsetOf?_eq_toMap
  lineAt := p.lineAt?_eq_some_iff
  listing first last := by rw [lines_toMap, listing]

/-! ## Any number of edits -/

theorem Edit.run_apply (e : Edit) (p : Program) :
    e.run p = match e.apply p with
      | .ok q => .ok () q
      | .error err => .error err p := by
  simp only [run, Effect.bind_apply, Effect.get_apply]
  cases e.apply p <;> rfl

/-- An edit that fails leaves the program as it was. -/
theorem Edit.eq_of_run_error {e : Edit} {p q : Program} {err : BasicError}
    (h : e.run p = .error err q) : q = p := by
  rw [run_apply] at h
  cases he : e.apply p with
  | ok q' =>
    rw [he] at h
    cases h
  | error err' =>
    rw [he] at h
    cases h
    rfl

/-- An edit does the same to the map, whether it succeeds or fails. -/
theorem toMap_perform (p : Program) (e : Edit) :
    (e.perform p).toMap = e.performOnMap p.toMap := by
  have h := p.toMap_apply e
  unfold Edit.perform Edit.performOnMap
  rw [Edit.run_apply]
  cases he : e.apply p with
  | ok q =>
    rw [he] at h
    rw [← h]
    rfl
  | error err =>
    rw [he] at h
    rw [← h]
    rfl

/-- So do any edits. -/
theorem toMap_foldl_perform (p : Program) (edits : List Edit) :
    (edits.foldl Edit.perform p).toMap = edits.foldl Edit.performOnMap p.toMap := by
  induction edits generalizing p with
  | nil => rfl
  | cons e rest ih => rw [List.foldl_cons, List.foldl_cons, ih, toMap_perform]

/-- A numbered line is refused, for want of memory, exactly if the image would become too large. -/
theorem store_eq_error_iff {p : Program} {code : List UInt8} {l : Line} {e : BasicError}
    (h : numberedLine? code = some l) :
    p.store code = .error e ↔
      e = .of .outOfMemory ∧ 65535 < (p.toMap.insert l.number l.body).image.length := by
  have himage : (p.toMap.insert l.number l.body).image = render 0 (insertLine l p.lines) := by
    rw [toMap_eq_ofLines, ← ofLines_insertLine l p.ascending, LineMap.image_eq_render,
      (ascending_insertLine p.ascending).lines_ofLines]
  rw [p.store_of_numberedLine? h, himage]
  by_cases hfits : (render 0 (insertLine l p.lines)).length ≤ 65535
  · rw [ofLines_of_fits _ hfits]
    exact ⟨(fun h => nomatch h), fun h => absurd h.2 (by omega)⟩
  · rw [ofLines_of_not_fits _ hfits]
    constructor
    · intro h
      cases h
      exact ⟨rfl, by omega⟩
    · rintro ⟨rfl, -⟩
      rfl

end LineBasic.Program

import LineBasic.Proofs.Machine.Statement
import LineBasic.Proofs.Statement.Extent

/-!
# From boundary to boundary

The offsets of some code where statements begin and end, whether the code is an image or a direct line.

* `Code.Segment`: the text of a line in code, with a boundary wherever a statement of it ends.
* `Code.AtBoundary`, `Code.Bounded`: what stands at a boundary.
* `Bounded.after_statement`: a statement that is read from a boundary leads to a boundary.
* `Bounded.after_skip`: so does the search for the next statement.
-/

namespace LineBasic

open Token

namespace Parse

open Code Scan

/-- The marker of a line is passed. -/
theorem boundary_marker {a b : UInt8} (hlink : ¬ (a = 0 ∧ b = 0)) (lo hi : UInt8)
    (code : List UInt8) :
    boundary (endLine :: a :: b :: lo :: hi :: code) = .ok (.line (Endian.ofPair lo hi)) code := by
  have hmarker : lineMarker (a :: b :: lo :: hi :: code) = (some (Endian.ofPair lo hi), code) :=
    if_neg hlink
  have hblank : (endLine :: a :: b :: lo :: hi :: code).dropWhile isBlank =
      endLine :: a :: b :: lo :: hi :: code := rfl
  rw [boundary_apply, hblank]
  simp only [if_true, hmarker]

/-- Before a statement of a line only blanks and a colon are passed. -/
theorem boundary_inLine {left : List UInt8} (t : List UInt8) (hleft : Typed left)
    (hmore : left.dropWhile isBlank ≠ []) :
    ∃ code left', left = code ++ left' ∧ Closed code ∧
      boundary (left ++ endLine :: t) = .ok .inLine (left' ++ endLine :: t) := by
  have hblanks := closed_takeWhile (fun _ => isPlain_of_isBlank) left
  have hsplit := List.takeWhile_append_dropWhile (p := isBlank) (l := left)
  have htyped := hleft.dropWhile_isBlank
  rw [boundary_apply, dropWhile_append_endLine (by decide)]
  generalize left.takeWhile isBlank = blanks at hblanks hsplit
  cases hdrop : left.dropWhile isBlank with
  | nil => exact absurd hdrop hmore
  | cons b more =>
    rw [hdrop] at htyped hsplit
    have hend : b ≠ endLine := htyped.head_ne_endLine
    by_cases hcolon : b = colon
    · subst hcolon
      refine ⟨blanks ++ [colon], more, by simp [← hsplit], hblanks.append (.plain (by decide)), ?_⟩
      exact (if_neg hend).trans (if_pos rfl)
    · exact ⟨blanks, b :: more, hsplit.symm, hblanks, (if_neg hend).trans (if_neg hcolon)⟩

/-- After the last line nothing follows. -/
theorem boundary_last {left : List UInt8} (hblank : left.dropWhile isBlank = []) :
    boundary (left ++ [endLine]) = .ok .ended [] := by
  rw [boundary_apply, dropWhile_append_endLine (by decide), hblank]
  rfl

end Parse

namespace Code

theorem StopsAt.closed {code more left : List UInt8} (hcode : Closed code)
    (h : StopsAt more left) : StopsAt (code ++ more) left :=
  h.imp id fun ⟨hhead, hmore⟩ => ⟨hhead, hcode.append hmore⟩

/-! ## Lines in code -/

/-- From `start` on, code holds the text of a line, the end of the line and `t`.  Where a statement of the
line ends is a boundary. -/
structure Segment (bytes : List UInt8) (B : Nat → Prop) (start : Nat) (body t : List UInt8) : Prop where
  drop_eq : bytes.drop start = body ++ endLine :: t
  typed : Typed body
  stops : ∀ code left, body = code ++ left → StopsAt code left → B (start + code.length)

/-- What stands at a boundary. -/
inductive AtBoundary (bytes : List UInt8) (B : Nat → Prop) : Nat → Prop where
  /-- Nothing. -/
  | ended : AtBoundary bytes B bytes.length
  /-- The end of the last line. -/
  | final {pos : Nat} {t : List UInt8} (hdrop : bytes.drop pos = endLine :: t)
      (ht : t = [] ∨ t = [0, 0]) : AtBoundary bytes B pos
  /-- The marker of a line. -/
  | marker {pos : Nat} {a b lo hi : UInt8} {body t : List UInt8}
      (hdrop : bytes.drop pos = endLine :: a :: b :: lo :: hi :: (body ++ endLine :: t))
      (hlink : ¬ (a = 0 ∧ b = 0)) (hbody : Segment bytes B (pos + 5) body t) :
      AtBoundary bytes B pos
  /-- A colon between lexemes, or any lexeme of the last line. -/
  | inLine {start : Nat} {code left t : List UInt8} (hbody : Segment bytes B start (code ++ left) t)
      (hcode : Closed code) (hleft : left.head? = some colon ∨ t = []) :
      AtBoundary bytes B (start + code.length)

/-- The offsets `B` are boundaries of statements, and the end of the code is one of them. -/
structure Bounded (bytes : List UInt8) (B : Nat → Prop) : Prop where
  ended : B bytes.length
  at_boundary : ∀ {pos}, B pos → AtBoundary bytes B pos

namespace Segment

variable {bytes code left t : List UInt8} {B : Nat → Prop} {start : Nat}

theorem drop_append (h : Segment bytes B start (code ++ left) t) :
    bytes.drop (start + code.length) = left ++ endLine :: t := by
  rw [← List.drop_drop, h.drop_eq, List.append_assoc, List.drop_left]

theorem typed_left (h : Segment bytes B start (code ++ left) t) (hcode : Closed code) : Typed left :=
  h.typed.of_closed_append hcode

theorem boundary_of_stops {more : List UInt8} (h : Segment bytes B start (code ++ (more ++ left)) t)
    (hcode : Closed code) (hstops : StopsAt more left) :
    B (start + code.length + more.length) := by
  have hboundary := h.stops (code ++ more) left (List.append_assoc ..).symm (hstops.closed hcode)
  rwa [List.length_append, ← Nat.add_assoc] at hboundary

/-- The scan for the end of a statement finds a boundary. -/
theorem skipTo_text (h : Segment bytes B start (code ++ left) t) (hcode : Closed code) :
    ∃ more rest, left = more ++ rest ∧
      Scan.skipTo statementEnds true false false (left ++ endLine :: t) = rest ++ endLine :: t ∧
      B (start + code.length + more.length) := by
  obtain ⟨more, rest, rfl, hstops, hskip⟩ := Scan.skipTo_statementEnds true (h.typed_left hcode) t
  exact ⟨more, rest, rfl, hskip.trans (Scan.skipTo_stops hstops t), h.boundary_of_stops hcode hstops⟩

/-- Past a colon, too. -/
theorem skipTo_colon (h : Segment bytes B start (code ++ colon :: left) t) (hcode : Closed code) :
    ∃ more rest, left = more ++ rest ∧
      Scan.skipTo statementEnds false false false (colon :: (left ++ endLine :: t)) =
        rest ++ endLine :: t ∧
      B (start + code.length + 1 + more.length) := by
  rw [List.append_cons] at h
  obtain ⟨more, rest, hleft, hskip, hboundary⟩ :=
    h.skipTo_text (hcode.append (.plain (by decide)))
  refine ⟨more, rest, hleft, (Scan.skipTo_passes_colon _).trans hskip, ?_⟩
  rwa [List.length_append, List.length_singleton, ← Nat.add_assoc] at hboundary

end Segment

namespace Bounded

variable {bytes : List UInt8} {B : Nat → Prop} {pos : Nat}

theorem le_length (h : Bounded bytes B) (hpos : B pos) : pos ≤ bytes.length := by
  have hdrop : bytes.drop pos ≠ [] → pos ≤ bytes.length := fun hne => by
    have := List.drop_eq_nil_iff.not.1 hne
    omega
  cases h.at_boundary hpos with
  | ended => exact Nat.le_refl _
  | final hfinal _ => exact hdrop (by simp [hfinal])
  | marker hmarker _ _ => exact hdrop (by simp [hmarker])
  | inLine hbody _ _ => exact hdrop (by simp [hbody.drop_append])

/-! ## Reading a statement -/

/-- If more code follows a boundary, it is the text of a line. -/
theorem exists_segment (h : Bounded bytes B) (hpos : B pos) {b : Parse.Boundary}
    {before : List UInt8} (hb : Parse.boundary (bytes.drop pos) = .ok b before) (hmore : b ≠ .ended) :
    ∃ start code left t, Segment bytes B start (code ++ left) t ∧ Closed code ∧
      before = left ++ endLine :: t ∧
      pos + ((bytes.drop pos).length - before.length) = start + code.length := by
  cases h.at_boundary hpos with
  | ended =>
    rw [List.drop_length] at hb
    cases hb
    exact absurd rfl hmore
  | final hdrop ht =>
    rw [hdrop] at hb
    obtain rfl | rfl := ht
    · cases hb
      exact absurd rfl hmore
    · cases hb
      exact absurd rfl hmore
  | @marker _ a b lo hi body t hdrop hlink hbody =>
    rw [hdrop, Parse.boundary_marker hlink] at hb
    cases hb
    refine ⟨pos + 5, [], body, t, hbody, .nil, rfl, ?_⟩
    simp only [hdrop, List.length_cons, List.length_nil]
    omega
  | @inLine start code left t hbody hcode hleft =>
    rw [hbody.drop_append] at hb
    by_cases hblank : left.dropWhile isBlank = []
    · -- a line of blanks has no colon, so it is the last line
      have ht : t = [] := by
        refine hleft.resolve_left fun hcolon => ?_
        obtain ⟨after, rfl⟩ := List.head?_eq_some_iff.1 hcolon
        cases hblank
      subst ht
      rw [Parse.boundary_last hblank] at hb
      cases hb
      exact absurd rfl hmore
    · obtain ⟨more, left', rfl, hclosed, hboundary⟩ :=
        Parse.boundary_inLine t (hbody.typed_left hcode) hblank
      rw [hboundary] at hb
      cases hb
      refine ⟨start, code ++ more, left', t, ?_, hcode.append hclosed, rfl, ?_⟩
      · rwa [List.append_assoc]
      · simp only [hbody.drop_append, List.length_append, List.length_cons]
        omega

/-- A statement that is read from a boundary leads to a boundary. -/
theorem after_statement (h : Bounded bytes B) (hpos : B pos) {b : Parse.Boundary}
    {before after : List UInt8} {scope : Scope} {st : Statement}
    (hb : Parse.boundary (bytes.drop pos) = .ok b before) (hmore : b ≠ .ended)
    (hst : Parse.statement scope before = .ok st after) (hwell : st.isMalformed = false) :
    B (pos + ((bytes.drop pos).length - before.length) + (before.length - after.length)) := by
  obtain ⟨start, code, left, t, hbody, hcode, rfl, hoffset⟩ := h.exists_segment hpos hb hmore
  obtain hbad | ⟨read, left', rfl, rfl, hstops⟩ :=
    Parse.ends_of_statement (hbody.typed_left hcode) hst
  · rw [hwell] at hbad
    cases hbad
  · have hread : (read ++ left' ++ endLine :: t).length - (left' ++ endLine :: t).length =
        read.length := by
      rw [List.append_assoc, List.length_append, Nat.add_sub_cancel]
    rw [hoffset, hread]
    exact hbody.boundary_of_stops hcode hstops

/-! ## Looking for the next statement -/

/-- The search for the next statement leads from a boundary to a boundary. -/
theorem after_skip (h : Bounded bytes B) (hpos : B pos) :
    B (pos + ((bytes.drop pos).length -
      (Scan.skipTo statementEnds false false false (bytes.drop pos)).length)) := by
  have hle := h.le_length hpos
  have hnone : pos + ((bytes.drop pos).length - ([] : List UInt8).length) = bytes.length := by
    simp only [List.length_drop, List.length_nil]
    omega
  cases h.at_boundary hpos with
  | ended =>
    rw [List.drop_length, Scan.skipTo]
    exact h.ended
  | final hdrop ht =>
    have hskip := Scan.skipTo_passes_last ht
    rw [← hdrop] at hskip
    rw [hskip, hnone]
    exact h.ended
  | @marker _ a b lo hi body t hdrop hlink hbody =>
    rw [← List.nil_append body] at hbody
    obtain ⟨more, rest, rfl, hskip, hboundary⟩ := hbody.skipTo_text .nil
    rw [hdrop, Scan.skipTo_passes_marker hlink, hskip]
    convert hboundary using 1
    simp only [List.length_cons, List.length_append, List.length_nil]
    omega
  | @inLine start code left t hbody hcode hleft =>
    -- up to the next colon
    have hnext : ∃ more rest, left = more ++ rest ∧ StopsAt more rest ∧ (rest = [] → t = []) ∧
        Scan.skipTo statementEnds false false false (left ++ endLine :: t) =
          Scan.skipTo statementEnds false false false (rest ++ endLine :: t) := by
      obtain hcolon | rfl := hleft
      · refine ⟨[], left, rfl, .inr ⟨hcolon, .nil⟩, ?_, rfl⟩
        rintro rfl
        cases hcolon
      · obtain ⟨more, rest, hsplit, hstops, hskip⟩ :=
          Scan.skipTo_statementEnds false (hbody.typed_left hcode) []
        exact ⟨more, rest, hsplit, hstops, fun _ => rfl, hskip⟩
    obtain ⟨more, rest, rfl, hstops, hlast, hskip⟩ := hnext
    have hdrop := hbody.drop_append
    rw [← hdrop] at hskip
    obtain rfl | ⟨hcolon, hclosed⟩ := hstops
    · obtain rfl := hlast rfl
      rw [hskip, List.nil_append, Scan.skipTo_passes_last (.inl rfl), hnone]
      exact h.ended
    · obtain ⟨after, rfl⟩ := List.head?_eq_some_iff.1 hcolon
      rw [← List.append_assoc] at hbody
      obtain ⟨more', rest, rfl, hskip', hboundary⟩ := hbody.skipTo_colon (hcode.append hclosed)
      rw [hskip, List.cons_append, hskip', hdrop]
      convert hboundary using 1
      simp only [List.length_cons, List.length_append]
      omega

end Bounded

end Code

end LineBasic

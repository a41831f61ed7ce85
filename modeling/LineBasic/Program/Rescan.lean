import LineBasic.Program.Basic

/-!
# Reading an image

A program can be taken from an image, as a saved session holds it.  The image must have the structure of
a program: lines with ascending numbers and an end.  Links are written anew, and bytes after the end are
dropped.
-/

namespace LineBasic.Program

open Scan

/-- The lines of an image, or none if it is not made of lines with an end. -/
def scanLines? : List UInt8 → Option (List Line)
  | [] => none
  | b :: code =>
    if b = Token.endLine then
      match (lineMarker code).1 with
      | none => if (lineMarker code).2.take 2 = [0, 0] then some [] else none
      | some number =>
        let rest := (lineMarker code).2
        let after := skipTo [Token.endLine] true false false rest
        (scanLines? after).map (⟨number, rest.take (rest.length - after.length)⟩ :: ·)
    else none
termination_by code => code.length
decreasing_by
  have h₁ := length_skipTo_le [Token.endLine] true false false (lineMarker code).2
  have h₂ := length_lineMarker_le code
  simp only [List.length_cons]
  omega

/-- Whether each line number is below the next. -/
def isAscending : List Line → Bool
  | a :: b :: rest => a.number < b.number && isAscending (b :: rest)
  | _ => true

theorem ascending_of_isAscending {lines : List Line} (h : isAscending lines = true) :
    Ascending lines := by
  induction lines with
  | nil => exact List.Pairwise.nil
  | cons a rest ih =>
    cases rest with
    | nil => exact List.pairwise_singleton _ _
    | cons b rest =>
      simp only [isAscending, Bool.and_eq_true, decide_eq_true_eq] at h
      have hr := ih h.2
      refine List.pairwise_cons.2 ⟨fun m hm => ?_, hr⟩
      rcases List.mem_cons.1 hm with rfl | hm
      · exact h.1
      · exact UInt16.lt_trans h.1 ((List.pairwise_cons.1 hr).1 m hm)

/-- The program with the given image and place. -/
def ofStream (s : CodeStream) : Except BasicError Program :=
  match scanLines? s.bytes with
  | none => .error (.noted .internalError "CORRUPT PROGRAM")
  | some lines =>
    if h : isAscending lines = true then do
      let p ← ofLines lines (ascending_of_isAscending h)
      return p.seek s.pos
    else .error (.noted .internalError "CORRUPT PROGRAM")

/-- The program with the given image. -/
def ofImage (image : List UInt8) : Except BasicError Program :=
  ofStream { bytes := image }

end LineBasic.Program

import LineBasic.Disk.OpenFile

/-!
# Open files by number

Programs name open files by number.  Numbers from 1 to 15 can be opened.
-/

namespace LineBasic

namespace FileTable

/-- Each number is below the next. -/
def Ascending (files : List (UInt8 × OpenFile)) : Prop :=
  files.Pairwise fun a b => a.1 < b.1

theorem ascending_nil : Ascending [] := List.Pairwise.nil

/-- Puts a file in its place; a file with the same number is replaced. -/
def insertFile (number : UInt8) (f : OpenFile) : List (UInt8 × OpenFile) → List (UInt8 × OpenFile)
  | [] => [(number, f)]
  | (n, g) :: rest =>
    if number < n then (number, f) :: (n, g) :: rest
    else if number = n then (number, f) :: rest
    else (n, g) :: insertFile number f rest

theorem mem_insertFile {number : UInt8} {f : OpenFile} {files : List (UInt8 × OpenFile)}
    {e : UInt8 × OpenFile} (h : e ∈ insertFile number f files) : e = (number, f) ∨ e ∈ files := by
  induction files with
  | nil => exact Or.inl (List.mem_singleton.1 h)
  | cons a rest ih =>
    unfold insertFile at h
    split at h
    · exact List.mem_cons.1 h
    · split at h
      · exact (List.mem_cons.1 h).imp id (List.mem_cons_of_mem _)
      · rcases List.mem_cons.1 h with h | h
        · exact Or.inr (h ▸ List.mem_cons_self)
        · exact (ih h).imp id (List.mem_cons_of_mem _)

theorem ascending_insertFile {number : UInt8} {f : OpenFile} {files : List (UInt8 × OpenFile)}
    (h : Ascending files) : Ascending (insertFile number f files) := by
  induction files with
  | nil => exact List.pairwise_singleton _ _
  | cons a rest ih =>
    obtain ⟨ha, hr⟩ := List.pairwise_cons.1 h
    unfold insertFile
    split
    · rename_i hl
      refine List.pairwise_cons.2 ⟨fun e he => ?_, h⟩
      rcases List.mem_cons.1 he with rfl | he
      · exact hl
      · exact UInt8.lt_trans hl (ha e he)
    · split
      · rename_i he
        exact List.pairwise_cons.2 ⟨fun e hm => he ▸ ha e hm, hr⟩
      · rename_i hl he
        refine List.pairwise_cons.2 ⟨fun e hm => ?_, ih hr⟩
        rcases mem_insertFile hm with rfl | hm
        · exact UInt8.lt_of_le_of_ne (UInt8.not_lt.1 hl) (Ne.symm he)
        · exact ha e hm

end FileTable

/-- The open files, by number. -/
structure FileTable where
  /-- The open files in ascending order of their numbers. -/
  files : List (UInt8 × OpenFile) := []
  ascending : FileTable.Ascending files := by exact FileTable.ascending_nil
  deriving DecidableEq, Repr

namespace FileTable

/-- The highest number that can be opened. -/
def maxNumber : UInt8 := 15

/-- The file that is open under a number. -/
def get? (t : FileTable) (number : UInt8) : Option OpenFile :=
  t.files.lookup number

/-- Adds a file, or replaces the one with its number. -/
def insert (t : FileTable) (number : UInt8) (f : OpenFile) : FileTable :=
  ⟨insertFile number f t.files, ascending_insertFile t.ascending⟩

/-- Opens a file under a free number. -/
def «open» (t : FileTable) (d : Disk) (number : UInt8) (name : String) (mode : FileMode) :
    Except BasicError (FileTable × Disk) :=
  if number = 0 || maxNumber < number then .error (.of .badFileNumber)
  else if (t.get? number).isSome then .error (.of .fileAlreadyOpen)
  else match OpenFile.open d name mode with
    | .ok (f, d) => .ok (t.insert number f, d)
    | .error e => .error e.error

/-- Writes text to an open file. -/
def write (t : FileTable) (d : Disk) (number : UInt8) (text : String) :
    Except BasicError (FileTable × Disk) :=
  match t.get? number with
  | none => .error (.of .badFileNumber)
  | some f =>
    match f.write d text with
    | .ok (f, d) => .ok (t.insert number f, d)
    | .error e => .error e

/-- Closes a file; a number that is not open is ignored. -/
def close (t : FileTable) (number : UInt8) : FileTable :=
  ⟨t.files.filter fun f => f.1 ≠ number, List.Pairwise.filter _ t.ascending⟩

/-- Closes all files. -/
def closeAll (_ : FileTable) : FileTable :=
  {}

end FileTable

end LineBasic

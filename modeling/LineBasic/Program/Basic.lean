import LineBasic.Byte.Endian
import LineBasic.Code.Stream
import LineBasic.Token.Listing

/-!
# Programs

Numbered lines in ascending order, kept together with their image: the code that runs.  In the image
each line is `00`, the link to the next line, its number and its body; three zero bytes end it.  The
image has at most 65535 bytes.

* `Program.render`: the image of a list of lines.
* `Program.ofLines`: the program with given lines, if its image fits.
* `Program.store`, `Program.delete`, `Program.deleteRange`: editing.
* `Program.offsetOf?`, `Program.lineAt?`: from line numbers to offsets of the image and back.
-/

namespace LineBasic

/-- A numbered line. -/
structure Line where
  number : UInt16
  /-- The code after the number, without the end of the line. -/
  body : List UInt8
  deriving DecidableEq, Repr

namespace Line

/-- The number of bytes a line takes in the image. -/
def size (l : Line) : Nat :=
  l.body.length + 5

/-- The line as it is listed. -/
def text (l : Line) : String :=
  toString l.number ++ " " ++ Listing.text l.body

end Line

namespace Program

/-- The highest number that a line may be given. -/
def maxLineNumber : UInt16 := 65529

/-- The largest image. -/
def maxImageSize : Nat := 65535

/-- The image of lines that start at an offset.  The link of a line is one more than the offset of the
next. -/
def render (offset : Nat) : List Line → List UInt8
  | [] => [0, 0, 0]
  | l :: rest =>
    Token.endLine :: Endian.bytes 2 (offset + l.size + 1) ++ Endian.word l.number ++ l.body ++
      render (offset + l.size) rest

/-- Each line number is below the next. -/
def Ascending (lines : List Line) : Prop :=
  lines.Pairwise fun a b => a.number < b.number

/-- Adds a line in its place; a line with the same number is replaced. -/
def insertLine (l : Line) : List Line → List Line
  | [] => [l]
  | m :: rest =>
    if l.number < m.number then l :: m :: rest
    else if l.number = m.number then l :: rest
    else m :: insertLine l rest

theorem mem_insertLine {l m : Line} {lines : List Line} (h : m ∈ insertLine l lines) :
    m = l ∨ m ∈ lines := by
  induction lines with
  | nil => exact Or.inl (by simpa [insertLine] using h)
  | cons a rest ih =>
    unfold insertLine at h
    split at h
    · simpa using h
    · split at h
      · rcases List.mem_cons.1 h with h | h
        · exact Or.inl h
        · exact Or.inr (List.mem_cons_of_mem _ h)
      · rcases List.mem_cons.1 h with h | h
        · exact Or.inr (h ▸ List.mem_cons_self)
        · exact (ih h).imp id (List.mem_cons_of_mem _)

theorem ascending_insertLine {l : Line} {lines : List Line} (h : Ascending lines) :
    Ascending (insertLine l lines) := by
  induction lines with
  | nil => exact List.pairwise_singleton _ _
  | cons a rest ih =>
    obtain ⟨ha, hr⟩ := List.pairwise_cons.1 h
    unfold insertLine
    split
    · rename_i hl
      refine List.pairwise_cons.2 ⟨fun m hm => ?_, h⟩
      rcases List.mem_cons.1 hm with rfl | hm
      · exact hl
      · exact UInt16.lt_trans hl (ha m hm)
    · split
      · rename_i he
        exact List.pairwise_cons.2 ⟨fun m hm => he ▸ ha m hm, hr⟩
      · rename_i hl he
        refine List.pairwise_cons.2 ⟨fun m hm => ?_, ih hr⟩
        rcases mem_insertLine hm with rfl | hm
        · exact UInt16.lt_of_le_of_ne (UInt16.not_lt.1 hl) (Ne.symm he)
        · exact ha m hm

end Program

/-- A program: its lines, its image and the place where it runs. -/
structure Program where
  lines : List Line
  /-- The offset of the byte that runs next. -/
  pos : Nat
  image : List UInt8
  ascending : Program.Ascending lines
  linked : image = Program.render 0 lines
  fits : image.length ≤ Program.maxImageSize

namespace Program

/-- The program without lines. -/
def empty : Program where
  lines := []
  pos := 0
  image := [0, 0, 0]
  ascending := List.Pairwise.nil
  linked := rfl
  fits := by decide

instance : Inhabited Program := ⟨empty⟩

/-- The program with these lines, to run from its start. -/
def ofLines (lines : List Line) (ascending : Ascending lines) : Except BasicError Program :=
  let image := render 0 lines
  if fits : image.length ≤ maxImageSize then
    .ok { lines, pos := 0, image, ascending, linked := rfl, fits }
  else .error (.of .outOfMemory)

/-! ## The image as code -/

/-- The image and the place in it. -/
def stream (p : Program) : CodeStream :=
  { bytes := p.image, pos := p.pos }

/-- Moves to an offset of the image, or to its end if that is nearer. -/
def seek (p : Program) (pos : Nat) : Program :=
  { p with pos := min pos p.image.length }

/-! ## Lines -/

/-- The line with a number. -/
def find? (p : Program) (number : UInt16) : Option Line :=
  p.lines.find? fun l => l.number = number

/-- Whether a line has the number. -/
def contains (p : Program) (number : UInt16) : Bool :=
  (p.find? number).isSome

/-- The offset of the first of the lines with the number, if the lines start at `offset`. -/
def offsetFrom (number : UInt16) (offset : Nat) : List Line → Option Nat
  | [] => none
  | l :: rest => if l.number = number then some offset else offsetFrom number (offset + l.size) rest

/-- The offset at which a line starts. -/
def offsetOf? (p : Program) (number : UInt16) : Option Nat :=
  offsetFrom number 0 p.lines

/-- The last of the lines that start at or before `pos`, if the lines start at `offset` and `found` is
the line before them. -/
def lineFrom (pos : Nat) (found : Option UInt16) (offset : Nat) : List Line → Option UInt16
  | [] => found
  | l :: rest =>
    if offset ≤ pos then lineFrom pos (some l.number) (offset + l.size) rest else found

/-- The line that an offset of the image belongs to. -/
def lineAt? (p : Program) (pos : Nat) : Option UInt16 :=
  lineFrom pos none 0 p.lines

/-! ## Listing -/

/-- Whether a number is in a range of lines; an end that is left out does not bound it. -/
def inRange (first last : Option UInt16) (number : UInt16) : Bool :=
  first.getD 0 ≤ number && number ≤ last.getD 65535

/-- The text of the lines of a range. -/
def listing (p : Program) (first last : Option UInt16) : List String :=
  (p.lines.filter fun l => inRange first last l.number).map Line.text

/-- The text of a line for editing, and the column, in bytes, that shows an offset of the image. -/
def editText? (p : Program) (number : UInt16) (pos : Nat) : Option (String × Nat) := do
  let l ← p.find? number
  let offset ← p.offsetOf? number
  let before := { l with body := l.body.take (pos - (offset + 5)) }
  return (l.text, before.text.utf8ByteSize)

/-! ## Editing -/

/-- Adds a numbered line, given as crunched code, or replaces the line with its number. -/
def store (p : Program) (code : List UInt8) : Except BasicError Program :=
  match code with
  | first :: _ :: _ :: lo :: hi :: rest =>
    if first = Token.endLine then
      let body := if rest.getLast? = some Token.endLine then rest.dropLast else rest
      ofLines (insertLine ⟨Endian.ofPair lo hi, body⟩ p.lines) (ascending_insertLine p.ascending)
    else .error (.noted .internalError "NOT A NUMBERED LINE")
  | _ => .error (.noted .internalError "NOT A NUMBERED LINE")

/-- Keeps the lines whose numbers pass a test. -/
def keep (p : Program) (test : UInt16 → Bool) : Except BasicError Program :=
  ofLines (p.lines.filter fun l => test l.number) (List.Pairwise.filter _ p.ascending)

/-- Removes a line, which must exist. -/
def delete (p : Program) (number : UInt16) : Except BasicError Program :=
  if p.contains number then p.keep (· ≠ number) else .error (.of .undefinedLineNumber)

/-- Removes the lines of a range, of which there must be one. -/
def deleteRange (p : Program) (first last : Option UInt16) : Except BasicError Program :=
  if p.lines.any fun l => inRange first last l.number then
    p.keep fun n => !inRange first last n
  else .error (.of .illegalFunctionCall)

end Program

end LineBasic

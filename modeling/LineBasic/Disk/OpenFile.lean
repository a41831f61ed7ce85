import LineBasic.Disk.Basic

/-!
# Open files

A file opened by a program: its name, its mode and a handle on the disk.  A saved session keeps name,
mode and position (`FileImage`); when it is restored the file is opened again and goes on where it was.
A file that cannot be opened again becomes a null file, which swallows what is written to it.

* `OpenFile.open`: opens a file by name.
* `OpenFile.write`: writes text at the file's position.
* `OpenFile.image`, `OpenFile.restore`: to and from a saved session.
-/

namespace LineBasic

/-- What a file is opened for. -/
inductive FileMode where
  | input | output | append | random
  deriving DecidableEq, Repr

namespace FileMode

/-- Whether the file may be written. -/
def isWritable (mode : FileMode) : Bool :=
  mode ≠ .input

end FileMode

/-- What an open file works on. -/
inductive Handle where
  | file (id pos : Nat)
  /-- A directory, which can be opened and not read. -/
  | directory (pos : Nat)
  /-- Nothing. -/
  | null
  deriving DecidableEq, Repr

/-- A file that is open. -/
structure OpenFile where
  name : String
  mode : FileMode
  handle : Handle
  deriving DecidableEq, Repr

/-- What a saved session keeps of an open file. -/
structure FileImage where
  name : String
  mode : FileMode
  position : Option Nat
  deriving DecidableEq, Repr

namespace OpenFile

/-- A handle at the start of an existing file or directory. -/
def existing (e : DiskEntry) (pos : Nat) : Handle :=
  match e with
  | .file id => .file id pos
  | .directory => .directory pos

/-- Opens a file by name.  For input it must exist; for output it starts empty; the other modes keep
what it holds. -/
def «open» (d : Disk) (name : String) (mode : FileMode) : Except DeviceFault (OpenFile × Disk) := do
  match mode with
  | .input => return (⟨name, mode, existing (← d.openExisting name) 0⟩, d)
  | .output =>
    let (id, d) ← d.openCreating name
    return (⟨name, mode, .file id 0⟩, d.setContents id [])
  | .append | .random =>
    let (id, d) ← d.openCreating name
    return (⟨name, mode, .file id 0⟩, d)

/-- Whether writing to the file has no effect. -/
def isNull (f : OpenFile) : Bool :=
  f.handle = .null

/-- Where the next byte goes; a file opened for append says where its last write ended. -/
def position? (f : OpenFile) : Option Nat :=
  match f.handle with
  | .file _ pos => some pos
  | .directory pos => some pos
  | .null => none

/-- Writes text, for append at the end of the file.  Writing nothing moves nothing. -/
def write (f : OpenFile) (d : Disk) (text : String) : Except BasicError (OpenFile × Disk) :=
  if !f.mode.isWritable then .error (.of .badFileMode)
  else match f.handle with
    | .file id pos =>
      let bytes := Text.utf8 text
      if bytes.isEmpty then .ok (f, d)
      else
        let start := if f.mode = .append then (d.contents id).length else pos
        .ok ({ f with handle := .file id (start + bytes.length) }, d.writeAt id start bytes)
    | _ => .ok (f, d)

/-! ## Saved sessions -/

/-- What a saved session keeps of the file. -/
def image (f : OpenFile) : FileImage :=
  { name := f.name, mode := f.mode, position := f.position? }

/-- No file has a position from here on. -/
def maxPosition : Nat := 0x8000000000000000

/-- Opens a saved file again.  A file for output keeps what it held before its position; for input and
for random access it must exist. -/
def reopen (d : Disk) (saved : FileImage) : Except DeviceFault (Handle × Disk) := do
  let pos := saved.position.getD 0
  match saved.mode with
  | .output =>
    if pos = 0 then
      let (f, d) ← OpenFile.open d saved.name saved.mode
      return (f.handle, d)
    let kept := (← d.read saved.name).take pos
    let (id, d) ← d.openCreating saved.name
    return (.file id kept.length, d.setContents id kept)
  | .append =>
    let (f, d) ← OpenFile.open d saved.name saved.mode
    return (f.handle, d)
  | .input =>
    let e ← d.openExisting saved.name
    if maxPosition ≤ pos then throw .invalidInput
    return (existing e pos, d)
  | .random =>
    let id ← d.openWritable saved.name
    if maxPosition ≤ pos then throw .invalidInput
    return (.file id pos, d)

/-- A saved file, open again or null. -/
def restore (d : Disk) (saved : FileImage) : OpenFile × Disk :=
  match reopen d saved with
  | .ok (handle, d) => (⟨saved.name, saved.mode, handle⟩, d)
  | .error _ => (⟨saved.name, saved.mode, .null⟩, d)

end OpenFile

end LineBasic

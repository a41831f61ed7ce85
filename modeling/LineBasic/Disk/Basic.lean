import LineBasic.Error
import LineBasic.Text.Bytes

/-!
# Disks

A directory tree held in memory.  A file has an identity of its own, so that an open file goes on
working after its name is gone or given to another file.

* `Disk.resolve`: from a name to a place in the tree.
* `Disk.openExisting`, `Disk.openCreating`: from a name to what it stands for.
* `Disk.writeAt`: changes to a file; bytes skipped over are zero.
-/

namespace LineBasic

/-- A place in the tree: the names of the directories on the way, then its own. -/
abbrev DiskPath := List String

/-- What a place holds. -/
inductive DiskEntry where
  | file (id : Nat)
  | directory
  deriving DecidableEq, Repr

/-- Files and directories. -/
structure Disk where
  entries : List (DiskPath × DiskEntry) := []
  /-- The contents of all files that ever were, by identity. -/
  files : List (List UInt8) := []
  deriving DecidableEq, Repr

namespace Disk

/-- What a place holds; the root is a directory. -/
def entry? (d : Disk) (path : DiskPath) : Option DiskEntry :=
  if path.isEmpty then some .directory else d.entries.lookup path

/-- The longest name of a file, in bytes. -/
def maxName : Nat := 255
/-- The longest name with directories, in bytes. -/
def maxPath : Nat := 4095

/-- A name resolved: its place and whether it is written as the name of a directory. -/
structure Resolved where
  path : DiskPath
  asDirectory : Bool
  deriving DecidableEq, Repr

/-- Follows the parts of a name from a directory.  All parts but the last must be directories. -/
def follow (d : Disk) (place : DiskPath) : List String → Except DeviceFault DiskPath
  | [] => .ok place
  | ".." :: rest => follow d place.dropLast rest
  | part :: rest =>
    if maxName < part.utf8ByteSize then .error .other
    else if rest.isEmpty then .ok (place ++ [part])
    else match d.entry? (place ++ [part]) with
      | some .directory => follow d (place ++ [part]) rest
      | some (.file _) => .error .other
      | none => .error .notFound

/-- The place that a name stands for. -/
def resolve (d : Disk) (name : String) : Except DeviceFault Resolved :=
  if name.toList.contains (Char.ofNat 0) then .error .invalidInput
  else if name.isEmpty then .error .notFound
  else if maxPath < name.utf8ByteSize then .error .other
  else
    let parts := name.splitOn "/"
    let last := parts.getLastD ""
    match d.follow [] (parts.filter fun p => p ≠ "" ∧ p ≠ ".") with
    | .ok path => .ok ⟨path, last = "" || last = "." || last = ".."⟩
    | .error e => .error e

/-! ## Contents -/

/-- The bytes of a file. -/
def contents (d : Disk) (id : Nat) : List UInt8 :=
  d.files[id]?.getD []

/-- Gives a file other bytes. -/
def setContents (d : Disk) (id : Nat) (bytes : List UInt8) : Disk :=
  { d with files := d.files.set id bytes }

/-- Writes over a file from a position on; a gap before the position is filled with zero bytes. -/
def overwrite (old : List UInt8) (pos : Nat) (bytes : List UInt8) : List UInt8 :=
  old.take pos ++ List.replicate (pos - old.length) 0 ++ bytes ++ old.drop (pos + bytes.length)

/-- Writes bytes to a file at a position. -/
def writeAt (d : Disk) (id pos : Nat) (bytes : List UInt8) : Disk :=
  d.setContents id (overwrite (d.contents id) pos bytes)

/-- Puts an entry at a place. -/
def link (d : Disk) (path : DiskPath) (e : DiskEntry) : Disk :=
  { d with entries := (path, e) :: d.entries.filter fun x => x.1 ≠ path }

/-- Takes the entry at a place away.  A file stays reachable for those who have it open. -/
def unlink (d : Disk) (path : DiskPath) : Disk :=
  { d with entries := d.entries.filter fun x => x.1 ≠ path }

/-- A new file at a place. -/
def create (d : Disk) (path : DiskPath) (bytes : List UInt8) : Nat × Disk :=
  (d.files.length,
    { d with files := d.files ++ [bytes] }.link path (.file d.files.length))

/-! ## Names -/

/-- What a name stands for.  A file must not be named as a directory. -/
def openExisting (d : Disk) (name : String) : Except DeviceFault DiskEntry := do
  let r ← d.resolve name
  match d.entry? r.path with
  | none => throw .notFound
  | some .directory => return .directory
  | some (.file id) => if r.asDirectory then throw .other else return .file id

/-- The file that a name stands for, for writing; it must exist. -/
def openWritable (d : Disk) (name : String) : Except DeviceFault Nat := do
  match ← d.openExisting name with
  | .file id => return id
  | .directory => throw .other

/-- The file that a name stands for, for writing; created if there is none. -/
def openCreating (d : Disk) (name : String) : Except DeviceFault (Nat × Disk) := do
  let r ← d.resolve name
  match d.entry? r.path with
  | none => if r.asDirectory then throw .other else return d.create r.path []
  | some .directory => throw .other
  | some (.file id) => if r.asDirectory then throw .other else return (id, d)

/-- The bytes of the file with a name. -/
def read (d : Disk) (name : String) : Except DeviceFault (List UInt8) := do
  match ← d.openExisting name with
  | .file id => return d.contents id
  | .directory => throw .other

/-- Fills the file with a name, keeping its identity if there is one. -/
def write (d : Disk) (name : String) (bytes : List UInt8) : Except DeviceFault Disk := do
  let (id, d) ← d.openCreating name
  return d.setContents id bytes

/-- Puts a new file in the place of the one with a name. -/
def replace (d : Disk) (name : String) (bytes : List UInt8) : Except DeviceFault Disk := do
  let r ← d.resolve name
  if r.asDirectory then throw .other
  match d.entry? r.path with
  | some .directory => throw .other
  | _ => return (d.create r.path bytes).2

/-- Removes the file with a name. -/
def remove (d : Disk) (name : String) : Except DeviceFault Disk := do
  let r ← d.resolve name
  match d.entry? r.path with
  | none => throw .notFound
  | some .directory => throw .other
  | some (.file _) => if r.asDirectory then throw .other else return d.unlink r.path

/-- Creates a directory. -/
def makeDirectory (d : Disk) (name : String) : Except DeviceFault Disk := do
  let r ← d.resolve name
  match d.entry? r.path with
  | none => return d.link r.path .directory
  | some _ => throw .alreadyExists

/-- The names at the top of the tree, with what they hold. -/
def top (d : Disk) : List (String × DiskEntry) :=
  d.entries.filterMap fun
    | ([name], e) => some (name, e)
    | _ => none

end Disk

end LineBasic

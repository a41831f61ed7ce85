import LineBasic.Snapshot.Payload
import LineBasic.Snapshot.Zlib

/-!
# Snapshots

A session saved in a file: a magic number, the CRC-32 of the payload, and the payload, which is the
compressed layout of the session.

* `Snapshot.toBytes`, `Snapshot.ofBytes`: to and from the bytes of the file.
* `Snapshot.save`, `Snapshot.load`, `Snapshot.delete`: the file on the disk.
-/

namespace LineBasic

/-- Why a saved session cannot be used. -/
inductive SnapshotError where
  /-- No file is configured. -/
  | noLocation
  /-- The file cannot be read, or its payload not decompressed. -/
  | device
  /-- The payload is not the layout of a session. -/
  | encoding
  | badMagic
  | checksum
  deriving DecidableEq, Repr

namespace SnapshotError

/-- The text of an error with a text of its own. -/
def message? : SnapshotError → Option String
  | noLocation => some "no state file configured"
  | device => none
  | encoding => none
  | badMagic => some "not a session snapshot"
  | checksum => some "checksum mismatch"

end SnapshotError

namespace Snapshot

/-- The first bytes of a saved session: `BSS` and a version. -/
def magic : List UInt8 := [0x42, 0x53, 0x53, 0x01]

/-- The bytes of the file for a payload. -/
def wrap (payload : List UInt8) : List UInt8 :=
  magic ++ Endian.bytes 4 (Checksum.crc32 payload).toNat ++ payload

/-- The payload of a file, if magic number and checksum are right. -/
def unwrap (bytes : List UInt8) : Except SnapshotError (List UInt8) :=
  if bytes.length < 8 || bytes.take 4 ≠ magic then .error .badMagic
  else if (Checksum.crc32 (bytes.drop 8)).toNat ≠ Endian.value ((bytes.drop 4).take 4) then
    .error .checksum
  else .ok (bytes.drop 8)

/-- The bytes of a saved session.  Its variables may be written in any order. -/
def toBytes (s : Session) (order : s.vars.Enumeration := .byName s.vars) : List UInt8 :=
  wrap (Zlib.compress (Layout.session s order))

/-- The session with the given bytes; its files are opened on the disk. -/
def ofBytes (disk : Disk) (bytes : List UInt8) : Except SnapshotError Session × Disk :=
  match unwrap bytes with
  | .error e => (.error e, disk)
  | .ok payload =>
    match Zlib.decompress? payload with
    | none => (.error .device, disk)
    | some code =>
      match Decoder.session disk code with
      | (some s, disk) => (.ok s, disk)
      | (none, disk) => (.error .encoding, disk)

/-- Saves a session in the file with a name, in the place of what was there.  Without a name, or if that
fails, nothing changes. -/
def save (disk : Disk) (s : Session) (name : Option String) : Disk :=
  match name with
  | none => disk
  | some name => (disk.replace name (toBytes s)).toOption.getD disk

/-- The session saved in the file with a name. -/
def load (disk : Disk) (name : Option String) : Except SnapshotError Session × Disk :=
  match name with
  | none => (.error .noLocation, disk)
  | some name =>
    match disk.read name with
    | .error _ => (.error .device, disk)
    | .ok bytes => ofBytes disk bytes

/-- Removes the file with a name, if there is one. -/
def delete (disk : Disk) (name : Option String) : Disk :=
  match name with
  | none => disk
  | some name => (disk.remove name).toOption.getD disk

end Snapshot

end LineBasic

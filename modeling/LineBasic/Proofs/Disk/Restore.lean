import Mathlib
import LineBasic.Proofs.Disk.Names

/-!
# Restoring files

A file for output that is saved and restored goes on at the position where it was, and what it had
written up to there is kept.  A file that has gone missing becomes a null file, which has no position:
when it is saved and restored again it starts over, and what it had written is lost if the file is back.

* `restore_written`, `restore_missing`, `restore_blank`: what a restore makes of a file for output.
* `restore_input`, `restore_random`, `restore_append`: the other modes.
* `Held`: an open file and where it stood when it was last live, through any number of restores.
* `restores_spare_iff`: which restores keep what had been written.
-/

namespace LineBasic

open Disk

namespace OpenFile

variable {d : Disk} {name : String}

/-- A file that had been written to is cut at its position. -/
theorem restore_written {id pos : Nat} (h : d.openExisting name = .ok (.file id)) (hpos : 0 < pos) :
    restore d ⟨name, .output, some pos⟩ =
      (⟨name, .output, .file id ((d.contents id).take pos).length⟩,
        d.setContents id ((d.contents id).take pos)) := by
  have hread : d.read name = .ok (d.contents id) := read_eq_ok_iff.2 ⟨id, h, rfl⟩
  have hzero : ¬ pos = 0 := by omega
  simp only [restore, reopen, Option.getD_some, if_neg hzero, hread, openCreating_of_file h]
  rfl

/-- A file that had been written to and is missing becomes a null file. -/
theorem restore_missing {pos : Nat} {fault : DeviceFault} (h : d.read name = .error fault)
    (hpos : 0 < pos) : restore d ⟨name, .output, some pos⟩ = (⟨name, .output, .null⟩, d) := by
  have hzero : ¬ pos = 0 := by omega
  simp only [restore, reopen, Option.getD_some, if_neg hzero, h]
  rfl

/-- A file without a position, or at its start, is emptied. -/
theorem restore_blank {id : Nat} {position : Option Nat} (h : d.openExisting name = .ok (.file id))
    (hposition : position.getD 0 = 0) :
    restore d ⟨name, .output, position⟩ = (⟨name, .output, .file id 0⟩, d.setContents id []) := by
  simp only [restore, reopen, hposition, if_true, OpenFile.open, openCreating_of_file h]
  rfl

/-- A file for input is restored at its position. -/
theorem restore_input {e : DiskEntry} {pos : Nat} (h : d.openExisting name = .ok e)
    (hpos : pos < maxPosition) :
    restore d ⟨name, .input, some pos⟩ = (⟨name, .input, existing e pos⟩, d) := by
  have hseek : ¬ maxPosition ≤ (some pos).getD 0 := Nat.not_le.2 hpos
  simp only [restore, reopen, h, bind, Except.bind, if_neg hseek]
  rfl

theorem restore_random {id pos : Nat} (h : d.openExisting name = .ok (.file id))
    (hpos : pos < maxPosition) :
    restore d ⟨name, .random, some pos⟩ = (⟨name, .random, .file id pos⟩, d) := by
  have hseek : ¬ maxPosition ≤ (some pos).getD 0 := Nat.not_le.2 hpos
  simp only [restore, reopen, openWritable_of_file h, bind, Except.bind, if_neg hseek]
  rfl

/-- The position of a file for append is not restored. -/
theorem restore_append {id : Nat} {position : Option Nat} (h : d.openExisting name = .ok (.file id)) :
    restore d ⟨name, .append, position⟩ = (⟨name, .append, .file id 0⟩, d) := by
  simp only [restore, reopen, OpenFile.open, openCreating_of_file h]
  rfl

@[simp] theorem mode_restore (d : Disk) (saved : FileImage) : (restore d saved).1.mode = saved.mode := by
  unfold restore
  split <;> rfl

theorem position?_eq_none_iff {f : OpenFile} : f.position? = none ↔ f.isNull = true := by
  obtain ⟨name, mode, handle⟩ := f
  cases handle <;> simp [position?, isNull]

end OpenFile

/-- An open file, and where it stood when it was last live. -/
structure Held where
  file : OpenFile
  mark : Nat

namespace Held

variable {h : Held} {d : Disk}

/-- The file saved, and restored from a disk. -/
def restore (h : Held) (d : Disk) : Held × Disk :=
  let (file, d) := OpenFile.restore d h.file.image
  (⟨file, file.position?.getD h.mark⟩, d)

/-- The file after a number of restores, each from the disk as it is then. -/
def after (h : Held) (disks : List Disk) : Held :=
  disks.foldl (fun h d => (h.restore d).1) h

/-- A file for output; unless it is null its place is known. -/
structure Sound (h : Held) : Prop where
  mode : h.file.mode = .output
  position : h.file.isNull = true ∨ h.file.position? = some h.mark

/-- A restore that leaves the file's first bytes as they are, up to the mark. -/
def Spares (h : Held) (d : Disk) : Prop :=
  ∀ bytes, d.read h.file.name = .ok bytes →
    ∃ bytes', (h.restore d).2.read h.file.name = .ok bytes' ∧ bytes'.take h.mark = bytes.take h.mark

/-- The place was lost when the file went missing, and now the file is back with its contents. -/
def Forgets (h : Held) (d : Disk) : Prop :=
  h.file.isNull = true ∧ 0 < h.mark ∧ ∃ bytes, d.read h.file.name = .ok bytes ∧ bytes ≠ []

theorem Sound.image (hs : h.Sound) : h.file.image = ⟨h.file.name, .output, h.file.position?⟩ := by
  unfold OpenFile.image
  rw [hs.mode]

/-- A file stays sound when it is restored, on any disk. -/
theorem Sound.restore (hs : h.Sound) (d : Disk) : (h.restore d).1.Sound := by
  have hfile : (h.restore d).1.file = (OpenFile.restore d h.file.image).1 := rfl
  have hmark : (h.restore d).1.mark = (h.restore d).1.file.position?.getD h.mark := rfl
  constructor
  · rw [hfile, OpenFile.mode_restore]
    exact hs.mode
  · cases hposition : (h.restore d).1.file.position? with
    | none => exact .inl (OpenFile.position?_eq_none_iff.1 hposition)
    | some pos =>
      rw [hmark, hposition]
      exact .inr rfl

/-- So it does on one disk after another. -/
theorem Sound.after (hs : h.Sound) (disks : List Disk) : (h.after disks).Sound := by
  induction disks generalizing h with
  | nil => exact hs
  | cons d rest ih => exact ih (hs.restore d)

/-- What a restore makes of the bytes that the file holds. -/
theorem Sound.read_restore (hs : h.Sound) {bytes : List UInt8} (hread : d.read h.file.name = .ok bytes) :
    (h.restore d).2.read h.file.name = .ok (bytes.take (h.file.position?.getD 0)) := by
  obtain ⟨id, hopen, rfl⟩ := read_eq_ok_iff.1 hread
  have hrestore : (h.restore d).2 =
      d.setContents id ((d.contents id).take (h.file.position?.getD 0)) := by
    show (OpenFile.restore d h.file.image).2 = _
    rw [hs.image]
    cases h.file.position? with
    | none =>
      rw [OpenFile.restore_blank hopen rfl]
      rfl
    | some pos =>
      cases pos with
      | zero =>
        rw [OpenFile.restore_blank hopen rfl]
        rfl
      | succ pos =>
        rw [OpenFile.restore_written hopen (Nat.succ_pos pos)]
        rfl
  rw [hrestore, read_eq_ok_iff]
  exact ⟨id, openExisting_setContents_iff.2 hopen, contents_setContents_take d id _⟩

/-- A restore keeps what had been written, unless the place had been lost. -/
theorem Sound.spares_iff (hs : h.Sound) : h.Spares d ↔ ¬ h.Forgets d := by
  constructor
  · rintro hspares ⟨hnull, hmark, bytes, hread, hbytes⟩
    obtain ⟨bytes', hread', htake⟩ := hspares bytes hread
    rw [hs.read_restore hread, OpenFile.position?_eq_none_iff.2 hnull] at hread'
    cases hread'
    have hempty : bytes.take h.mark = [] := by simpa using htake.symm
    obtain hzero | hnil := List.take_eq_nil_iff.1 hempty
    · omega
    · exact hbytes hnil
  · intro hkeeps bytes hread
    refine ⟨_, hs.read_restore hread, ?_⟩
    obtain hnull | hposition := hs.position
    · rw [OpenFile.position?_eq_none_iff.2 hnull, Option.getD_none, List.take_zero, List.take_nil]
      -- nothing had been written, or there is nothing to lose
      have hnothing : h.mark = 0 ∨ bytes = [] := by
        apply Classical.byContradiction
        intro hlost
        obtain ⟨hmark, hbytes⟩ := not_or.1 hlost
        exact hkeeps ⟨hnull, Nat.pos_of_ne_zero hmark, bytes, hread, hbytes⟩
      exact (List.take_eq_nil_iff.2 hnothing).symm
    · rw [hposition, Option.getD_some, List.take_take, Nat.min_self]

/-- Over any number of restores: what a file for output had written up to the place where it was last
live is kept, unless the file is back with its contents after its place had been lost. -/
theorem restores_spare_iff (hs : h.Sound) (disks : List Disk) :
    (∀ i d, disks[i]? = some d → (h.after (disks.take i)).Spares d) ↔
      ∀ i d, disks[i]? = some d → ¬ (h.after (disks.take i)).Forgets d := by
  refine forall_congr' fun i => forall_congr' fun d => imp_congr_right fun _ => ?_
  exact (hs.after _).spares_iff

/-- A disk with one file. -/
def holding (text : String) : Disk where
  entries := [(["a"], .file 0)]
  files := [Text.utf8 text]

theorem openExisting_holding (text : String) : (holding text).openExisting "a" = .ok (.file 0) := by
  cbv

theorem read_empty : ({} : Disk).read "a" = .error .notFound := by
  cbv

/-- A file that has been written to. -/
def written : Held where
  file := ⟨"a", .output, .file 0 5⟩
  mark := 5

theorem written_sound : written.Sound :=
  ⟨rfl, .inr rfl⟩

/-- The file is cut at its place, and then it is missing: what had been written is kept each time. -/
theorem written_spared :
    written.Spares (holding "HELLO, WORLD") ∧
      (written.after [holding "HELLO, WORLD"]).Spares {} := by
  have hlive : (written.after [holding "HELLO, WORLD"]).file.isNull = false := by
    show (OpenFile.restore (holding "HELLO, WORLD") ⟨"a", .output, some 5⟩).1.isNull = false
    rw [OpenFile.restore_written (openExisting_holding _) (by decide)]
    rfl
  have hkept : ∀ i d, [holding "HELLO, WORLD", {}][i]? = some d →
      ¬ (written.after ([holding "HELLO, WORLD", {}].take i)).Forgets d := by
    rintro (_ | _ | i) d hd ⟨hnull, -⟩
    · cases hnull
    · exact absurd (hlive.symm.trans hnull) (by decide)
    · cases hd
  have hspares := (restores_spare_iff written_sound [holding "HELLO, WORLD", {}]).2 hkept
  exact ⟨hspares 0 _ rfl, hspares 1 _ rfl⟩

/-- The file is missing at one restore, and back at the next: that one empties it. -/
theorem written_lost :
    written.Sound ∧ (written.after [{}]).mark = 5 ∧
      (holding "HELLO").read "a" = .ok (Text.utf8 "HELLO") ∧
      ((written.after [{}]).restore (holding "HELLO")).2.read "a" = .ok [] := by
  have hnull : written.after [{}] = ⟨⟨"a", .output, .null⟩, 5⟩ := by
    show (Held.restore written {}).1 = _
    unfold Held.restore
    rw [show written.file.image = ⟨"a", .output, some 5⟩ from rfl,
      OpenFile.restore_missing read_empty (by decide)]
    rfl
  have hread : (holding "HELLO").read "a" = .ok (Text.utf8 "HELLO") :=
    read_eq_ok_iff.2 ⟨0, openExisting_holding _, rfl⟩
  rw [hnull]
  have hsound : Sound ⟨⟨"a", .output, .null⟩, 5⟩ := ⟨rfl, .inl rfl⟩
  exact ⟨written_sound, rfl, hread, hsound.read_restore hread⟩

end Held

end LineBasic

import Mathlib
import LineBasic.Proofs.Disk.Restore
import LineBasic.Proofs.Snapshot.Session

/-!
# Round trips of open files

Open files may be saved, closed and restored at any time between two operations on them.  On a disk that
nothing else changes this makes no difference to what the operations give and to what the disk holds.

* `OpenFile.rewound`: a file as it comes back.  Only a file for append forgets its position, which its
  next write does not need.
* `OpenFile.Live`: a file whose name still stands for it.
* `FileOp.apply_rewound`: no operation tells a file that came back from one that did not.
* `Filing.Sound`, `Sound.roundTrip`: how files stand to the disk, and what a round trip makes of them.
* `roundTrips_invisible`: round trips between operations change nothing.
-/

namespace LineBasic

open Disk

/-! ## One file -/

namespace OpenFile

/-- A handle at the start of what it works on. -/
def rewoundHandle : Handle → Handle
  | .file id _ => .file id 0
  | .directory pos => .directory pos
  | .null => .null

/-- A file as it comes back from a round trip. -/
def rewound (f : OpenFile) : OpenFile :=
  if f.mode = .append then { f with handle := rewoundHandle f.handle } else f

theorem rewound_of_ne {f : OpenFile} (h : f.mode ≠ .append) : f.rewound = f :=
  if_neg h

@[simp] theorem name_rewound (f : OpenFile) : f.rewound.name = f.name := by
  unfold rewound
  split <;> rfl

/-- Rewinding twice is rewinding once. -/
@[simp] theorem rewound_rewound (f : OpenFile) : f.rewound.rewound = f.rewound := by
  by_cases h : f.mode = .append
  · obtain ⟨name, mode, handle⟩ := f
    cases h
    cases handle <;> rfl
  · rw [rewound_of_ne h, rewound_of_ne h]

/-- An open file whose name still stands for it.  What a file for output holds ends at its position, and
no position is beyond the limit. -/
inductive Live (d : Disk) (limit : Nat) : OpenFile → Prop where
  | file {name : String} {mode : FileMode} {id pos : Nat}
      (hname : d.openExisting name = .ok (.file id)) (hpos : pos ≤ limit)
      (hend : mode = .output → (d.contents id).length = pos) : Live d limit ⟨name, mode, .file id pos⟩
  | directory {name : String} (hname : d.openExisting name = .ok .directory) :
      Live d limit ⟨name, .input, .directory 0⟩

section Live

variable {d : Disk} {limit : Nat} {f : OpenFile}

/-- A file stays live when it is rewound. -/
theorem Live.rewound (h : Live d limit f) : Live d limit f.rewound := by
  by_cases happend : f.mode = .append
  · cases h with
    | @file name mode id pos hname hpos hend =>
      cases happend
      exact .file hname (Nat.zero_le limit) nofun
    | directory hname => cases happend
  · rw [rewound_of_ne happend]
    exact h

theorem Live.mono (h : Live d limit f) {limit' : Nat} (hle : limit ≤ limit') : Live d limit' f := by
  cases h with
  | file hname hpos hend => exact .file hname (Nat.le_trans hpos hle) hend
  | directory hname => exact .directory hname

/-- A file for output that ends where it was saved is restored as it was. -/
theorem restore_output_of_live {name : String} {id pos : Nat}
    (hname : d.openExisting name = .ok (.file id)) (hend : (d.contents id).length = pos) :
    restore d ⟨name, .output, some pos⟩ = (⟨name, .output, .file id pos⟩, d) := by
  cases pos with
  | zero =>
    have hempty : d.contents id = [] := List.eq_nil_of_length_eq_zero hend
    rw [restore_blank hname rfl, ← hempty, setContents_contents]
  | succ pos =>
    have hall : (d.contents id).take (pos + 1) = d.contents id := List.take_of_length_le hend.le
    rw [restore_written hname (Nat.succ_pos pos), hall, hend, setContents_contents]

/-- A file comes back from a round trip, and the disk is as before. -/
theorem Live.restore_image (h : Live d limit f) (hlimit : limit < maxPosition) :
    restore d f.image = (f.rewound, d) := by
  cases h with
  | directory hname => exact restore_input hname (by decide)
  | @file name mode id pos hname hpos hend =>
    have hseek : pos < maxPosition := Nat.lt_of_le_of_lt hpos hlimit
    cases mode with
    | input => exact restore_input hname hseek
    | output => exact restore_output_of_live hname (hend rfl)
    | append => exact restore_append hname
    | random => exact restore_random hname hseek

/-- What is saved of a file can be read back. -/
theorem Live.image_fits (h : Live d limit f) (hlimit : limit < maxPosition) : f.image.Fits := by
  have hmax : maxPosition < wordBound := by decide
  have hpath : maxPath < wordBound := by decide
  cases h with
  | file hname hpos hend =>
    obtain ⟨r, hr, -, -⟩ := openExisting_eq_file_iff.1 hname
    refine ⟨Nat.lt_of_le_of_lt (length_le_of_resolve hr) hpath, ?_⟩
    rintro _ ⟨⟩
    omega
  | directory hname =>
    obtain ⟨r, hr, -⟩ := openExisting_eq_directory_iff.1 hname
    refine ⟨Nat.lt_of_le_of_lt (length_le_of_resolve hr) hpath, ?_⟩
    rintro _ ⟨⟩
    decide

end Live

/-- No write tells a file that came back from one that did not. -/
theorem write_rewound (f : OpenFile) (d : Disk) (text : String) :
    (f.rewound.write d text).map (fun w => (w.1.rewound, w.2)) =
      (f.write d text).map fun w => (w.1.rewound, w.2) := by
  by_cases happend : f.mode = .append
  · obtain ⟨name, mode, handle⟩ := f
    cases happend
    cases handle with
    | file id pos =>
      by_cases hempty : (Text.utf8 text).isEmpty = true
      · simp [rewound, rewoundHandle, OpenFile.write, FileMode.isWritable, hempty, Except.map]
      · simp [rewound, rewoundHandle, OpenFile.write, FileMode.isWritable, hempty, Except.map]
    | directory pos => rfl
    | null => rfl
  · rw [rewound_of_ne happend]

end OpenFile

/-! ## Tables -/

namespace FileTable

/-- In ascending order each number is found once. -/
theorem lookup_eq_some_iff {files : List (UInt8 × OpenFile)} (hasc : Ascending files) {number : UInt8}
    {f : OpenFile} : files.lookup number = some f ↔ (number, f) ∈ files := by
  induction files with
  | nil => exact iff_of_false nofun nofun
  | cons e rest ih =>
    obtain ⟨n, g⟩ := e
    obtain ⟨hfirst, hrest⟩ := List.pairwise_cons.1 hasc
    rw [List.lookup_cons, List.mem_cons]
    by_cases hn : number = n
    · subst hn
      have habsent : (number, f) ∉ rest := by
        intro hmem
        exact absurd (hfirst _ hmem) (UInt8.lt_irrefl number)
      simp only [BEq.rfl]
      constructor
      · rintro ⟨⟩
        exact .inl rfl
      · rintro (heq | hmem)
        · cases heq
          rfl
        · exact absurd hmem habsent
    · have hbeq : (number == n) = false := by simpa using hn
      rw [hbeq]
      dsimp only
      rw [ih hrest]
      constructor
      · exact .inr
      · rintro (heq | hmem)
        · cases heq
          exact absurd rfl hn
        · exact hmem

theorem get?_eq_some_iff {t : FileTable} {number : UInt8} {f : OpenFile} :
    t.get? number = some f ↔ (number, f) ∈ t.files :=
  lookup_eq_some_iff t.ascending

/-- A file is added, and takes the place of one with its number. -/
theorem mem_insertFile_iff {files : List (UInt8 × OpenFile)} (hasc : Ascending files) {number : UInt8}
    {f : OpenFile} {e : UInt8 × OpenFile} :
    e ∈ insertFile number f files ↔ e = (number, f) ∨ e ∈ files ∧ e.1 ≠ number := by
  induction files with
  | nil => simp [insertFile]
  | cons a rest ih =>
    obtain ⟨n, g⟩ := a
    obtain ⟨hfirst, hrest⟩ := List.pairwise_cons.1 hasc
    -- the numbers that follow are all greater
    have hlater : ∀ {e : UInt8 × OpenFile}, number ≤ n → e ∈ rest → e.1 ≠ number := by
      rintro e hle hmem rfl
      exact absurd (hfirst e hmem) (UInt8.not_lt.2 hle)
    unfold insertFile
    by_cases hlt : number < n
    · rw [if_pos hlt, List.mem_cons, List.mem_cons]
      constructor
      · rintro (rfl | rfl | hmem)
        · exact .inl rfl
        · exact .inr ⟨.inl rfl, (UInt8.ne_of_lt hlt).symm⟩
        · exact .inr ⟨.inr hmem, hlater (UInt8.le_of_lt hlt) hmem⟩
      · rintro (rfl | ⟨rfl | hmem, -⟩)
        · exact .inl rfl
        · exact .inr (.inl rfl)
        · exact .inr (.inr hmem)
    · rw [if_neg hlt]
      by_cases heq : number = n
      · subst heq
        rw [if_pos rfl, List.mem_cons, List.mem_cons]
        constructor
        · rintro (rfl | hmem)
          · exact .inl rfl
          · exact .inr ⟨.inr hmem, hlater (UInt8.le_refl _) hmem⟩
        · rintro (rfl | ⟨rfl | hmem, hne⟩)
          · exact .inl rfl
          · exact absurd rfl hne
          · exact .inr hmem
      · rw [if_neg heq, List.mem_cons, List.mem_cons, ih hrest]
        constructor
        · rintro (rfl | rfl | ⟨hmem, hne⟩)
          · exact .inr ⟨.inl rfl, Ne.symm heq⟩
          · exact .inl rfl
          · exact .inr ⟨.inr hmem, hne⟩
        · rintro (rfl | ⟨rfl | hmem, hne⟩)
          · exact .inr (.inl rfl)
          · exact .inl rfl
          · exact .inr (.inr ⟨hmem, hne⟩)

theorem mem_insert_iff {t : FileTable} {number : UInt8} {f : OpenFile} {e : UInt8 × OpenFile} :
    e ∈ (t.insert number f).files ↔ e = (number, f) ∨ e ∈ t.files ∧ e.1 ≠ number :=
  mem_insertFile_iff t.ascending

/-- A numbered file as it comes back. -/
def rewoundEntry (e : UInt8 × OpenFile) : UInt8 × OpenFile :=
  (e.1, e.2.rewound)

/-- There are not more open files than numbers. -/
theorem length_files_le (t : FileTable) : t.files.length ≤ 256 := by
  have hnumbers : (t.files.map fun e => e.1.toNat).Nodup :=
    List.Pairwise.map _ (fun _ _ hlt => Nat.ne_of_lt (UInt8.lt_iff_toNat_lt.1 hlt)) t.ascending
  have hsub : (t.files.map fun e => e.1.toNat) ⊆ List.range 256 := by
    intro n hn
    obtain ⟨e, -, rfl⟩ := List.mem_map.1 hn
    exact List.mem_range.2 (UInt8.toNat_lt e.1)
  simpa using (List.subperm_of_subset hnumbers hsub).length_le

/-- A table as it comes back from a round trip. -/
def rewound (t : FileTable) : FileTable where
  files := t.files.map rewoundEntry
  ascending := by
    rw [ascending_iff_map, List.map_map]
    exact ascending_iff_map.1 t.ascending

@[simp] theorem rewound_rewound (t : FileTable) : t.rewound.rewound = t.rewound := by
  refine eq_of_files ?_
  show (t.files.map rewoundEntry).map rewoundEntry = t.files.map rewoundEntry
  rw [List.map_map]
  refine List.map_congr_left fun e _ => ?_
  exact congrArg (Prod.mk e.1) e.2.rewound_rewound

theorem get?_rewound (t : FileTable) (number : UInt8) :
    t.rewound.get? number = (t.get? number).map OpenFile.rewound := by
  have hlookup : ∀ files : List (UInt8 × OpenFile), (files.map rewoundEntry).lookup number =
      (files.lookup number).map OpenFile.rewound := by
    intro files
    induction files with
    | nil => rfl
    | cons e rest ih =>
      obtain ⟨n, f⟩ := e
      cases hnumber : number == n <;> simp [rewoundEntry, List.lookup_cons, hnumber, ih]
  exact hlookup t.files

theorem rewound_insert (t : FileTable) (number : UInt8) (f : OpenFile) :
    (t.insert number f).rewound = t.rewound.insert number f.rewound := by
  have hinsert : ∀ files : List (UInt8 × OpenFile), (insertFile number f files).map rewoundEntry =
      insertFile number f.rewound (files.map rewoundEntry) := by
    intro files
    induction files with
    | nil => rfl
    | cons e rest ih =>
      obtain ⟨n, g⟩ := e
      unfold insertFile
      split
      · rename_i hlt
        exact (if_pos hlt).symm
      · rename_i hlt
        split
        · rename_i heq
          exact ((if_neg hlt).trans (if_pos heq)).symm
        · rename_i heq
          rw [List.map_cons, ih]
          exact ((if_neg hlt).trans (if_neg heq)).symm
  exact eq_of_files (hinsert t.files)

theorem rewound_close (t : FileTable) (number : UInt8) :
    (t.close number).rewound = t.rewound.close number := by
  refine eq_of_files ?_
  show (t.files.filter _).map rewoundEntry = (t.files.map rewoundEntry).filter _
  rw [List.filter_map]
  rfl

/-- Files that are live are opened again where they were, rewound. -/
theorem reopenAll_of_live {d : Disk} {limit : Nat} {files : List (UInt8 × OpenFile)}
    (hlive : ∀ e ∈ files, e.2.Live d limit) (hlimit : limit < OpenFile.maxPosition) :
    reopenAll d files = (files.map rewoundEntry, d) := by
  induction files with
  | nil => rfl
  | cons e rest ih =>
    obtain ⟨number, f⟩ := e
    have hfirst : f.Live d limit := hlive _ List.mem_cons_self
    have hrest := ih fun e he => hlive e (List.mem_cons_of_mem _ he)
    rw [reopenAll_cons, hfirst.restore_image hlimit, hrest]
    rfl

end FileTable

/-! ## Operations -/

/-- An operation on the open files. -/
inductive FileOp where
  | open (number : UInt8) (name : String) (mode : FileMode)
  | write (number : UInt8) (text : String)
  | close (number : UInt8)
  | closeAll
  deriving DecidableEq, Repr

/-- Open files, and the disk that they are on. -/
abbrev Filing := FileTable × Disk

namespace FileOp

/-- What an operation gives, unless it fails. -/
def apply (s : Filing) : FileOp → Except BasicError Filing
  | .open number name mode => s.1.open s.2 number name mode
  | .write number text => s.1.write s.2 number text
  | .close number => .ok (s.1.close number, s.2)
  | .closeAll => .ok (s.1.closeAll, s.2)

/-- The name of the file that is opened. -/
def name? : FileOp → Option String
  | .open _ name _ => some name
  | _ => none

/-- How many bytes are written at most. -/
def size : FileOp → Nat
  | .write _ text => (Text.utf8 text).length
  | _ => 0

end FileOp

namespace Filing

/-- Files as they come back from a round trip, on a disk as it was. -/
def rewound (s : Filing) : Filing :=
  (s.1.rewound, s.2)

/-- All open files are saved and closed, and then restored from what was saved. -/
def roundTrip (s : Filing) : Filing :=
  match Decoder.size.run (Layout.fileTable s.1) with
  | none => ({}, s.2)
  | some (count, code) =>
    let (files, disk) := Decoder.restoreFiles s.2 {} count code
    (files.getD {}, disk)

/-- An operation that fails changes nothing. -/
def perform (s : Filing) (op : FileOp) : Except BasicError Unit × Filing :=
  match op.apply s with
  | .ok s' => (.ok (), s')
  | .error e => (.error e, s)

end Filing

/-- Results that agree up to a function are both errors, the same ones, or both values. -/
theorem map_eq_map_cases {ε α β : Type} {f : α → β} {r r' : Except ε α} (h : r.map f = r'.map f) :
    (∃ e, r = .error e ∧ r' = .error e) ∨ ∃ a a', r = .ok a ∧ r' = .ok a' ∧ f a = f a' := by
  cases r with
  | error e =>
    cases r' with
    | error e' => exact .inl ⟨e, rfl, congrArg _ (Except.error.inj h).symm⟩
    | ok a' => cases h
  | ok a =>
    cases r' with
    | error e' => cases h
    | ok a' => exact .inr ⟨a, a', rfl, rfl, Except.ok.inj h⟩

/-- Writing does not tell a rewound file from another. -/
theorem FileTable.write_rewound (t : FileTable) (d : Disk) (number : UInt8) (text : String) :
    (t.rewound.write d number text).map Filing.rewound = (t.write d number text).map Filing.rewound := by
  unfold FileTable.write
  rw [get?_rewound]
  cases hget : t.get? number with
  | none => rfl
  | some f =>
    dsimp only [Option.map_some]
    obtain ⟨e, hnew, hold⟩ | ⟨⟨g', d'⟩, ⟨g, d₁⟩, hnew, hold, hsame⟩ :=
      map_eq_map_cases (f.write_rewound d text)
    · rw [hnew, hold]
    · obtain ⟨hfile, rfl⟩ : g'.rewound = g.rewound ∧ d' = d₁ := Prod.mk.inj hsame
      simp [hnew, hold, Except.map, Filing.rewound, rewound_insert, hfile]

/-- Neither does opening. -/
theorem FileTable.open_rewound (t : FileTable) (d : Disk) (number : UInt8) (name : String)
    (mode : FileMode) :
    (t.rewound.open d number name mode).map Filing.rewound =
      (t.open d number name mode).map Filing.rewound := by
  have hfree : (t.rewound.get? number).isSome = (t.get? number).isSome := by
    rw [get?_rewound, Option.isSome_map]
  unfold FileTable.open
  rw [hfree]
  split
  · rfl
  · split
    · rfl
    · cases OpenFile.open d name mode with
      | error e => rfl
      | ok opened => simp [Except.map, Filing.rewound, rewound_insert]

/-- No operation tells files that came back from files that did not. -/
theorem FileOp.apply_rewound (op : FileOp) (s : Filing) :
    (op.apply s.rewound).map Filing.rewound = (op.apply s).map Filing.rewound := by
  cases op with
  | «open» number name mode => exact s.1.open_rewound s.2 number name mode
  | write number text => exact s.1.write_rewound s.2 number text
  | close number =>
    simp [FileOp.apply, Except.map, Filing.rewound, FileTable.rewound_close]
  | closeAll => rfl

/-! ## Files on their disk -/

/-- A file stays live while another one changes. -/
theorem OpenFile.Live.changesOnly {d d' : Disk} {limit : Nat} {f : OpenFile} {names : List String}
    {name : String} (h : f.Live d limit) (hchange : ChangesOnly name d d') (hplain : d.Plain)
    (hsep : d.Separates names) (hname : name ∈ names) (hmem : f.name ∈ names) (hother : f.name ≠ name) :
    f.Live d' limit := by
  cases h with
  | directory hopen => exact .directory (hchange.opens hopen)
  | @file own mode id pos hopen hpos hend =>
    have hunchanged : d'.contents id = d.contents id := by
      apply hchange.contents hplain hopen
      intro hsame
      have hsep' := hsep.of_sameDirectories hchange.directories
      exact hother (hsep'.eq_of_file (hchange.plain hplain) hmem hname (hchange.opens hopen) hsame)
    refine .file (hchange.opens hopen) hpos fun hmode => ?_
    rw [hunchanged]
    exact hend hmode

/-- A file that is opened for writing is created first, if need be, and for output it is emptied. -/
theorem OpenFile.open_writable {d : Disk} {name : String} {mode : FileMode} {opened : OpenFile × Disk}
    (h : OpenFile.open d name mode = .ok opened) (hmode : mode ≠ .input) :
    ∃ id d', d.openCreating name = .ok (id, d') ∧
      opened = (⟨name, mode, .file id 0⟩, if mode = .output then d'.setContents id [] else d') := by
  cases hopen : d.openCreating name with
  | error e => cases mode <;> simp [OpenFile.open, hopen, bind, Except.bind] at h hmode
  | ok created =>
    obtain ⟨id, d'⟩ := created
    refine ⟨id, d', rfl, ?_⟩
    cases mode <;> simp_all [OpenFile.open, bind, Except.bind, pure, Except.pure]

/-- A file that is opened is live, and no other file changes. -/
theorem OpenFile.open_live {d d' : Disk} {limit : Nat} {name : String} {mode : FileMode} {f : OpenFile}
    (hplain : d.Plain) (hbounded : d.Bounded limit) (h : OpenFile.open d name mode = .ok (f, d')) :
    f.name = name ∧ f.Live d' limit ∧ ChangesOnly name d d' ∧ d'.Bounded limit := by
  have hzero : 0 ≤ limit := Nat.zero_le limit
  by_cases hmode : mode = .input
  · subst hmode
    cases hopen : d.openExisting name with
    | error e => simp [OpenFile.open, hopen, bind, Except.bind] at h
    | ok e =>
      obtain ⟨rfl, rfl⟩ : f = ⟨name, .input, existing e 0⟩ ∧ d' = d := by
        simpa [OpenFile.open, hopen, bind, Except.bind, pure, Except.pure, eq_comm] using h
      refine ⟨rfl, ?_, .refl name _, hbounded⟩
      cases e with
      | directory => exact .directory hopen
      | file id =>
        refine .file hopen hzero ?_
        intro houtput
        cases houtput
  · obtain ⟨id, d₁, hopen, hopened⟩ := OpenFile.open_writable h hmode
    obtain ⟨rfl, hd'⟩ := Prod.mk.inj hopened
    obtain ⟨hchange, hfile⟩ := openCreating_changesOnly hopen
    have hbounded₁ := hbounded.openCreating hopen
    by_cases houtput : mode = .output
    · rw [if_pos houtput] at hd'
      subst hd'
      have hempty : ((d₁.setContents id []).contents id).length = 0 := by
        rw [contents_setContents (hchange.plain hplain |>.id_lt hfile), List.length_nil]
      exact ⟨rfl, .file (openExisting_setContents_iff.2 hfile) hzero fun _ => hempty,
        hchange.setContents hfile [], hbounded₁.setContents hzero⟩
    · rw [if_neg houtput] at hd'
      subst hd'
      exact ⟨rfl, .file hfile hzero (absurd · houtput), hchange, hbounded₁⟩

/-- Writing over a file makes it as long as it was, or as far as the bytes reach. -/
theorem length_overwrite (old : List UInt8) (pos : Nat) (bytes : List UInt8) :
    (overwrite old pos bytes).length = max old.length (pos + bytes.length) := by
  simp only [overwrite, List.length_append, List.length_take, List.length_replicate, List.length_drop]
  omega

/-- A file that is written to stays live, and no other file changes. -/
theorem OpenFile.Live.write {d d' : Disk} {limit : Nat} {f f' : OpenFile} {text : String}
    (h : f.Live d limit) (hplain : d.Plain) (hbounded : d.Bounded limit)
    (hwrite : f.write d text = .ok (f', d')) :
    f'.name = f.name ∧ f'.Live d' (limit + (Text.utf8 text).length) ∧ ChangesOnly f.name d d' ∧
      d'.Bounded (limit + (Text.utf8 text).length) := by
  have hle : limit ≤ limit + (Text.utf8 text).length := Nat.le_add_right _ _
  have hlive := h
  cases h with
  | directory hopen => simp [OpenFile.write, FileMode.isWritable] at hwrite
  | @file name mode id pos hopen hpos hend =>
    unfold OpenFile.write at hwrite
    split at hwrite
    · cases hwrite
    · dsimp only at hwrite
      split at hwrite
      · cases hwrite
        exact ⟨rfl, hlive.mono hle, .refl _ _, hbounded.mono hle⟩
      · cases hwrite
        have hstart : (if mode = .append then (d.contents id).length else pos) ≤ limit := by
          split
          · exact hbounded id
          · exact hpos
        refine ⟨rfl, .file (openExisting_setContents_iff.2 hopen) (Nat.add_le_add_right hstart _) ?_,
          (ChangesOnly.refl name d).setContents hopen _, (hbounded.mono hle).setContents ?_⟩
        · rintro rfl
          rw [if_neg (by decide), writeAt, contents_setContents (hplain.id_lt hopen), length_overwrite,
            hend rfl]
          exact Nat.max_eq_right (Nat.le_add_right _ _)
        · rw [length_overwrite]
          exact Nat.max_le.2 ⟨Nat.le_trans (hbounded id) hle, Nat.add_le_add_right hstart _⟩

/-- A file that is opened under a number is added to the table. -/
theorem FileTable.open_eq_ok {t : FileTable} {d : Disk} {number : UInt8} {name : String} {mode : FileMode}
    {s' : Filing} (h : t.open d number name mode = .ok s') :
    ∃ f d', OpenFile.open d name mode = .ok (f, d') ∧ s' = (t.insert number f, d') := by
  unfold FileTable.open at h
  split at h
  · cases h
  · split at h
    · cases h
    · cases hopen : OpenFile.open d name mode with
      | error e =>
        rw [hopen] at h
        cases h
      | ok opened =>
        rw [hopen] at h
        exact ⟨opened.1, opened.2, rfl, (Except.ok.inj h).symm⟩

/-- A file that is written to takes its own place in the table. -/
theorem FileTable.write_eq_ok {t : FileTable} {d : Disk} {number : UInt8} {text : String} {s' : Filing}
    (h : t.write d number text = .ok s') :
    ∃ f f' d', (number, f) ∈ t.files ∧ f.write d text = .ok (f', d') ∧ s' = (t.insert number f', d') := by
  unfold FileTable.write at h
  cases hget : t.get? number with
  | none =>
    rw [hget] at h
    cases h
  | some f =>
    simp only [hget] at h
    cases hwrite : f.write d text with
    | error e =>
      rw [hwrite] at h
      cases h
    | ok written =>
      rw [hwrite] at h
      exact ⟨f, written.1, written.2, get?_eq_some_iff.1 hget, hwrite, (Except.ok.inj h).symm⟩

/-- Numbers that are open at the same time have different names. -/
def FileTable.NamesDiffer (t : FileTable) : Prop :=
  ∀ e ∈ t.files, ∀ e' ∈ t.files, e.2.name = e'.2.name → e.1 = e'.1

instance (t : FileTable) : Decidable t.NamesDiffer :=
  inferInstanceAs (Decidable (∀ e ∈ t.files, ∀ e' ∈ t.files, e.2.name = e'.2.name → e.1 = e'.1))

theorem FileTable.namesDiffer_rewound {t : FileTable} : t.rewound.NamesDiffer ↔ t.NamesDiffer := by
  have hmem : ∀ {e}, e ∈ t.files → rewoundEntry e ∈ t.rewound.files := List.mem_map_of_mem
  constructor
  · intro h e he e' he' hname
    refine h (rewoundEntry e) (hmem he) (rewoundEntry e') (hmem he') ?_
    exact (e.2.name_rewound.trans hname).trans e'.2.name_rewound.symm
  · intro h e he e' he' hname
    obtain ⟨a, ha, rfl⟩ := List.mem_map.1 he
    obtain ⟨a', ha', rfl⟩ := List.mem_map.1 he'
    exact h a ha a' ha' ((a.2.name_rewound.symm.trans hname).trans a'.2.name_rewound)

namespace Filing

/-- How the open files stand to their disk: each is where its name says, which is one of the names that
may be opened, and no file is longer than the limit. -/
structure Sound (names : List String) (limit : Nat) (s : Filing) : Prop where
  plain : s.2.Plain
  separates : s.2.Separates names
  bounded : s.2.Bounded limit
  mem_names : ∀ e ∈ s.1.files, e.2.name ∈ names
  live : ∀ e ∈ s.1.files, e.2.Live s.2 limit

section Sound

variable {names : List String} {limit : Nat} {s : Filing}

theorem Sound.mono (h : s.Sound names limit) {limit' : Nat} (hle : limit ≤ limit') :
    s.Sound names limit' where
  plain := h.plain
  separates := h.separates
  bounded := h.bounded.mono hle
  mem_names := h.mem_names
  live e he := (h.live e he).mono hle

/-- Files that are left when some are closed. -/
theorem Sound.of_subset (h : s.Sound names limit) {t : FileTable} (hsub : ∀ e ∈ t.files, e ∈ s.1.files) :
    Sound names limit (t, s.2) where
  plain := h.plain
  separates := h.separates
  bounded := h.bounded
  mem_names e he := h.mem_names e (hsub e he)
  live e he := h.live e (hsub e he)

/-- A file is opened, or written to. -/
theorem Sound.insert (h : s.Sound names limit) {limit' : Nat} (hle : limit ≤ limit') {number : UInt8}
    {f : OpenFile} {d' : Disk} (hchange : ChangesOnly f.name s.2 d') (hlive : f.Live d' limit')
    (hbounded : d'.Bounded limit') (hname : f.name ∈ names) (hdiffer : (s.1.insert number f).NamesDiffer) :
    Sound names limit' (s.1.insert number f, d') where
  plain := hchange.plain h.plain
  separates := h.separates.of_sameDirectories hchange.directories
  bounded := hbounded
  mem_names := by
    intro e he
    obtain rfl | ⟨hmem, -⟩ := FileTable.mem_insert_iff.1 he
    · exact hname
    · exact h.mem_names e hmem
  live := by
    intro e he
    obtain rfl | ⟨hmem, hnumber⟩ := FileTable.mem_insert_iff.1 he
    · exact hlive
    · have hother : e.2.name ≠ f.name := by
        intro hsame
        exact hnumber (hdiffer e he (number, f) (FileTable.mem_insert_iff.2 (.inl rfl)) hsame)
      have hkept := (h.live e hmem).changesOnly hchange h.plain h.separates hname (h.mem_names e hmem) hother
      exact hkept.mono hle

/-- One operation keeps the files sound. -/
theorem Sound.apply (h : s.Sound names limit) {op : FileOp} {s' : Filing}
    (hnames : ∀ name, op.name? = some name → name ∈ names) (hdiffer : s'.1.NamesDiffer)
    (happly : op.apply s = .ok s') : s'.Sound names (limit + op.size) := by
  cases op with
  | «open» number name mode =>
    obtain ⟨f, d', hopen, rfl⟩ := FileTable.open_eq_ok happly
    obtain ⟨rfl, hlive, hchange, hbounded⟩ := OpenFile.open_live h.plain h.bounded hopen
    exact h.insert (Nat.le_refl _) hchange hlive hbounded (hnames _ rfl) hdiffer
  | write number text =>
    obtain ⟨f, f', d', hmem, hwrite, rfl⟩ := FileTable.write_eq_ok happly
    obtain ⟨hname, hlive, hchange, hbounded⟩ := (h.live _ hmem).write h.plain h.bounded hwrite
    have hopened : f'.name ∈ names := by
      rw [hname]
      exact h.mem_names _ hmem
    rw [← hname] at hchange
    exact h.insert (Nat.le_add_right _ _) hchange hlive hbounded hopened hdiffer
  | close number =>
    cases happly
    exact h.of_subset fun e he => List.mem_of_mem_filter he
  | closeAll =>
    cases happly
    exact h.of_subset nofun

theorem Sound.rewound (h : s.Sound names limit) : s.rewound.Sound names limit where
  plain := h.plain
  separates := h.separates
  bounded := h.bounded
  mem_names := by
    intro e he
    obtain ⟨e', hmem, rfl⟩ := List.mem_map.1 he
    show e'.2.rewound.name ∈ names
    rw [OpenFile.name_rewound]
    exact h.mem_names e' hmem
  live := by
    intro e he
    obtain ⟨e', hmem, rfl⟩ := List.mem_map.1 he
    exact (h.live e' hmem).rewound

/-- A round trip gives the files as they were, rewound, on the disk as it was. -/
theorem Sound.roundTrip (h : s.Sound names limit) (hlimit : limit < OpenFile.maxPosition) :
    s.roundTrip = s.rewound := by
  have hcount : s.1.files.length < wordBound := Nat.lt_of_le_of_lt s.1.length_files_le (by decide)
  obtain ⟨t, hrestore, hfiles⟩ := restoreFiles_layout s.2 {} []
    (fun e he => (h.live e he).image_fits hlimit) s.1.ascending
  rw [FileTable.reopenAll_of_live h.live hlimit] at hrestore hfiles
  have htable : t = s.1.rewound := FileTable.eq_of_files hfiles
  rw [List.append_nil] at hrestore
  unfold Filing.roundTrip
  rw [Layout.fileTable, Layout.list, reads_size hcount]
  dsimp only
  rw [hrestore, htable]
  rfl

end Sound

end Filing

/-! ## Runs -/

/-- What is done between the start and the end of a run: an operation, or a round trip. -/
inductive FileStep where
  | perform (op : FileOp)
  | roundTrip
  deriving DecidableEq, Repr

namespace FileStep

/-- The names of the files that are opened. -/
def names (steps : List FileStep) : List String :=
  steps.filterMap fun
    | .perform op => op.name?
    | .roundTrip => none

/-- How many bytes are written at most. -/
def size : List FileStep → Nat
  | [] => 0
  | .perform op :: rest => op.size + size rest
  | .roundTrip :: rest => size rest

theorem size_append (steps rest : List FileStep) : size (steps ++ rest) = size steps + size rest := by
  induction steps with
  | nil => exact (Nat.zero_add _).symm
  | cons step steps ih =>
    cases step with
    | perform op =>
      show op.size + size (steps ++ rest) = op.size + size steps + size rest
      rw [ih, Nat.add_assoc]
    | roundTrip => exact ih

/-- The operations alone. -/
def ops (steps : List FileStep) : List FileStep :=
  steps.filter (· ≠ .roundTrip)

theorem ops_roundTrip (rest : List FileStep) : ops (.roundTrip :: rest) = ops rest := rfl

end FileStep

namespace Filing

/-- The result of each operation, and the files in the end. -/
def run (s : Filing) : List FileStep → List (Except BasicError Unit) × Filing
  | [] => ([], s)
  | .perform op :: rest =>
    let (result, s) := s.perform op
    let (results, s) := run s rest
    (result :: results, s)
  | .roundTrip :: rest => run s.roundTrip rest

theorem run_roundTrip (s : Filing) (rest : List FileStep) :
    s.run (.roundTrip :: rest) = s.roundTrip.run rest := by
  rw [run]

/-- Files that made no round trip, and the same files after some round trips. -/
structure Matches (names : List String) (limit : Nat) (s s' : Filing) : Prop where
  same : s.rewound = s'.rewound
  sound : s'.Sound names limit

section Matches

variable {names : List String} {limit : Nat} {s s' : Filing}

theorem Matches.disk_eq (h : Matches names limit s s') : s.2 = s'.2 := by
  have hdisk : s.rewound.2 = s'.rewound.2 := by rw [h.same]
  exact hdisk

/-- Files that are alike but for their rewinding do the same. -/
theorem perform_of_rewound_eq (h : s.rewound = s'.rewound) (op : FileOp) :
    (s.perform op).1 = (s'.perform op).1 ∧ (s.perform op).2.rewound = (s'.perform op).2.rewound := by
  have happly : (op.apply s).map rewound = (op.apply s').map rewound := by
    rw [← op.apply_rewound, h, op.apply_rewound]
  unfold perform
  obtain ⟨e, hop, hop'⟩ | ⟨t, t', hop, hop', hsame⟩ := map_eq_map_cases happly
  · rw [hop, hop']
    exact ⟨rfl, h⟩
  · rw [hop, hop']
    exact ⟨rfl, hsame⟩

/-- An operation keeps the files sound, whether it succeeds or fails. -/
theorem Sound.perform (h : s.Sound names limit) {op : FileOp}
    (hnames : ∀ name, op.name? = some name → name ∈ names) (hdiffer : (s.perform op).2.1.NamesDiffer) :
    (s.perform op).2.Sound names (limit + op.size) := by
  unfold Filing.perform at hdiffer ⊢
  cases hop : op.apply s with
  | error e => exact h.mono (Nat.le_add_right _ _)
  | ok t =>
    rw [hop] at hdiffer
    exact h.apply hnames hdiffer hop

/-- An operation gives the same, whether or not round trips were made before. -/
theorem Matches.perform (h : Matches names limit s s') {op : FileOp}
    (hnames : ∀ name, op.name? = some name → name ∈ names) (hdiffer : (s.perform op).2.1.NamesDiffer) :
    (s.perform op).1 = (s'.perform op).1 ∧
      Matches names (limit + op.size) (s.perform op).2 (s'.perform op).2 := by
  obtain ⟨hresult, hsame⟩ := perform_of_rewound_eq h.same op
  have htable : (s.perform op).2.1.rewound = (s'.perform op).2.1.rewound := congrArg Prod.fst hsame
  have hdiffer' : (s'.perform op).2.1.NamesDiffer := by
    rw [← FileTable.namesDiffer_rewound, ← htable, FileTable.namesDiffer_rewound]
    exact hdiffer
  exact ⟨hresult, hsame, h.sound.perform hnames hdiffer'⟩

/-- A round trip goes unnoticed. -/
theorem Matches.roundTrip (h : Matches names limit s s') (hlimit : limit < OpenFile.maxPosition) :
    Matches names limit s s'.roundTrip := by
  rw [h.sound.roundTrip hlimit]
  refine ⟨?_, h.sound.rewound⟩
  rw [h.same]
  exact Prod.ext (FileTable.rewound_rewound _).symm rfl

/-- Two runs that differ in round trips alone stay alike. -/
theorem run_matches {steps : List FileStep} (h : Matches names limit s s')
    (hlimit : limit + FileStep.size steps < OpenFile.maxPosition)
    (hnames : ∀ name ∈ FileStep.names steps, name ∈ names)
    (hdiffer : ∀ before, before <+: steps → (s.run (FileStep.ops before)).2.1.NamesDiffer) :
    (s.run (FileStep.ops steps)).1 = (s'.run steps).1 ∧
      Matches names (limit + FileStep.size steps) (s.run (FileStep.ops steps)).2 (s'.run steps).2 := by
  induction steps generalizing s s' limit with
  | nil => exact ⟨rfl, h⟩
  | cons step rest ih =>
    cases step with
    | perform op =>
      have hfirst : (s.perform op).2.1.NamesDiffer := hdiffer [.perform op] (List.prefix_append _ rest)
      have hopens : ∀ name, op.name? = some name → name ∈ names := by
        intro name hname
        exact hnames name (List.mem_filterMap.2 ⟨.perform op, List.mem_cons_self, hname⟩)
      obtain ⟨hresult, hmatches⟩ := h.perform hopens hfirst
      have hsize : limit + FileStep.size (.perform op :: rest) = limit + op.size + FileStep.size rest :=
        (Nat.add_assoc _ _ _).symm
      rw [hsize] at hlimit ⊢
      have hrest := ih hmatches hlimit
        (fun name hname => hnames name ?_)
        (fun before hbefore => hdiffer (.perform op :: before) (List.cons_prefix_cons.2 ⟨rfl, hbefore⟩))
      · exact ⟨congrArg₂ List.cons hresult hrest.1, hrest.2⟩
      · obtain ⟨step, hmem, hstep⟩ := List.mem_filterMap.1 hname
        exact List.mem_filterMap.2 ⟨step, List.mem_cons_of_mem _ hmem, hstep⟩
    | roundTrip =>
      have hlt : limit < OpenFile.maxPosition := Nat.lt_of_le_of_lt (Nat.le_add_right _ _) hlimit
      rw [FileStep.ops_roundTrip, run_roundTrip]
      refine ih (h.roundTrip hlt) hlimit hnames fun before hbefore => ?_
      rw [← FileStep.ops_roundTrip]
      exact hdiffer (.roundTrip :: before) (List.cons_prefix_cons.2 ⟨rfl, hbefore⟩)

end Matches

theorem sound_empty {d : Disk} {names : List String} {limit : Nat} (hplain : d.Plain)
    (hsep : d.Separates names) (hbounded : d.Bounded limit) : Sound names limit ({}, d) where
  plain := hplain
  separates := hsep
  bounded := hbounded
  mem_names := nofun
  live := nofun

/-- Files are opened, written to and closed, no two with one name at the same time.  Round trips between
these operations change neither their results nor the disk.  At each round trip a file that is open for
input, output or random access comes back where it was. -/
theorem roundTrips_invisible {d : Disk} {steps : List FileStep} (hplain : d.Plain)
    (hsep : d.Separates (FileStep.names steps))
    (hsize : ∀ id, (d.contents id).length + FileStep.size steps < OpenFile.maxPosition)
    (hdiffer : ∀ before, before <+: steps → (run ({}, d) (FileStep.ops before)).2.1.NamesDiffer) :
    (run ({}, d) steps).1 = (run ({}, d) (FileStep.ops steps)).1 ∧
      (run ({}, d) steps).2.2 = (run ({}, d) (FileStep.ops steps)).2.2 ∧
      ∀ before after, steps = before ++ .roundTrip :: after →
        ∀ number f, (run ({}, d) before).2.1.get? number = some f → f.mode ≠ .append →
          (run ({}, d) before).2.roundTrip.1.get? number = some f := by
  obtain ⟨limit, hbounded, hlimit⟩ := Disk.exists_bounded hsize
  have hstart : Matches (FileStep.names steps) limit ({}, d) ({}, d) :=
    ⟨rfl, sound_empty hplain hsep hbounded⟩
  -- what holds of the whole run holds of its beginnings
  have hruns : ∀ before, before <+: steps →
      limit + FileStep.size before < OpenFile.maxPosition ∧
        (run ({}, d) (FileStep.ops before)).1 = (run ({}, d) before).1 ∧
        Matches (FileStep.names steps) (limit + FileStep.size before)
          (run ({}, d) (FileStep.ops before)).2 (run ({}, d) before).2 := by
    rintro before ⟨after, rfl⟩
    have hbefore : limit + FileStep.size before < OpenFile.maxPosition := by
      rw [FileStep.size_append] at hlimit
      omega
    refine ⟨hbefore, run_matches hstart hbefore ?_ ?_⟩
    · intro name hname
      rw [FileStep.names, List.filterMap_append]
      exact List.mem_append_left _ hname
    · intro early hearly
      exact hdiffer early (hearly.trans (List.prefix_append before after))
  obtain ⟨-, hresults, hmatches⟩ := hruns steps (List.prefix_refl _)
  refine ⟨hresults.symm, hmatches.disk_eq.symm, ?_⟩
  rintro before after rfl number f hget hmode
  obtain ⟨hbefore, -, hmatches⟩ := hruns before (List.prefix_append _ _)
  rw [hmatches.sound.roundTrip hbefore]
  show (FileTable.rewound _).get? number = some f
  rw [FileTable.get?_rewound, hget, Option.map_some, OpenFile.rewound_of_ne hmode]

/-- Two files, each written to before and after a round trip. -/
def twoFiles : List FileStep :=
  [.perform (.open 1 "a" .output), .perform (.write 1 "HI"), .roundTrip, .perform (.open 2 "b" .append),
    .perform (.write 2 "X"), .roundTrip, .perform (.write 1 "!"), .perform (.write 2 "Y")]

theorem separates_twoFiles : ({} : Disk).Separates (FileStep.names twoFiles) := by
  have ha : ({} : Disk).resolve "a" = .ok ⟨["a"], false⟩ := by cbv
  have hb : ({} : Disk).resolve "b" = .ok ⟨["b"], false⟩ := by cbv
  simp [Separates, FileStep.names, twoFiles, FileOp.name?, ha, hb]

theorem namesDiffer_twoFiles {before : List FileStep} (h : before <+: twoFiles) :
    (run ({}, {}) (FileStep.ops before)).2.1.NamesDiffer := by
  have hall : (twoFiles.inits.all fun before =>
      (run ({}, {}) (FileStep.ops before)).2.1.NamesDiffer) = true := by cbv
  exact of_decide_eq_true (List.all_eq_true.1 hall before ((List.mem_inits _ _).2 h))

/-- Each write goes on where the last one ended. -/
theorem twoFiles_roundTrips :
    (run ({}, {}) twoFiles).1 = (run ({}, {}) (FileStep.ops twoFiles)).1 ∧
      (run ({}, {}) twoFiles).2.2.files = [Text.utf8 "HI!", Text.utf8 "XY"] := by
  have hplain : ({} : Disk).Plain := by
    constructor <;> simp [ entry?]
  have hsize : ∀ id, (({} : Disk).contents id).length + FileStep.size twoFiles < OpenFile.maxPosition := by
    intro id
    have hbytes : FileStep.size twoFiles = 5 := rfl
    simp [contents, hbytes, OpenFile.maxPosition]
  obtain ⟨hresults, hdisk, -⟩ :=
    roundTrips_invisible hplain separates_twoFiles hsize fun _ => namesDiffer_twoFiles
  refine ⟨hresults, ?_⟩
  rw [hdisk]
  cbv

end Filing

end LineBasic

import LineBasic.Disk.OpenFile

/-!
# What names stand for

A name is resolved by the directories of a disk, and stands for what its place holds.

* `SameDirectories.resolve_eq_ok_iff`: disks with the same directories resolve names alike.
* `openExisting_eq_file_iff`, `openCreating_cases`, `read_eq_ok_iff`: from names to files.
* `contents_setContents`, `entry?_create_of_ne`: what a change to a file and a new file leave of the rest.
* `Plain`, `Separates`: names and places that tell files apart.
* `ChangesOnly`: what a file that is opened or written may change.
-/

namespace LineBasic.Disk

variable {d d' : Disk} {name : String}

/-! ## Resolving names -/

/-- The directories are in the same places. -/
def SameDirectories (d d' : Disk) : Prop :=
  ∀ path, d.entry? path = some .directory ↔ d'.entry? path = some .directory

theorem SameDirectories.refl (d : Disk) : SameDirectories d d :=
  fun _ => Iff.rfl

theorem SameDirectories.symm (h : SameDirectories d d') : SameDirectories d' d :=
  fun path => (h path).symm

theorem SameDirectories.trans {d₁ d₂ d₃ : Disk} (h : SameDirectories d₁ d₂)
    (h' : SameDirectories d₂ d₃) : SameDirectories d₁ d₃ :=
  fun path => (h path).trans (h' path)

/-- Following one part of a name. -/
theorem follow_cons (d : Disk) (place : DiskPath) {part : String} (rest : List String)
    (hup : part ≠ "..") :
    d.follow place (part :: rest) =
      if maxName < part.utf8ByteSize then .error .other
      else if rest.isEmpty then .ok (place ++ [part])
      else match d.entry? (place ++ [part]) with
        | some .directory => d.follow (place ++ [part]) rest
        | some (.file _) => .error .other
        | none => .error .notFound :=
  follow.eq_3 d place part rest hup

/-- Only directories matter to where a name leads. -/
theorem SameDirectories.follow_eq_ok (h : SameDirectories d d') {place path : DiskPath}
    {parts : List String} (hfollow : d.follow place parts = .ok path) :
    d'.follow place parts = .ok path := by
  induction parts generalizing place with
  | nil => exact hfollow
  | cons part rest ih =>
    by_cases hup : part = ".."
    · subst hup
      exact ih hfollow
    · rw [follow_cons d place rest hup] at hfollow
      rw [follow_cons d' place rest hup]
      split at hfollow
      · cases hfollow
      · rename_i hshort
        rw [if_neg hshort]
        split at hfollow
        · rename_i hlast
          rw [if_pos hlast]
          exact hfollow
        · rename_i hmore
          rw [if_neg hmore]
          -- a part that is not the last one was a directory, and still is
          cases hentry : d.entry? (place ++ [part]) with
          | none =>
            rw [hentry] at hfollow
            cases hfollow
          | some e =>
            rw [hentry] at hfollow
            cases e with
            | file id => cases hfollow
            | directory =>
              rw [(h _).1 hentry]
              exact ih hfollow

theorem SameDirectories.resolve_eq_ok (h : SameDirectories d d') {r : Resolved}
    (hr : d.resolve name = .ok r) : d'.resolve name = .ok r := by
  unfold resolve at hr ⊢
  dsimp only at hr ⊢
  split at hr
  · cases hr
  · rename_i hnul
    rw [if_neg hnul]
    split at hr
    · cases hr
    · rename_i hempty
      rw [if_neg hempty]
      split at hr
      · cases hr
      · rename_i hlong
        rw [if_neg hlong]
        cases hfollow : d.follow [] ((name.splitOn "/").filter fun p => p ≠ "" ∧ p ≠ ".") with
        | error e =>
          rw [hfollow] at hr
          cases hr
        | ok path =>
          rw [hfollow] at hr
          rw [h.follow_eq_ok hfollow]
          exact hr

/-- Disks with the same directories resolve names alike. -/
theorem SameDirectories.resolve_eq_ok_iff (h : SameDirectories d d') {r : Resolved} :
    d.resolve name = .ok r ↔ d'.resolve name = .ok r :=
  ⟨h.resolve_eq_ok, h.symm.resolve_eq_ok⟩

/-- A name that is too long cannot be resolved. -/
theorem length_le_of_resolve {r : Resolved} (h : d.resolve name = .ok r) :
    (Text.utf8 name).length ≤ maxPath := by
  show name.utf8ByteSize ≤ maxPath
  unfold resolve at h
  split at h
  · cases h
  · split at h
    · cases h
    · split at h
      · cases h
      · rename_i hlong
        exact Nat.not_lt.1 hlong

/-! ## From names to files -/

/-- What the place of a name gives, if the name is opened. -/
def found (r : Resolved) : Option DiskEntry → Except DeviceFault DiskEntry
  | none => .error .notFound
  | some .directory => .ok .directory
  | some (.file id) => if r.asDirectory then .error .other else .ok (.file id)

theorem openExisting_eq (d : Disk) (name : String) :
    d.openExisting name = (d.resolve name).bind fun r => found r (d.entry? r.path) := by
  unfold openExisting
  cases d.resolve name with
  | error e => rfl
  | ok r =>
    simp only [bind, Except.bind]
    cases d.entry? r.path with
    | none => rfl
    | some e => cases e <;> rfl

/-- The names of a file. -/
theorem openExisting_eq_file_iff {id : Nat} :
    d.openExisting name = .ok (.file id) ↔
      ∃ r, d.resolve name = .ok r ∧ r.asDirectory = false ∧ d.entry? r.path = some (.file id) := by
  rw [openExisting_eq]
  cases d.resolve name with
  | error e => exact iff_of_false nofun nofun
  | ok r =>
    show found r (d.entry? r.path) = _ ↔ _
    cases hentry : d.entry? r.path with
    | none => simp [found, hentry]
    | some e =>
      cases e with
      | directory => simp [found, hentry]
      | file id' => cases hdirectory : r.asDirectory <;> simp [found, hentry, hdirectory]

/-- The names of a directory. -/
theorem openExisting_eq_directory_iff :
    d.openExisting name = .ok .directory ↔
      ∃ r, d.resolve name = .ok r ∧ d.entry? r.path = some .directory := by
  rw [openExisting_eq]
  cases d.resolve name with
  | error e => exact iff_of_false nofun nofun
  | ok r =>
    show found r (d.entry? r.path) = _ ↔ _
    cases hentry : d.entry? r.path with
    | none => simp [found, hentry]
    | some e =>
      cases e with
      | directory => simp [found, hentry]
      | file id => cases hdirectory : r.asDirectory <;> simp [found, hentry, hdirectory]

theorem openWritable_of_file {id : Nat} (h : d.openExisting name = .ok (.file id)) :
    d.openWritable name = .ok id := by
  unfold openWritable
  rw [h]
  rfl

/-- What can be read is the contents of a file. -/
theorem read_eq_ok_iff {bytes : List UInt8} :
    d.read name = .ok bytes ↔ ∃ id, d.openExisting name = .ok (.file id) ∧ d.contents id = bytes := by
  unfold read
  cases d.openExisting name with
  | error e => exact iff_of_false nofun nofun
  | ok e =>
    cases e with
    | directory => exact iff_of_false nofun nofun
    | file id =>
      constructor
      · rintro ⟨⟩
        exact ⟨id, rfl, rfl⟩
      · rintro ⟨id', ⟨⟩, rfl⟩
        rfl

/-- A file that exists is opened as it is. -/
theorem openCreating_of_file {id : Nat} (h : d.openExisting name = .ok (.file id)) :
    d.openCreating name = .ok (id, d) := by
  obtain ⟨r, hresolve, hfile, hentry⟩ := openExisting_eq_file_iff.1 h
  simp only [openCreating, hresolve, bind, Except.bind, hentry, hfile]
  rfl

/-- A file that is opened for writing exists, or is created where there was nothing. -/
theorem openCreating_cases {id : Nat} (h : d.openCreating name = .ok (id, d')) :
    d.openExisting name = .ok (.file id) ∧ d' = d ∨
      ∃ r, d.resolve name = .ok r ∧ r.asDirectory = false ∧ d.entry? r.path = none ∧
        (id, d') = d.create r.path [] := by
  unfold openCreating at h
  cases hresolve : d.resolve name with
  | error e =>
    rw [hresolve] at h
    cases h
  | ok r =>
    simp only [hresolve, bind, Except.bind] at h
    cases hentry : d.entry? r.path with
    | none =>
      simp only [hentry] at h
      cases hdirectory : r.asDirectory with
      | true =>
        rw [hdirectory] at h
        cases h
      | false =>
        rw [hdirectory] at h
        refine .inr ⟨r, rfl, hdirectory, hentry, ?_⟩
        cases h
        rfl
    | some e =>
      simp only [hentry] at h
      cases e with
      | directory => cases h
      | file id' =>
        cases hdirectory : r.asDirectory with
        | true =>
          rw [hdirectory] at h
          cases h
        | false =>
          rw [hdirectory] at h
          cases h
          exact .inl ⟨openExisting_eq_file_iff.2 ⟨r, hresolve, hdirectory, hentry⟩, rfl⟩

/-! ## Contents -/

theorem sameDirectories_setContents (d : Disk) (id : Nat) (bytes : List UInt8) :
    SameDirectories d (d.setContents id bytes) :=
  fun _ => Iff.rfl

/-- Names stand for the same files, whatever the files hold. -/
theorem openExisting_setContents_iff {id : Nat} {bytes : List UInt8} {e : DiskEntry} :
    (d.setContents id bytes).openExisting name = .ok e ↔ d.openExisting name = .ok e := by
  have hresolve : ∀ r, (d.setContents id bytes).resolve name = .ok r ↔ d.resolve name = .ok r :=
    fun _ => (sameDirectories_setContents d id bytes).symm.resolve_eq_ok_iff
  cases e with
  | file id' =>
    rw [openExisting_eq_file_iff, openExisting_eq_file_iff]
    exact exists_congr fun r => and_congr_left' (hresolve r)
  | directory =>
    rw [openExisting_eq_directory_iff, openExisting_eq_directory_iff]
    exact exists_congr fun r => and_congr_left' (hresolve r)

theorem contents_setContents {id : Nat} (h : id < d.files.length) (bytes : List UInt8) :
    (d.setContents id bytes).contents id = bytes := by
  simp [setContents, contents, h]

/-- The other files keep their contents. -/
theorem contents_setContents_of_ne {id id' : Nat} (h : id ≠ id') (bytes : List UInt8) :
    (d.setContents id bytes).contents id' = d.contents id' := by
  simp [setContents, contents, List.getElem?_set_ne h]

/-- A file can be cut to its first bytes, also if it is not there. -/
theorem contents_setContents_take (d : Disk) (id n : Nat) :
    (d.setContents id ((d.contents id).take n)).contents id = (d.contents id).take n := by
  by_cases h : id < d.files.length
  · exact contents_setContents h _
  · simp [setContents, contents, Nat.not_lt.1 h]

/-- To write what is there changes nothing. -/
theorem setContents_contents (d : Disk) (id : Nat) : d.setContents id (d.contents id) = d := by
  obtain ⟨entries, files⟩ := d
  show (⟨entries, files.set id (files[id]?.getD [])⟩ : Disk) = ⟨entries, files⟩
  by_cases h : id < files.length
  · rw [List.getElem?_eq_getElem h, Option.getD_some, List.set_getElem_self]
  · rw [List.set_eq_of_length_le (Nat.not_lt.1 h)]

/-! ## New files -/

theorem lookup_filter_ne {path path' : DiskPath} (h : path' ≠ path)
    (entries : List (DiskPath × DiskEntry)) :
    (entries.filter fun e => e.1 ≠ path).lookup path' = entries.lookup path' := by
  induction entries with
  | nil => rfl
  | cons e rest ih =>
    obtain ⟨place, entry⟩ := e
    by_cases hplace : place = path
    · have hother : (path' == place) = false := by simpa [hplace] using h
      rw [List.filter_cons_of_neg (by simpa using hplace), ih, List.lookup_cons, hother]
    · rw [List.filter_cons_of_pos (by simpa using hplace), List.lookup_cons, List.lookup_cons, ih]

section Create

variable {path : DiskPath} (hnone : d.entry? path = none) (bytes : List UInt8)

include hnone in
theorem entry?_create_self : entry? (d.create path bytes).2 path = some (.file d.files.length) := by
  have hpath : path.isEmpty = false := by
    cases path with
    | nil => cases hnone
    | cons part rest => rfl
  simp [create, link, entry?, hpath]

/-- The other places keep their entries. -/
theorem entry?_create_of_ne {path' : DiskPath} (h : path' ≠ path) :
    entry? (d.create path bytes).2 path' = d.entry? path' := by
  have hother : (path' == path) = false := by simpa using h
  simp only [create, link, entry?]
  rw [List.lookup_cons, hother, lookup_filter_ne h]

include hnone in
theorem sameDirectories_create : SameDirectories d (d.create path bytes).2 := by
  intro path'
  by_cases h : path' = path
  · subst h
    rw [entry?_create_self hnone bytes, hnone]
    exact iff_of_false nofun nofun
  · rw [entry?_create_of_ne bytes h]

/-- A new file changes no other. -/
theorem contents_create_of_lt {id : Nat} (h : id < d.files.length) :
    (d.create path bytes).2.contents id = d.contents id := by
  simp [create, link, contents, List.getElem?_append_left h]

include hnone in
/-- What could be opened still can be. -/
theorem openExisting_create {name : String} {e : DiskEntry} (h : d.openExisting name = .ok e) :
    (d.create path bytes).2.openExisting name = .ok e := by
  have hresolve : ∀ {r}, d.resolve name = .ok r → (d.create path bytes).2.resolve name = .ok r :=
    (sameDirectories_create hnone bytes).resolve_eq_ok
  have hentry : ∀ {path' entry}, d.entry? path' = some entry →
      entry? (d.create path bytes).2 path' = some entry := by
    intro path' entry hsome
    have hother : path' ≠ path := by
      rintro rfl
      rw [hnone] at hsome
      cases hsome
    rw [entry?_create_of_ne bytes hother, hsome]
  cases e with
  | file id =>
    obtain ⟨r, hr, hfile, hsome⟩ := openExisting_eq_file_iff.1 h
    exact openExisting_eq_file_iff.2 ⟨r, hresolve hr, hfile, hentry hsome⟩
  | directory =>
    obtain ⟨r, hr, hsome⟩ := openExisting_eq_directory_iff.1 h
    exact openExisting_eq_directory_iff.2 ⟨r, hresolve hr, hentry hsome⟩

end Create

/-! ## Files of their own -/

/-- Each file is in one place, and its contents are there. -/
structure Plain (d : Disk) : Prop where
  kept {path : DiskPath} {id : Nat} : d.entry? path = some (.file id) → id < d.files.length
  single {path path' : DiskPath} {id : Nat} :
    d.entry? path = some (.file id) → d.entry? path' = some (.file id) → path = path'

theorem Plain.setContents (h : d.Plain) (id : Nat) (bytes : List UInt8) : (d.setContents id bytes).Plain where
  kept hentry := by
    rw [Disk.setContents, List.length_set]
    exact h.kept hentry
  single := h.single

/-- A new file at a free place keeps the disk plain. -/
theorem Plain.create (h : d.Plain) {path : DiskPath} (hnone : d.entry? path = none) (bytes : List UInt8) :
    (d.create path bytes).2.Plain := by
  have hlength : (d.create path bytes).2.files.length = d.files.length + 1 := by
    simp [Disk.create, link]
  -- the new file is in its place, and the files in other places are older
  have hcases : ∀ {path' id}, entry? (d.create path bytes).2 path' = some (.file id) →
      path' = path ∧ id = d.files.length ∨ d.entry? path' = some (.file id) ∧ id < d.files.length := by
    intro path' id hentry
    by_cases hpath : path' = path
    · subst hpath
      rw [entry?_create_self hnone bytes] at hentry
      cases hentry
      exact .inl ⟨rfl, rfl⟩
    · rw [entry?_create_of_ne bytes hpath] at hentry
      exact .inr ⟨hentry, h.kept hentry⟩
  constructor
  · intro path' id hentry
    rw [hlength]
    obtain ⟨-, rfl⟩ | ⟨-, hlt⟩ := hcases hentry
    · exact Nat.lt_succ_self _
    · exact Nat.lt_succ_of_lt hlt
  · intro path₁ path₂ id hentry₁ hentry₂
    obtain ⟨rfl, rfl⟩ | ⟨hold₁, hlt₁⟩ := hcases hentry₁
    · obtain ⟨rfl, -⟩ | ⟨-, hlt₂⟩ := hcases hentry₂
      · rfl
      · exact absurd hlt₂ (Nat.lt_irrefl _)
    · obtain ⟨-, rfl⟩ | ⟨hold₂, -⟩ := hcases hentry₂
      · exact absurd hlt₁ (Nat.lt_irrefl _)
      · exact h.single hold₁ hold₂

/-- A file that can be opened has contents. -/
theorem Plain.id_lt (h : d.Plain) {id : Nat} (hopen : d.openExisting name = .ok (.file id)) :
    id < d.files.length := by
  obtain ⟨r, -, -, hentry⟩ := openExisting_eq_file_iff.1 hopen
  exact h.kept hentry

/-- Names that stand for one place are one name. -/
def Separates (d : Disk) (names : List String) : Prop :=
  ∀ name ∈ names, ∀ name' ∈ names, ∀ r r', d.resolve name = .ok r → d.resolve name' = .ok r' →
    r.path = r'.path → name = name'

section Separates

variable {names : List String}

/-- Names stay apart as long as the directories stay. -/
theorem Separates.of_sameDirectories (h : d.Separates names) (hsame : SameDirectories d d') :
    d'.Separates names := by
  intro name hname name' hname' r r' hr hr' hpath
  exact h name hname name' hname' r r' (hsame.symm.resolve_eq_ok hr) (hsame.symm.resolve_eq_ok hr') hpath

/-- Names that stand for one file are one name. -/
theorem Separates.eq_of_file (h : d.Separates names) (hplain : d.Plain) {name name' : String} {id : Nat}
    (hname : name ∈ names) (hname' : name' ∈ names) (hopen : d.openExisting name = .ok (.file id))
    (hopen' : d.openExisting name' = .ok (.file id)) : name = name' := by
  obtain ⟨r, hr, -, hentry⟩ := openExisting_eq_file_iff.1 hopen
  obtain ⟨r', hr', -, hentry'⟩ := openExisting_eq_file_iff.1 hopen'
  exact h name hname name' hname' r r' hr hr' (hplain.single hentry hentry')

end Separates

/-! ## Changes to one file -/

/-- The second disk is the first, but for what the file with a name holds, or that it is there now. -/
structure ChangesOnly (name : String) (d d' : Disk) : Prop where
  plain : d.Plain → d'.Plain
  directories : SameDirectories d d'
  opens {name' : String} {e : DiskEntry} : d.openExisting name' = .ok e → d'.openExisting name' = .ok e
  contents {name' : String} {id : Nat} : d.Plain → d.openExisting name' = .ok (.file id) →
    d'.openExisting name ≠ .ok (.file id) → d'.contents id = d.contents id

theorem ChangesOnly.refl (name : String) (d : Disk) : ChangesOnly name d d :=
  ⟨id, .refl d, id, fun _ _ _ => rfl⟩

/-- Writing to the file with the name changes only that. -/
theorem ChangesOnly.setContents {id : Nat} (h : ChangesOnly name d d')
    (hopen : d'.openExisting name = .ok (.file id)) (bytes : List UInt8) :
    ChangesOnly name d (d'.setContents id bytes) where
  plain hd := (h.plain hd).setContents id bytes
  directories := h.directories.trans (sameDirectories_setContents d' id bytes)
  opens hname := openExisting_setContents_iff.2 (h.opens hname)
  contents := by
    intro name' id' hd hname hother
    have hne : id ≠ id' := by
      rintro rfl
      exact hother (openExisting_setContents_iff.2 hopen)
    rw [contents_setContents_of_ne hne]
    refine h.contents hd hname fun hsame => ?_
    rw [hopen] at hsame
    cases hsame
    exact hne rfl

/-- A name can be opened for writing and then stands for a file. -/
theorem openCreating_changesOnly {id : Nat} (h : d.openCreating name = .ok (id, d')) :
    ChangesOnly name d d' ∧ d'.openExisting name = .ok (.file id) := by
  obtain ⟨hopen, rfl⟩ | ⟨r, hr, hfile, hnone, hcreate⟩ := openCreating_cases h
  · exact ⟨.refl name _, hopen⟩
  · obtain ⟨rfl, rfl⟩ : id = d.files.length ∧ d' = (d.create r.path []).2 := Prod.mk.inj hcreate
    have hdirectories := sameDirectories_create hnone []
    refine ⟨⟨fun hd => hd.create hnone [], hdirectories, openExisting_create hnone [], ?_⟩, ?_⟩
    · intro name' id' hd hname _
      obtain ⟨r', -, -, hentry⟩ := openExisting_eq_file_iff.1 hname
      exact contents_create_of_lt [] (hd.kept hentry)
    · exact openExisting_eq_file_iff.2
        ⟨r, hdirectories.resolve_eq_ok hr, hfile, entry?_create_self hnone []⟩

/-! ## The length of files -/

/-- No file is longer than a limit. -/
def Bounded (limit : Nat) (d : Disk) : Prop :=
  ∀ id, (d.contents id).length ≤ limit

section Bounded

variable {limit : Nat}

theorem Bounded.mono (h : d.Bounded limit) {limit' : Nat} (hle : limit ≤ limit') : d.Bounded limit' :=
  fun id => Nat.le_trans (h id) hle

theorem Bounded.setContents (h : d.Bounded limit) {id : Nat} {bytes : List UInt8}
    (hbytes : bytes.length ≤ limit) : (d.setContents id bytes).Bounded limit := by
  intro id'
  by_cases hid : id = id'
  · subst hid
    by_cases hlt : id < d.files.length
    · rw [contents_setContents hlt]
      exact hbytes
    · simp [Disk.setContents, contents, Nat.not_lt.1 hlt]
  · rw [contents_setContents_of_ne hid]
    exact h id'

theorem Bounded.openCreating (h : d.Bounded limit) {id : Nat} (hopen : d.openCreating name = .ok (id, d')) :
    d'.Bounded limit := by
  obtain ⟨-, rfl⟩ | ⟨r, -, -, -, hcreate⟩ := openCreating_cases hopen
  · exact h
  · obtain ⟨-, rfl⟩ : id = d.files.length ∧ d' = (d.create r.path []).2 := Prod.mk.inj hcreate
    intro id'
    by_cases hlt : id' < d.files.length
    · rw [contents_create_of_lt [] hlt]
      exact h id'
    · have hnew : (d.create r.path []).2.contents id' = [] := by
        simp only [create, link, contents, List.getElem?_append_right (Nat.not_lt.1 hlt)]
        cases id' - d.files.length <;> rfl
      rw [hnew]
      exact Nat.zero_le _

/-- If every file has room, there is a bound for all of them. -/
theorem exists_bounded {size bound : Nat} (h : ∀ id, (d.contents id).length + size < bound) :
    ∃ limit, d.Bounded limit ∧ limit + size < bound := by
  refine ⟨bound - 1 - size, fun id => ?_, ?_⟩
  · have := h id
    omega
  · have := h 0
    omega

end Bounded

end LineBasic.Disk

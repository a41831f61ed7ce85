import LineBasic.Proofs.Program.Load
import LineBasic.Proofs.Snapshot.Codec
import LineBasic.Snapshot.Payload

/-!
# Reading a session back

Each part of a session is read back from its layout, as long as its numbers fit in the width they are
written in.  The program is found again by scanning its image, and the files are opened again one after
the other.

* `Session.Fits`: lengths and positions that fit in 64 bits.
* `Session.restored`: a session as it comes back.
* `session_layout`: a session is read back from its layout.
-/

namespace LineBasic

/-! ## Parts -/

/-- The place of a subroutine can be laid out. -/
def GosubFrame.Fits (f : GosubFrame) : Prop :=
  f.statement < wordBound

/-- The text of a value can be laid out. -/
def Value.Fits : Value → Prop
  | .string s => (Text.utf8 s).length < wordBound
  | _ => True

/-- The place of an error can be laid out. -/
def Location.Fits : Location → Prop
  | .direct => True
  | .program offset => offset < wordBound

/-- Name and position of a file can be laid out. -/
def FileImage.Fits (f : FileImage) : Prop :=
  (Text.utf8 f.name).length < wordBound ∧ ∀ pos ∈ f.position, pos < wordBound

/-- A code stream is read back. -/
theorem reads_stream {s : CodeStream} (hbytes : s.bytes.length < wordBound)
    (hpos : s.pos < wordBound) : Reads Decoder.stream s (Layout.stream s) :=
  (reads_bytes hbytes).bind ((reads_size hpos).last rfl)

theorem reads_mode (m : Mode) : Reads Decoder.mode m (Layout.mode m) := by
  cases m <;> exact (reads_tag (by decide)).last rfl

theorem reads_editPrompt {p : EditPrompt} (h : p.position < wordBound) :
    Reads Decoder.editPrompt p (Layout.editPrompt p) :=
  (reads_word p.line).bind ((reads_size h).last rfl)

theorem reads_eventKind (k : EventKind) : Reads Decoder.eventKind k (Layout.eventKind k) := by
  cases k with
  | timer | play | pen => exact (reads_tag (by decide)).last rfl
  | key n | com n | strig n => exact (reads_tag (by decide)).bind ((reads_byte n).last rfl)

theorem reads_gosubFrame {f : GosubFrame} (h : f.Fits) :
    Reads Decoder.gosubFrame f (Layout.gosubFrame f) := by
  have hhandler := reads_option (o := f.handler) fun k _ => reads_eventKind k
  rw [Layout.gosubFrame, List.append_assoc]
  exact (reads_size h).bind ((reads_bool f.inProgram).bind (hhandler.last rfl))

/-- The subroutines are read back in their order. -/
theorem reads_gosubStack {s : BoundedStack GosubFrame}
    (hlabel : (Text.utf8 s.label).length < wordBound) (hlimit : s.limit < wordBound)
    (hlength : s.items.length < wordBound) (hitems : ∀ f ∈ s.items, f.Fits) :
    Reads Decoder.gosubStack s (Layout.gosubStack s) := by
  have hframes : Reads (Decoder.list Decoder.gosubFrame) s.items.reverse
      (Layout.list Layout.gosubFrame s.items.reverse) := by
    refine reads_list (by rwa [List.length_reverse]) fun f hf => ?_
    exact reads_gosubFrame (hitems f (List.mem_reverse.1 hf))
  rw [Layout.gosubStack, List.append_assoc]
  refine (reads_text hlabel).bind ((reads_size hlimit).bind (hframes.last ?_))
  rw [List.reverse_reverse]

/-- A value is read back with its type. -/
theorem reads_value {v : Value} (h : v.Fits) : Reads Decoder.value v (Layout.value v) := by
  cases v with
  | string s => exact (reads_tag (by decide)).bind ((reads_text h).last rfl)
  | integer n =>
    refine (reads_tag (by decide)).bind ((reads_word n.toUInt16).last ?_)
    rw [Int16.toInt16_toUInt16]
  | single x =>
    refine (reads_tag (by decide)).bind ((reads_nat 4 (UInt32.toNat_lt x.bits)).last ?_)
    rw [UInt32.ofNat_toNat]

theorem Variables.foldl_insert (entries : List (String × Value)) (m : Std.ExtTreeMap String Value) :
    entries.foldl (fun m e => m.insert e.1 e.2) m = m.insertMany entries := by
  induction entries generalizing m with
  | nil => rfl
  | cons e entries ih =>
    rw [List.foldl_cons, ih]
    exact Std.ExtTreeMap.insertMany_cons.symm

/-- A table made of distinct names holds what the list says. -/
theorem Variables.getElem?_ofList {entries : List (String × Value)}
    (h : entries.Pairwise fun a b => a.1 ≠ b.1) {name : String} {value : Value} :
    (ofList entries).values[name]? = some value ↔ (name, value) ∈ entries := by
  have hdistinct : entries.Pairwise fun a b => ¬ compare a.1 b.1 = .eq :=
    h.imp fun hne heq => hne (Std.LawfulEqCmp.eq_of_compare heq)
  have hvalue : ∀ {value}, (name, value) ∈ entries →
      (ofList entries).values[name]? = some value := by
    intro value hmem
    show (entries.foldl _ _)[name]? = _
    rw [foldl_insert]
    exact Std.ExtTreeMap.getElem?_insertMany_list_of_mem Std.ReflCmp.compare_self hdistinct hmem
  refine ⟨fun hget => ?_, hvalue⟩
  by_cases hlisted : ∃ value', (name, value') ∈ entries
  · obtain ⟨value', hmem⟩ := hlisted
    rw [hvalue hmem] at hget
    cases hget
    exact hmem
  · have hnone : (ofList entries).values[name]? = none := by
      show (entries.foldl _ _)[name]? = _
      rw [foldl_insert, Std.ExtTreeMap.getElem?_insertMany_list_of_contains_eq_false]
      · rfl
      · simpa using hlisted
    rw [hnone] at hget
    cases hget

theorem Variables.distinct_toList (v : Variables) : v.toList.Pairwise fun a b => a.1 ≠ b.1 :=
  Std.ExtTreeMap.distinct_keys_toList.imp fun hne heq =>
    hne (by rw [heq]; exact Std.ReflCmp.compare_self)

namespace Variables.Enumeration

variable {v : Variables}

/-- However variables are enumerated, no name comes twice. -/
theorem distinct (order : v.Enumeration) : order.entries.Pairwise fun a b => a.1 ≠ b.1 :=
  (order.perm.pairwise_iff Ne.symm).2 v.distinct_toList

/-- In any order the entries are the assigned variables. -/
theorem mem_entries_iff (order : v.Enumeration) {name : String} {value : Value} :
    (name, value) ∈ order.entries ↔ v.values[name]? = some value := by
  rw [order.perm.mem_iff]
  exact Std.ExtTreeMap.mem_toList_iff_getElem?_eq_some

theorem length_entries (order : v.Enumeration) : order.entries.length = v.size := by
  rw [order.perm.length_eq]
  exact Std.ExtTreeMap.length_toList

/-- Variables are told by their entries, in whatever order. -/
theorem ofList_entries (order : v.Enumeration) : ofList order.entries = v := by
  have hvalues : (ofList order.entries).values = v.values := by
    apply Std.ExtTreeMap.ext_getElem?
    intro name
    apply Option.ext
    intro value
    rw [getElem?_ofList order.distinct, order.mem_entries_iff]
  exact congrArg Variables.mk hvalues

/-- Entries with different names enumerate the variables that they make. -/
def ofEntries (entries : List (String × Value)) (h : entries.Pairwise fun a b => a.1 ≠ b.1) :
    (Variables.ofList entries).Enumeration where
  entries
  perm := by
    have hnodup : entries.Nodup := h.imp fun hne heq => hne (congrArg Prod.fst heq)
    have hnodup' : (Variables.ofList entries).toList.Nodup :=
      (distinct_toList _).imp fun hne heq => hne (congrArg Prod.fst heq)
    rw [List.perm_ext_iff_of_nodup hnodup hnodup']
    intro e
    rw [← getElem?_ofList h]
    exact Std.ExtTreeMap.mem_toList_iff_getElem?_eq_some.symm

end Variables.Enumeration

/-- The variables are read back in whatever order they were written. -/
theorem reads_variableTable {v : Variables} (order : v.Enumeration) (hsize : v.size < wordBound)
    (h : ∀ e ∈ v.toList, (Text.utf8 e.1).length < wordBound ∧ e.2.Fits) :
    Reads Decoder.variableTable v (Layout.variableTable order) := by
  have hlength : order.entries.length < wordBound := by rwa [order.length_entries]
  have hentries : Reads (Decoder.list do return (← Decoder.text, ← Decoder.value)) order.entries
      (Layout.variableTable order) := by
    refine reads_list hlength fun e he => ?_
    obtain ⟨hname, hvalue⟩ := h e (order.perm.mem_iff.1 he)
    exact (reads_text hname).bind ((reads_value hvalue).last rfl)
  refine hentries.last ?_
  rw [order.ofList_entries]

theorem reads_eventState (s : EventState) : Reads Decoder.eventState s (Layout.eventState s) := by
  cases s <;> exact (reads_tag (by decide)).last rfl

theorem reads_eventDescriptor (d : EventDescriptor) :
    Reads Decoder.eventDescriptor d (Layout.eventDescriptor d) := by
  have hhandler := reads_option (o := d.handler) fun w _ => reads_word w
  simp only [Layout.eventDescriptor, List.append_assoc]
  exact (reads_eventKind d.kind).bind ((reads_bool d.enabled).bind ((reads_bool d.triggered).bind
    ((reads_eventState d.state).bind (hhandler.last rfl))))

/-- Of the event table all is read back but the events that were sent and not polled. -/
theorem reads_eventTable {t : EventTable} (h : t.descriptors.length < wordBound) :
    Reads Decoder.eventTable { t with pending := {} } (Layout.eventTable t) := by
  have hdescriptors := reads_list h fun d _ => reads_eventDescriptor d
  have hperiod := reads_option (o := t.timerPeriod) fun p _ => reads_time p
  simp only [Layout.eventTable, List.append_assoc]
  exact hdescriptors.bind ((reads_bool t.suspended).bind (hperiod.bind
    ((reads_time t.timerStart).last rfl)))

theorem reads_location {l : Location} (h : l.Fits) : Reads Decoder.location l (Layout.location l) := by
  cases l with
  | direct => exact (reads_tag (by decide)).last rfl
  | program offset => exact (reads_tag (by decide)).bind ((reads_size h).last rfl)

theorem reads_trapState {c : Option ResumeContext} (h : ∀ r ∈ c, r.statement < wordBound) :
    Reads Decoder.trapState c (Layout.trapState c) := by
  cases c with
  | none => exact (reads_tag (by decide)).last rfl
  | some r =>
    simp only [Layout.trapState, List.append_assoc]
    exact (reads_tag (by decide)).bind ((reads_size (h r rfl)).bind
      ((reads_bool r.inProgram).last rfl))

/-- The state of `ON ERROR` is read back. -/
theorem reads_errorTrap {t : ErrorTrap} (hactive : ∀ r ∈ t.active, r.statement < wordBound)
    (hlocation : ∀ l ∈ t.location, l.Fits) : Reads Decoder.errorTrap t (Layout.errorTrap t) := by
  have hhandler := reads_option (o := t.handler) fun w _ => reads_word w
  have hplace := reads_option (o := t.location) fun l hl => reads_location (hlocation l hl)
  simp only [Layout.errorTrap, List.append_assoc]
  exact hhandler.bind ((reads_trapState hactive).bind ((reads_word t.err).bind (hplace.last rfl)))

theorem reads_fileMode (m : FileMode) : Reads Decoder.fileMode m (Layout.fileMode m) := by
  cases m <;> exact (reads_tag (by decide)).last rfl

/-- What is kept of an open file is read back. -/
theorem reads_fileImage {f : FileImage} (h : f.Fits) :
    Reads Decoder.fileImage f (Layout.fileImage f) := by
  have hposition := reads_option (o := f.position) fun n hn => reads_size (h.2 n hn)
  simp only [Layout.fileImage, List.append_assoc]
  exact (reads_text h.1).bind ((reads_fileMode f.mode).bind (hposition.last rfl))

/-! ## The program -/

/-- A program that is scanned again stands where it stood, or at its end. -/
theorem pos_of_ofStream {s : CodeStream} {q : Program} (h : Program.ofStream s = .ok q) :
    q.pos = min s.pos q.image.length := by
  unfold Program.ofStream at h
  split at h
  · cases h
  · split at h
    · rename_i lines _ hasc
      cases hq : Program.ofLines lines (Program.ascending_of_isAscending hasc) with
      | error e =>
        rw [hq] at h
        cases h
      | ok p =>
        rw [hq] at h
        cases h
        rfl
    · cases h

/-- A program is told from its lines and its place. -/
theorem Program.eq_of_lines {p q : Program} (hlines : p.lines = q.lines) (hpos : p.pos = q.pos) :
    p = q := by
  obtain ⟨lines, pos, image, _, rfl, _⟩ := p
  obtain ⟨lines', pos', image', _, rfl, _⟩ := q
  cases hlines
  cases hpos
  rfl

/-- A program is read back from its image if a scan of the image finds its lines. -/
theorem reads_program {p q : Program} (hscan : Program.ofStream p.stream = .ok q)
    (hlines : q.lines = p.lines) (hpos : p.pos ≤ p.image.length) :
    Reads Decoder.program p (Layout.stream p.stream) := by
  have himage : q.image = p.image := by rw [q.linked, p.linked, hlines]
  have hq : q = p := by
    refine Program.eq_of_lines hlines ?_
    rw [pos_of_ofStream hscan, himage]
    exact Nat.min_eq_left hpos
  have hmax : p.image.length < wordBound := Nat.lt_of_le_of_lt p.fits (by decide)
  refine (reads_stream hmax (Nat.lt_of_le_of_lt hpos hmax)).last ?_
  simp only [hscan, hq]

/-! ## Files -/

namespace FileTable

/-- Files as they are opened again from their images, one after the other, and the disk after that. -/
def reopenAll (disk : Disk) : List (UInt8 × OpenFile) → List (UInt8 × OpenFile) × Disk
  | [] => ([], disk)
  | (number, f) :: rest =>
    let (g, disk) := OpenFile.restore disk f.image
    let (files, disk) := reopenAll disk rest
    ((number, g) :: files, disk)

theorem reopenAll_cons (disk : Disk) (number : UInt8) (f : OpenFile)
    (rest : List (UInt8 × OpenFile)) :
    reopenAll disk ((number, f) :: rest) =
      ((number, (OpenFile.restore disk f.image).1) ::
        (reopenAll (OpenFile.restore disk f.image).2 rest).1,
        (reopenAll (OpenFile.restore disk f.image).2 rest).2) := rfl

/-- Files keep their numbers. -/
theorem map_fst_reopenAll (disk : Disk) (files : List (UInt8 × OpenFile)) :
    (reopenAll disk files).1.map Prod.fst = files.map Prod.fst := by
  induction files generalizing disk with
  | nil => rfl
  | cons f rest ih =>
    rw [reopenAll_cons, List.map_cons, ih, List.map_cons]

theorem ascending_iff_map {files : List (UInt8 × OpenFile)} :
    Ascending files ↔ (files.map Prod.fst).Pairwise (· < ·) :=
  List.pairwise_map.symm

/-- A table as it is opened again. -/
def reopened (disk : Disk) (t : FileTable) : FileTable where
  files := (reopenAll disk t.files).1
  ascending := by
    rw [ascending_iff_map, map_fst_reopenAll]
    exact ascending_iff_map.1 t.ascending

theorem eq_of_files {t u : FileTable} (h : t.files = u.files) : t = u := by
  cases t
  cases u
  cases h
  rfl

/-- A file with the highest number comes last. -/
theorem insertFile_of_lt {number : UInt8} (f : OpenFile) {files : List (UInt8 × OpenFile)}
    (h : ∀ e ∈ files, e.1 < number) : insertFile number f files = files ++ [(number, f)] := by
  induction files with
  | nil => rfl
  | cons e rest ih =>
    have he : e.1 < number := h e List.mem_cons_self
    rw [insertFile, if_neg (UInt8.lt_asymm he), if_neg (UInt8.ne_of_lt he).symm,
      ih fun e' h' => h e' (List.mem_cons_of_mem _ h'), List.cons_append]

end FileTable

open FileTable in
/-- Files are read back and opened one after the other, each under its number. -/
theorem restoreFiles_layout {files : List (UInt8 × OpenFile)} (disk : Disk) (t : FileTable)
    (rest : List UInt8) (hfits : ∀ f ∈ files, f.2.image.Fits) (hasc : Ascending (t.files ++ files)) :
    ∃ u, Decoder.restoreFiles disk t files.length
        (files.flatMap (fun f => Layout.byte f.1 ++ Layout.fileImage f.2.image) ++ rest) =
        (some u, (reopenAll disk files).2) ∧ u.files = t.files ++ (reopenAll disk files).1 := by
  induction files generalizing disk t with
  | nil => exact ⟨t, rfl, (List.append_nil _).symm⟩
  | cons f files ih =>
    obtain ⟨number, f⟩ := f
    have hread : Reads (do return (← Decoder.byte, ← Decoder.fileImage)) (number, f.image)
        (Layout.byte number ++ Layout.fileImage f.image) :=
      (reads_byte number).bind ((reads_fileImage (hfits _ List.mem_cons_self)).last rfl)
    have hlast : ∀ e ∈ t.files, e.1 < number := fun e he =>
      (List.pairwise_append.1 hasc).2.2 e he _ List.mem_cons_self
    have hinsert : (t.insert number (OpenFile.restore disk f.image).1).files =
        t.files ++ [(number, (OpenFile.restore disk f.image).1)] := insertFile_of_lt _ hlast
    have hnext : Ascending ((t.insert number (OpenFile.restore disk f.image).1).files ++ files) := by
      rw [hinsert, ascending_iff_map]
      simpa using ascending_iff_map.1 hasc
    obtain ⟨u, hu, hfiles⟩ := ih (OpenFile.restore disk f.image).2 _
      (fun e he => hfits e (List.mem_cons_of_mem _ he)) hnext
    refine ⟨u, ?_, ?_⟩
    · rw [List.length_cons, List.flatMap_cons, List.append_assoc, Decoder.restoreFiles, hread]
      exact hu
    · rw [hfiles, hinsert, reopenAll_cons, List.append_assoc]
      rfl

/-! ## The session -/

namespace Session

/-- The numbers of a session that are written in 64 bits: lengths, positions and offsets. -/
structure Fits (s : Session) : Prop where
  direct : s.direct.bytes.length < wordBound ∧ s.direct.pos < wordBound
  editPrompt : ∀ e ∈ s.editPrompt, e.position < wordBound
  statement : s.statement < wordBound
  stop : ∀ n ∈ s.stop, n < wordBound
  gosub : (Text.utf8 s.gosub.label).length < wordBound ∧ s.gosub.limit < wordBound ∧
    s.gosub.items.length < wordBound ∧ ∀ f ∈ s.gosub.items, f.Fits
  vars : s.vars.size < wordBound ∧
    ∀ e ∈ s.vars.toList, (Text.utf8 e.1).length < wordBound ∧ e.2.Fits
  events : s.events.descriptors.length < wordBound
  trap : (∀ r ∈ s.trap.active, r.statement < wordBound) ∧ ∀ l ∈ s.trap.location, l.Fits
  files : s.files.files.length < wordBound ∧ ∀ f ∈ s.files.files, f.2.image.Fits

/-- A session as it comes back from a snapshot: no event is pending, and its files are opened again. -/
def restored (disk : Disk) (s : Session) : Session :=
  { s with
    events := { s.events with pending := {} }
    files := s.files.reopened disk }

/-- The layout of a session without its files. -/
def layoutBeforeFiles (s : Session) (order : s.vars.Enumeration) : List UInt8 :=
  Layout.stream s.program.stream ++ (Layout.stream s.direct ++ (Layout.bool s.inProgram ++
    (Layout.mode s.mode ++ (Layout.bool s.awaitingInput ++ (Layout.bool s.prompt ++
    (Layout.option Layout.editPrompt s.editPrompt ++ (Layout.nat 4 s.auto.line.toNat ++
    (Layout.word s.auto.increment ++ (Layout.bool s.autoActive ++ (Layout.word s.autoIncrement ++
    (Layout.size s.statement ++ (Layout.option Layout.size s.stop ++ (Layout.bool s.tron ++
    (Layout.gosubStack s.gosub ++ (Layout.variableTable order ++ (Layout.eventTable s.events ++
    Layout.errorTrap s.trap))))))))))))))))

/-- The open files come last in the layout. -/
theorem layout_eq (s : Session) (order : s.vars.Enumeration) :
    Layout.session s order = s.layoutBeforeFiles order ++ Layout.fileTable s.files := by
  delta Layout.session layoutBeforeFiles
  simp only [List.append_assoc]

/-- All but the files is read back. -/
theorem reads_beforeFiles {s : Session} {q : Program} (order : s.vars.Enumeration)
    (hscan : Program.ofStream s.program.stream = .ok q) (hlines : q.lines = s.program.lines)
    (hpos : s.program.pos ≤ s.program.image.length) (h : s.Fits) :
    Reads Decoder.sessionBeforeFiles
      { s with events := { s.events with pending := {} }, files := {} }
      (s.layoutBeforeFiles order) := by
  have hedit := reads_option (o := s.editPrompt) fun p hp => reads_editPrompt (h.editPrompt p hp)
  have hline : UInt32.ofNat s.auto.line.toNat = s.auto.line := UInt32.ofNat_toNat
  have hstop := reads_option (o := s.stop) fun n hn => reads_size (h.stop n hn)
  obtain ⟨hlabel, hlimit, hlength, hframes⟩ := h.gosub
  refine (reads_program hscan hlines hpos).bind ((reads_stream h.direct.1 h.direct.2).bind
    ((reads_bool s.inProgram).bind ((reads_mode s.mode).bind ((reads_bool s.awaitingInput).bind
    ((reads_bool s.prompt).bind (hedit.bind ((reads_nat 4 (UInt32.toNat_lt s.auto.line)).bind
    ((reads_word s.auto.increment).bind ((reads_bool s.autoActive).bind
    ((reads_word s.autoIncrement).bind ((reads_size h.statement).bind (hstop.bind
    ((reads_bool s.tron).bind ((reads_gosubStack hlabel hlimit hlength hframes).bind
    ((reads_variableTable order h.vars.1 h.vars.2).bind ((reads_eventTable h.events).bind
    ((reads_errorTrap h.trap.1 h.trap.2).last ?_)))))))))))))))))
  rw [hline]

/-- A session is read back from its layout, whatever follows it. -/
theorem session_layout {s : Session} {q : Program} (order : s.vars.Enumeration)
    (hscan : Program.ofStream s.program.stream = .ok q) (hlines : q.lines = s.program.lines)
    (hpos : s.program.pos ≤ s.program.image.length) (h : s.Fits) (disk : Disk)
    (rest : List UInt8) :
    Decoder.session disk (Layout.session s order ++ rest) =
      (some (s.restored disk), (FileTable.reopenAll disk s.files.files).2) := by
  have hread : Reads (do return (← Decoder.sessionBeforeFiles, ← Decoder.size))
      ({ s with events := { s.events with pending := {} }, files := {} }, s.files.files.length)
      (s.layoutBeforeFiles order ++ Layout.size s.files.files.length) :=
    (reads_beforeFiles order hscan hlines hpos h).bind ((reads_size h.files.1).last rfl)
  obtain ⟨files, hfiles, hopened⟩ :=
    restoreFiles_layout disk {} rest h.files.2 s.files.ascending
  have heq : files = s.files.reopened disk := FileTable.eq_of_files hopened
  have hsplit : Layout.session s order ++ rest =
      (s.layoutBeforeFiles order ++ Layout.size s.files.files.length) ++
        (s.files.files.flatMap (fun f => Layout.byte f.1 ++ Layout.fileImage f.2.image) ++ rest) := by
    simp only [layout_eq, Layout.fileTable, Layout.list, List.append_assoc]
  rw [hsplit, Decoder.session, hread]
  simp only [hfiles, heq]
  rfl

end Session

end LineBasic

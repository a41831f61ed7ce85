import LineBasic.Proofs.Code.Operation
import LineBasic.Proofs.Machine.Footing
import LineBasic.Proofs.Program.Rescan
import LineBasic.Proofs.Snapshot.RoundTrip

/-!
# Places in a restored session

Reading, looking ahead and skipping all start at the place of a code stream, which must not lie beyond the
end of the code.  Of the two places in a saved session only that in the program is put right when the
session is read; the place on the direct line is taken as it stands in the file.

* `CodeStream.InRange`: the place is in the code, or at its end.
* `CodeStream.usable_iff`: then, and only then, can all that comes be read.
* `Decoder.Recovers`: what a decoder has read is the layout of the value.
* `Snapshot.accepted_usable_iff`: which accepted files give a session with usable places.
-/

namespace LineBasic

/-! ## Usable places -/

namespace CodeStream

/-- The place is in the code, or at its end. -/
def InRange (s : CodeStream) : Prop :=
  s.pos ≤ s.bytes.length

/-- The next `n` bytes, or as many as there are up to the end, form a range: it does not end before it
begins. -/
def CanTake (s : CodeStream) (n : Nat) : Prop :=
  s.pos ≤ min (s.pos + n) s.bytes.length

/-- What becomes of a stream by moves and scans. -/
inductive Moves (s : CodeStream) : CodeStream → Prop where
  | refl : Moves s s
  | seek {t : CodeStream} (h : Moves s t) (pos : Nat) : Moves s (t.seek pos)
  | seekBy {t : CodeStream} (h : Moves s t) (delta : Int) : Moves s (t.seekBy delta)
  | scan {t : CodeStream} (h : Moves s t) (remaining : List UInt8) : Moves s (t.advance remaining)

/-- Bytes can be taken here and wherever the stream moves. -/
def Usable (s : CodeStream) : Prop :=
  ∀ t n, s.Moves t → t.CanTake n

variable {s t : CodeStream}

/-- Moves and scans keep the bytes, and the place in them. -/
theorem Moves.keeps (h : s.Moves t) : s.Keeps t := by
  induction h with
  | refl => exact fun hs => ⟨rfl, hs⟩
  | @seek t _ pos ih => exact ih.trans (t.keeps_seek pos)
  | @seekBy t _ delta ih => exact ih.trans (t.keeps_seekBy delta)
  | @scan t _ remaining ih => exact ih.trans (t.keeps_advance remaining)

theorem InRange.moves (h : s.InRange) (hmoves : s.Moves t) : t.InRange := by
  obtain ⟨hbytes, hpos⟩ := hmoves.keeps h
  rw [InRange, hbytes]
  exact hpos

/-- Bytes can be taken exactly from a place in range. -/
theorem canTake_iff (s : CodeStream) (n : Nat) : s.CanTake n ↔ s.InRange := by
  unfold CanTake InRange
  omega

/-- A place is usable if it is in range, since moves and scans keep it there. -/
theorem usable_iff : s.Usable ↔ s.InRange := by
  constructor
  · intro h
    exact (canTake_iff s 0).1 (h s 0 .refl)
  · intro h t n hmoves
    exact (canTake_iff t n).2 (h.moves hmoves)

/-- The numbers of a stream fit in the width that they are written in. -/
structure Fits (s : CodeStream) : Prop where
  length : s.bytes.length < wordBound
  pos : s.pos < wordBound

end CodeStream

/-! ## What a decoder has read -/

namespace Decoder

variable {α β : Type}

/-- What the decoder has read is the layout of the value, and the value has a property. -/
def Recovers (read : Decoder α) (write : α → List UInt8) (P : α → Prop) : Prop :=
  ∀ code a rest, read.run code = some (a, rest) → code = write a ++ rest ∧ P a

theorem bind_eq_some {read : Decoder α} {f : α → Decoder β} {code rest : List UInt8} {b : β}
    (h : (read >>= f).run code = some (b, rest)) :
    ∃ a rest', read.run code = some (a, rest') ∧ (f a).run rest' = some (b, rest) := by
  rw [StateT.run_bind] at h
  obtain ⟨⟨a, rest'⟩, hread, hf⟩ := Option.bind_eq_some_iff.1 h
  exact ⟨a, rest', hread, hf⟩

theorem recovers_take (n : Nat) : Recovers (take n) id fun taken => taken.length = n := by
  intro code taken rest h
  change (if (code.take n).length < n then none else some (code.take n, code.drop n)) = _ at h
  split at h
  · cases h
  · rename_i hlength
    cases h
    refine ⟨(List.take_append_drop n code).symm, ?_⟩
    have hle := List.length_take_le n code
    omega

theorem recovers_size : Recovers size Layout.size fun n => n < wordBound := by
  intro code n rest h
  obtain ⟨taken, rest', htake, hvalue⟩ := bind_eq_some h
  cases hvalue
  obtain ⟨rfl, hlength⟩ := recovers_take 8 _ _ _ htake
  refine ⟨?_, ?_⟩
  · rw [Layout.size, Layout.nat, ← hlength, Endian.bytes_value]
    rfl
  · have hlt := Endian.value_lt taken
    rw [hlength] at hlt
    exact hlt

theorem recovers_bytes : Recovers bytes Layout.bytes fun l => l.length < wordBound := by
  intro code l rest h
  obtain ⟨n, rest', hsize, htake⟩ := bind_eq_some h
  obtain ⟨rfl, hn⟩ := recovers_size _ _ _ hsize
  obtain ⟨rfl, rfl⟩ := recovers_take n _ _ _ htake
  exact ⟨by rw [Layout.bytes, List.append_assoc]; rfl, hn⟩

theorem recovers_stream : Recovers stream Layout.stream CodeStream.Fits := by
  intro code s rest h
  obtain ⟨l, rest₁, hbytes, hrest⟩ := bind_eq_some h
  obtain ⟨pos, rest₂, hsize, hpure⟩ := bind_eq_some hrest
  cases hpure
  obtain ⟨rfl, hlength⟩ := recovers_bytes _ _ _ hbytes
  obtain ⟨rfl, hpos⟩ := recovers_size _ _ _ hsize
  exact ⟨by rw [Layout.stream, List.append_assoc], hlength, hpos⟩

/-- A program is read from one code stream. -/
theorem stream_of_program {code rest : List UInt8} {p : Program}
    (h : program.run code = some (p, rest)) :
    ∃ saved : CodeStream, saved.Fits ∧ code = Layout.stream saved ++ rest := by
  obtain ⟨saved, rest', hstream, hscan⟩ := bind_eq_some h
  obtain ⟨rfl, hfits⟩ := recovers_stream _ _ _ hstream
  refine ⟨saved, hfits, ?_⟩
  cases hp : Program.ofStream saved with
  | error e =>
    simp only [hp] at hscan
    cases hscan
  | ok q =>
    simp only [hp] at hscan
    cases hscan
    rfl

/-- A session begins with two code streams.  The second is its direct line. -/
theorem streams_of_sessionBeforeFiles {code rest : List UInt8} {s : Session}
    (h : sessionBeforeFiles.run code = some (s, rest)) :
    ∃ (program : CodeStream) (rest' : List UInt8), program.Fits ∧ s.direct.Fits ∧
      code = Layout.stream program ++ (Layout.stream s.direct ++ rest') := by
  obtain ⟨p, rest₁, hprogram, hrest⟩ := bind_eq_some h
  obtain ⟨saved, hsaved, rfl⟩ := stream_of_program hprogram
  obtain ⟨direct, rest₂, hstream, hfields⟩ := bind_eq_some hrest
  obtain ⟨rfl, hfits⟩ := recovers_stream _ _ _ hstream
  -- the fields that follow do not change the direct line
  have hdirect : s.direct = direct := by
    refine (?_ : Yields _ fun s : Session => s.direct = direct) _ _ _ hfields
    repeat refine .skip fun _ => ?_
    exact .pure rfl
  rw [hdirect]
  exact ⟨saved, rest₂, hsaved, hfits, rfl⟩

/-- The same for a session with its files. -/
theorem streams_of_session {disk disk' : Disk} {code : List UInt8} {s : Session}
    (h : session disk code = (some s, disk')) :
    ∃ (program : CodeStream) (rest : List UInt8), program.Fits ∧ s.direct.Fits ∧
      code = Layout.stream program ++ (Layout.stream s.direct ++ rest) := by
  unfold session at h
  cases hrun : (do return (← sessionBeforeFiles, ← size) : Decoder (Session × Nat)).run code with
  | none =>
    rw [hrun] at h
    cases h
  | some found =>
    obtain ⟨⟨s₁, count⟩, rest⟩ := found
    rw [hrun] at h
    obtain ⟨files, -, rfl⟩ := Option.map_eq_some_iff.1 (congrArg Prod.fst h)
    obtain ⟨s₁, rest₁, hbefore, hsize⟩ := bind_eq_some hrun
    obtain ⟨count, rest₂, -, hpure⟩ := bind_eq_some hsize
    cases hpure
    obtain ⟨program, rest', hprogram, hdirect, hcode⟩ := streams_of_sessionBeforeFiles hbefore
    exact ⟨program, rest', hprogram, hdirect, hcode⟩

end Decoder

/-! ## Accepted files -/

namespace Snapshot

/-- A file is restored if it is whole, can be decompressed and holds a session. -/
theorem ofBytes_eq_ok_iff {disk disk' : Disk} {b : List UInt8} {s : Session} :
    ofBytes disk b = (.ok s, disk') ↔ ∃ payload code, unwrap b = .ok payload ∧
      Zlib.decompress? payload = some code ∧ Decoder.session disk code = (some s, disk') := by
  unfold ofBytes
  cases hunwrap : unwrap b with
  | error e => simp
  | ok payload =>
    cases hcode : Zlib.decompress? payload with
    | none => simp [hcode]
    | some code =>
      cases hsession : Decoder.session disk code with
      | mk found disk₁ => cases found <;> simp [hcode, hsession]

theorem payload_of_unwrap {b payload : List UInt8} (h : unwrap b = .ok payload) :
    payload = b.drop 8 := by
  unfold unwrap at h
  split at h
  · cases h
  · split at h <;> cases h
    rfl

/-- The payload of a file begins with the layouts of two code streams: that of the program, and the direct
line. -/
structure Saves (b : List UInt8) (program direct : CodeStream) : Prop where
  program_fits : program.Fits
  direct_fits : direct.Fits
  layout : ∃ rest, Zlib.decompress? (b.drop 8) =
    some (Layout.stream program ++ (Layout.stream direct ++ rest))

/-- A file saves one program with its place, and one direct line. -/
theorem Saves.unique {b : List UInt8} {program direct program' direct' : CodeStream}
    (h : Saves b program direct) (h' : Saves b program' direct') :
    program' = program ∧ direct' = direct := by
  have hreads : ∀ {p d : CodeStream}, p.Fits → d.Fits →
      Reads (do return (← Decoder.stream, ← Decoder.stream)) (p, d)
        (Layout.stream p ++ Layout.stream d) := fun hp hd =>
    (reads_stream hp.length hp.pos).bind ((reads_stream hd.length hd.pos).last rfl)
  obtain ⟨rest, hcode⟩ := h.layout
  obtain ⟨rest', hcode'⟩ := h'.layout
  have hread := hreads h.program_fits h.direct_fits rest
  have hread' := hreads h'.program_fits h'.direct_fits rest'
  rw [List.append_assoc] at hread hread'
  rw [hcode, Option.some.injEq] at hcode'
  rw [← hcode', hread, Option.some.injEq] at hread'
  exact ⟨congrArg (fun found => found.1.1) hread'.symm, congrArg (fun found => found.1.2) hread'.symm⟩

/-- In the session of an accepted file the place in the program is usable.  The place on the direct line
is so exactly if the one in the file does not lie beyond the end of the line. -/
theorem accepted_usable_iff {disk disk' : Disk} {b : List UInt8} {s : Session}
    (h : ofBytes disk b = (.ok s, disk')) :
    ∃ program direct, Saves b program direct ∧ s.program.stream.Usable ∧
      (s.direct.Usable ↔ direct.pos ≤ direct.bytes.length) := by
  obtain ⟨payload, code, hunwrap, hcode, hsession⟩ := ofBytes_eq_ok_iff.1 h
  obtain ⟨program, rest, hprogram, hdirect, rfl⟩ := Decoder.streams_of_session hsession
  rw [payload_of_unwrap hunwrap] at hcode
  refine ⟨program, s.direct, ⟨hprogram, hdirect, rest, hcode⟩, ?_, CodeStream.usable_iff⟩
  exact CodeStream.usable_iff.2 (Machine.inRange_of_decoded hsession)

/-- A session that stands somewhere on the direct line `CONT`. -/
def standing (pos : Nat) : Session where
  direct := { bytes := [0x99, 0], pos }

theorem standing_fits {pos : Nat} (h : pos < wordBound) : (standing pos).Fits where
  direct := ⟨by simp [standing, wordBound], h⟩
  editPrompt := by simp [standing]
  statement := by simp [standing, wordBound]
  stop := by simp [standing]
  gosub := by simp [standing, wordBound]; decide
  vars := by simp [standing, Variables.size, Variables.empty, Variables.toList, wordBound]
  events := by simp [standing]; decide
  trap := by simp [standing]
  files := by simp [standing, wordBound]

/-- The file of a session saves its program and its direct line. -/
theorem saves_toBytes (s : Session) (order : s.vars.Enumeration) (hprogram : s.program.InRange)
    (hdirect : s.direct.Fits) : Saves (toBytes s order) s.program.stream s.direct := by
  have hmax : s.program.image.length < wordBound := Nat.lt_of_le_of_lt s.program.fits (by decide)
  have hlayout : Zlib.decompress? ((toBytes s order).drop 8) = some (Layout.session s order) :=
    Zlib.decompress?_compress _
  rw [Session.layout_eq, Session.layoutBeforeFiles, List.append_assoc, List.append_assoc] at hlayout
  exact ⟨⟨hmax, Nat.lt_of_le_of_lt hprogram hmax⟩, hdirect, _, hlayout⟩

/-- Its file is accepted, wherever it stands. -/
theorem ofBytes_standing {pos : Nat} (h : pos < wordBound) :
    ofBytes {} (toBytes (standing pos)) = (.ok ((standing pos).restored {}), {}) := by
  have hscan : Program.ofStream Program.empty.stream = .ok .empty := by
    rw [Program.ofStream]
    exact Program.scanLines?_render_nil 0 ▸ rfl
  have hlayout := Session.session_layout (.byName _) hscan rfl (Nat.zero_le _) (standing_fits h) {} []
  rw [List.append_nil] at hlayout
  exact ofBytes_eq_ok_iff.2 ⟨_, _, unwrap_wrap _, Zlib.decompress?_compress _, hlayout⟩

/-- A place on the line stays usable. -/
theorem standing_usable :
    ∃ s disk', ofBytes {} (toBytes (standing 1)) = (.ok s, disk') ∧ s.program.stream.Usable ∧
      s.direct.Usable := by
  have haccepted := @ofBytes_standing 1 (by decide)
  obtain ⟨program, direct, hsaves, hprogram, hdirect⟩ := accepted_usable_iff haccepted
  have hsaved : Saves (toBytes (standing 1)) Program.empty.stream (standing 1).direct :=
    saves_toBytes _ _ (Nat.zero_le _) ⟨by decide, by decide⟩
  obtain ⟨-, rfl⟩ := hsaved.unique hsaves
  exact ⟨_, _, haccepted, hprogram, hdirect.2 (by decide)⟩

/-- A place beyond the end of the line is accepted and not usable. -/
theorem standing_not_usable :
    ∃ s disk', ofBytes {} (toBytes (standing 5)) = (.ok s, disk') ∧ ¬ s.direct.Usable := by
  refine ⟨_, _, ofBytes_standing (by decide), ?_⟩
  rw [CodeStream.usable_iff]
  show ¬ 5 ≤ 2
  decide

end Snapshot

end LineBasic

import Mathlib
import LineBasic.Proofs.Snapshot.Session
import LineBasic.Proofs.Snapshot.Zlib
import LineBasic.Snapshot.Artifact

/-!
# Snapshots come back

A session that is saved and restored is the same session, except that no event is pending and that its
files are opened again from what the snapshot keeps of them.
-/

namespace LineBasic.Snapshot

/-! ## Files -/

theorem wrap_take (payload : List UInt8) : (wrap payload).take 4 = magic := rfl

theorem wrap_sum (payload : List UInt8) :
    ((wrap payload).drop 4).take 4 = Endian.bytes 4 (Checksum.crc32 payload).toNat := rfl

theorem wrap_drop (payload : List UInt8) : (wrap payload).drop 8 = payload := rfl

/-- The checksum in a file is that of its payload. -/
theorem value_sum (payload : List UInt8) :
    Endian.value (((wrap payload).drop 4).take 4) = (Checksum.crc32 payload).toNat := by
  rw [wrap_sum, Endian.value_bytes]
  exact Nat.mod_eq_of_lt (UInt32.toNat_lt _)

theorem length_wrap (payload : List UInt8) : 8 ≤ (wrap payload).length :=
  Nat.le_add_left 8 payload.length

/-- The payload of a file is found behind its magic number and its checksum. -/
theorem unwrap_wrap (payload : List UInt8) : unwrap (wrap payload) = .ok payload := by
  have hlong : ¬ (wrap payload).length < 8 := Nat.not_lt.2 (length_wrap payload)
  simp [unwrap, hlong, wrap_take, value_sum, wrap_drop]

/-! ## Sessions -/

/-- A session whose program is found again in its image comes back from a snapshot, in whatever order its
variables were written and whichever way its layout is compressed. -/
theorem ofBytes_restores {s : Session}
    (hscan : ∃ q, Program.ofStream s.program.stream = .ok q ∧ q.lines = s.program.lines ∧
      q.image = s.program.image)
    (hpos : s.program.pos ≤ s.program.image.length) (hfits : s.Fits) (order : s.vars.Enumeration)
    (disk : Disk) :
    ofBytes disk (toBytes s order) =
        (.ok (s.restored disk), (FileTable.reopenAll disk s.files.files).2) ∧
      ∀ payload, Zlib.decompress? payload = some (Layout.session s order) →
        ofBytes disk (wrap payload) =
          (.ok (s.restored disk), (FileTable.reopenAll disk s.files.files).2) := by
  obtain ⟨q, hq, hlines, -⟩ := hscan
  have hlayout := Session.session_layout order hq hlines hpos hfits disk []
  rw [List.append_nil] at hlayout
  have hpayload : ∀ payload, Zlib.decompress? payload = some (Layout.session s order) →
      ofBytes disk (wrap payload) =
        (.ok (s.restored disk), (FileTable.reopenAll disk s.files.files).2) := by
    intro payload h
    rw [ofBytes, unwrap_wrap]
    simp only [h, hlayout]
  exact ⟨hpayload _ (Zlib.decompress?_compress _), hpayload⟩

/-- A program with a zero byte in an operand, stopped in the middle of its line. -/
def stoppedProgram : Program where
  lines := [⟨10, [0x8D, 0x20, 0x0E, 0, 1]⟩]
  pos := 10
  image := [0, 11, 0, 10, 0, 0x8D, 0x20, 0x0E, 0, 1, 0, 0, 0]
  ascending := List.pairwise_singleton _ _
  linked := by decide
  fits := by decide

/-- Three variables, not by name. -/
def stoppedEntries : List (String × Value) :=
  [("B%", .integer (-7)), ("A$", .string "ď"), ("a", .single ⟨0x3F800000⟩)]

/-- A session with a subroutine, three variables, a pending event, an error and an open file. -/
def stoppedSession : Session where
  program := stoppedProgram
  direct := { bytes := [0x99, 0], pos := 1 }
  inProgram := true
  mode := .executing
  stop := some 10
  gosub := { label := "GOSUB", limit := 256, items := [⟨5, true, some (.key 3)⟩] }
  vars := .ofList stoppedEntries
  events := { EventTable.initial with pending := ⟨[.timer]⟩, timerPeriod := some 1000 }
  trap := { err := 8, location := some (.program 7) }
  files := { files := [(3, ⟨"LOG", .append, .file 0 12⟩)], ascending := List.pairwise_singleton _ _ }

/-- Its variables in the order in which they are listed. -/
def stoppedOrder : stoppedSession.vars.Enumeration :=
  .ofEntries stoppedEntries (by decide)

theorem stoppedEntries_fit : ∀ e ∈ stoppedEntries, (Text.utf8 e.1).length < wordBound ∧ e.2.Fits := by
  intro e he
  simp only [stoppedEntries, List.mem_cons, List.not_mem_nil, or_false] at he
  obtain rfl | rfl | rfl := he
  · exact ⟨by decide, trivial⟩
  · exact ⟨by decide, show (Text.utf8 "ď").length < wordBound by decide⟩
  · exact ⟨by decide, trivial⟩

theorem stoppedSession_fits : stoppedSession.Fits where
  direct := by decide
  editPrompt := by simp [stoppedSession]
  statement := by decide
  stop := by
    intro n hn
    cases hn
    decide
  gosub := by
    refine ⟨by decide, by decide, by decide, fun f hf => ?_⟩
    rw [List.mem_singleton.1 hf]
    show 5 < wordBound
    decide
  vars := by
    have hsize : stoppedSession.vars.size = 3 := stoppedOrder.length_entries.symm
    refine ⟨by rw [hsize]; decide, fun e he => ?_⟩
    exact stoppedEntries_fit e (stoppedOrder.perm.mem_iff.2 he)
  events := by decide
  trap := by
    refine ⟨by simp [stoppedSession], fun l hl => ?_⟩
    cases hl
    show 7 < wordBound
    decide
  files := by
    refine ⟨by decide, fun f hf => ?_⟩
    rw [List.mem_singleton.1 hf]
    refine ⟨by decide, fun n hn => ?_⟩
    cases hn
    decide

/-- The session comes back on an empty disk, with its file created anew. -/
theorem ofBytes_restores_stopped :
    ofBytes {} (toBytes stoppedSession stoppedOrder) =
      (.ok (stoppedSession.restored {}), (FileTable.reopenAll {} stoppedSession.files.files).2) := by
  refine (ofBytes_restores ?_ (by decide) stoppedSession_fits stoppedOrder {}).1
  have hscan : Program.scanLines? [0, 11, 0, 10, 0, 0x8D, 0x20, 0x0E, 0, 1, 0, 0, 0] =
      some [⟨10, [0x8D, 0x20, 0x0E, 0, 1]⟩] := by cbv
  refine ⟨stoppedProgram, ?_, rfl, rfl⟩
  rw [Program.ofStream]
  exact hscan ▸ rfl

end LineBasic.Snapshot

import LineBasic.Proofs.Code.Scanner

/-!
# Operations of code streams

However a code stream is moved and read, its bytes stay as they are and its place stays in them or right
after them.  What only looks ahead, or finds nothing, leaves the place where it was.

* `CodeStream.Operation`, `CodeStream.Operated`: the operations, and what comes of any number of them.
* `CodeStream.past`: the place behind the bytes of a kind.
* `CodeStream.Orderly`: where the single operations leave a stream.
* `CodeStream.operations_keep_place`: what holds after any operations.
-/

namespace LineBasic.CodeStream

open Token Effect

/-! ## Operations -/

/-- Up to `n` of the bytes that come next, left in place. -/
def peek (n : Nat) : EStateM BasicError CodeStream (List UInt8) := do
  return (← get).rest.take n

/-- Passes the bytes of a set, then looks at up to `n` bytes: they are read, and the stream goes back by
as many. -/
def skip (set : List UInt8) (n : Nat) : EStateM BasicError CodeStream (List UInt8) := do
  let found ← scan (do Scan.skipWhile set.contains; Scan.take n)
  modify fun s => s.seekBy (-found.length)
  peek n

/-- The marker of a line, word by word: if it is not one, the stream goes back by what has been read. -/
def readMarker : EStateM BasicError CodeStream (Option UInt16) := do
  let link ← scan (Scan.take 2)
  if link.length < 2 ∨ link = [0, 0] then
    modify fun s => s.seekBy (-link.length)
    return none
  match ← scan (Scan.take 2) with
  | [lo, hi] => return some (Endian.ofPair lo hi)
  | number =>
    modify fun s => s.seekBy (-number.length - 2)
    return none

/-- What can be done with a code stream, by the type of the answer. -/
inductive Operation : Type → Type where
  | seek (pos : Nat) : Operation Unit
  | seekBy (delta : Int) : Operation Unit
  | read (n : Nat) : Operation (List UInt8)
  | peek (n : Nat) : Operation (List UInt8)
  | readByte : Operation (Option UInt8)
  | peekByte : Operation (Option UInt8)
  | skip (set : List UInt8) (n : Nat) : Operation (List UInt8)
  | skipRead (set : List UInt8) (n : Nat) : Operation (List UInt8)
  | skipBlanks : Operation (Option UInt8)
  | skipBlanksRead : Operation (Option UInt8)
  | readIf (tokens : List (List UInt8)) : Operation Bool
  | skipBlanksReadIf (tokens : List (List UInt8)) : Operation Bool
  | skipTo (set : List UInt8) (stop : Bool) : Operation Unit
  | skipToRead (set : List UInt8) : Operation (Option UInt8)
  | require (set : List UInt8) (code : ErrorCode) : Operation Unit
  | requireRead (tokens : List (List UInt8)) (code : ErrorCode) : Operation Unit
  | lineMarker : Operation (Option UInt16)
  | jumpTarget (optional : Bool) : Operation (Option UInt16)
  | name (optional : Bool) : Operation String

/-- What a code stream does for the operation. -/
def Operation.perform : {α : Type} → Operation α → EStateM BasicError CodeStream α
  | _, seek pos => modify fun s => s.seek pos
  | _, seekBy delta => modify fun s => s.seekBy delta
  | _, read n => scan (Scan.take n)
  | _, peek n => CodeStream.peek n
  | _, readByte => scan Scan.byte?
  | _, peekByte => scan Scan.peek?
  | _, skip set n => CodeStream.skip set n
  | _, skipRead set n => scan (do Scan.skipWhile set.contains; Scan.take n)
  | _, skipBlanks => scan Scan.next?
  | _, skipBlanksRead => scan Scan.readNext?
  | _, readIf tokens => scan (Scan.acceptAny tokens)
  | _, skipBlanksReadIf tokens => scan (do Scan.skipWhile isBlank; Scan.acceptAny tokens)
  | _, skipTo set stop => scan (Scan.forwardTo set stop)
  | _, skipToRead set => scan (do Scan.forwardTo set true; Scan.byte?)
  | _, require set code => scan (Scan.require set code)
  | _, requireRead tokens code => scan (Scan.expectAny tokens code)
  | _, lineMarker => scan Scan.lineMarker?
  | _, jumpTarget optional => if optional then scan Scan.jumpTarget? else scan (some <$> Scan.jumpTarget)
  | _, name optional => if optional then scan Scan.name? else scan Scan.name

/-- What comes of a stream by any number of operations, of which some may fail. -/
inductive Operated (s : CodeStream) : CodeStream → Prop where
  | start : Operated s s
  | step {α : Type} {t : CodeStream} (h : Operated s t) (op : Operation α) :
      Operated s (left (op.perform t))

/-! ## Bounds -/

/-- If the place was in the bytes or right after them, it still is, and they are the same. -/
def Keeps (s t : CodeStream) : Prop :=
  s.pos ≤ s.bytes.length → t.bytes = s.bytes ∧ t.pos ≤ s.bytes.length

/-- Operation after operation. -/
theorem Keeps.trans {s t u : CodeStream} (h : s.Keeps t) (h' : t.Keeps u) : s.Keeps u := by
  intro hs
  obtain ⟨hbytes, hpos⟩ := h hs
  obtain ⟨hbytes', hpos'⟩ := h' (by rwa [hbytes])
  exact ⟨hbytes'.trans hbytes, by rwa [← hbytes]⟩

theorem keeps_seek (s : CodeStream) (pos : Nat) : s.Keeps (s.seek pos) :=
  fun _ => ⟨rfl, Nat.min_le_right _ _⟩

theorem keeps_seekBy (s : CodeStream) (delta : Int) : s.Keeps (s.seekBy delta) := by
  unfold seekBy
  split
  · intro hs
    exact ⟨rfl, Nat.le_trans (Nat.sub_le _ _) hs⟩
  · exact s.keeps_seek _

/-- Going on to what remains keeps the bytes, and the place in them. -/
theorem keeps_advance (s : CodeStream) (remaining : List UInt8) : s.Keeps (s.advance remaining) := by
  intro hs
  have hrest : s.rest.length = s.bytes.length - s.pos := List.length_drop
  refine ⟨rfl, ?_⟩
  show s.pos + (s.rest.length - remaining.length) ≤ s.bytes.length
  omega

theorem left_scan {α : Type} (p : Scanner α) (s : CodeStream) :
    left (scan p s) = s.advance (left (p s.rest)) := by
  unfold scan
  cases p s.rest <;> rfl

/-- So does a scan, whatever it scans for. -/
theorem keeps_scan {α : Type} (p : Scanner α) : Always Keeps (scan p) := by
  intro s
  rw [left_scan]
  exact s.keeps_advance _

theorem keeps_skip (set : List UInt8) (n : Nat) : Always Keeps (skip set n) := by
  refine (keeps_scan _).bind (Q := Keeps) (fun found s => ?_) (fun _ _ h => h) fun _ _ _ => .trans
  exact s.keeps_seekBy _

/-- One operation keeps the bytes, and the place in them. -/
theorem Operation.keeps_perform {α : Type} (op : Operation α) : Always Keeps op.perform := by
  cases op with
  | seek pos => exact fun s => s.keeps_seek pos
  | seekBy delta => exact fun s => s.keeps_seekBy delta
  | peek n => exact fun s hs => ⟨rfl, hs⟩
  | skip set n => exact keeps_skip set n
  | jumpTarget optional => exact .ite (keeps_scan _) (keeps_scan _)
  | name optional => exact .ite (keeps_scan _) (keeps_scan _)
  | read | readByte | peekByte | skipRead | skipBlanks | skipBlanksRead | readIf | skipBlanksReadIf
  | skipTo | skipToRead | require | requireRead | lineMarker =>
    unfold perform
    exact keeps_scan _

/-- Any number of operations keep the bytes, and the place in them. -/
theorem Operated.keeps {s t : CodeStream} (h : Operated s t) : s.Keeps t := by
  induction h with
  | start => exact fun hs => ⟨rfl, hs⟩
  | step _ op ih => exact ih.trans (op.keeps_perform _)

/-! ## Places -/

/-- The stream behind the bytes of a kind that come next. -/
def past (s : CodeStream) (p : UInt8 → Bool) : CodeStream :=
  { s with pos := s.pos + (s.rest.takeWhile p).length }

theorem rest_past (s : CodeStream) (p : UInt8 → Bool) : (s.past p).rest = s.rest.dropWhile p := by
  have hsplit : (s.rest.takeWhile p ++ s.rest.dropWhile p).drop (s.rest.takeWhile p).length =
      s.rest.dropWhile p := List.drop_left
  rw [List.takeWhile_append_dropWhile] at hsplit
  rw [← hsplit, rest, rest, List.drop_drop]
  rfl

theorem advance_rest (s : CodeStream) : s.advance s.rest = s := by
  unfold advance
  rw [Nat.sub_self, Nat.add_zero]

theorem length_takeWhile_add (p : UInt8 → Bool) (l : List UInt8) :
    (l.takeWhile p).length + (l.dropWhile p).length = l.length := by
  rw [← List.length_append, List.takeWhile_append_dropWhile]

/-- Going on to what is left of the code after a run of bytes is passing them. -/
theorem advance_dropWhile (s : CodeStream) (p : UInt8 → Bool) :
    s.advance (s.rest.dropWhile p) = s.past p := by
  have hlength := length_takeWhile_add p s.rest
  unfold advance past
  congr 1
  omega

/-- After some of the bytes that come next. -/
theorem advance_drop (s : CodeStream) (n : Nat) :
    s.advance (s.rest.drop n) = { s with pos := s.pos + (s.rest.take n).length } := by
  unfold advance
  rw [List.length_drop, List.length_take]
  congr 1
  omega

/-- A stream that has gone forward goes back by as many bytes. -/
theorem seekBy_neg {s : CodeStream} (hs : s.pos ≤ s.bytes.length) (k : Nat) :
    seekBy { s with pos := s.pos + k } (-k) = s := by
  unfold seekBy
  split
  · rw [Int.natAbs_neg, Int.natAbs_natCast]
    simp only [Nat.add_sub_cancel]
  · have hk : k = 0 := by omega
    subst hk
    simp [seek, Nat.min_eq_left hs]

/-! ## Single operations -/

/-- Where single operations leave a stream. -/
structure Orderly (s : CodeStream) : Prop where
  read : ∀ n, (Operation.read n).perform s =
    .ok (s.rest.take n) { s with pos := min (s.pos + n) s.bytes.length }
  /-- What looks ahead stays where it is. -/
  peek : ∀ n, (Operation.peek n).perform s = .ok (s.rest.take n) s
  peekByte : Operation.peekByte.perform s = .ok s.rest.head? s
  /-- What skips and looks ahead stays where the skip has led. -/
  skip : ∀ set n, (Operation.skip set n).perform s =
    .ok ((s.past set.contains).rest.take n) (s.past set.contains)
  skipBlanks : Operation.skipBlanks.perform s = .ok (s.past isBlank).rest.head? (s.past isBlank)
  require : ∀ set code, left ((Operation.require set code).perform s) = s.past isBlank
  /-- A token is passed if it comes next; else the stream stays where it is. -/
  readIf : ∀ tokens,
    (∃ token ∈ tokens, token <+: s.rest ∧
      (Operation.readIf tokens).perform s = .ok true { s with pos := s.pos + token.length }) ∨
    (∀ token ∈ tokens, token.length = (tokens.headD []).length → ¬ token <+: s.rest) ∧
      (Operation.readIf tokens).perform s = .ok false s
  /-- A line marker is passed whole, or not at all. -/
  lineMarker :
    (∃ a b lo hi, [a, b, lo, hi] <+: s.rest ∧ ¬ (a = 0 ∧ b = 0) ∧
      Operation.lineMarker.perform s =
        .ok (some (Endian.ofPair lo hi)) { s with pos := s.pos + 4 }) ∨
    (s.rest.length < 4 ∨ [0, 0] <+: s.rest) ∧ Operation.lineMarker.perform s = .ok none s ∧
      (do let _ ← Operation.lineMarker.perform; Operation.lineMarker.perform) s = .ok none s
  /-- Going back by what has been read leads to the same place. -/
  readMarker : Operation.lineMarker.perform s = readMarker s

theorem scan_take (s : CodeStream) (n : Nat) :
    scan (Scan.take n) s = .ok (s.rest.take n) { s with pos := s.pos + (s.rest.take n).length } :=
  congrArg (EStateM.Result.ok _) (s.advance_drop n)

/-- Reading bytes after a skip and going back by as many leaves the place where the skip has led. -/
theorem skip_apply {s : CodeStream} (hs : s.pos ≤ s.bytes.length) (set : List UInt8) (n : Nat) :
    skip set n s = .ok ((s.past set.contains).rest.take n) (s.past set.contains) := by
  have hpast : (s.past set.contains).pos ≤ (s.past set.contains).bytes.length := by
    rw [← advance_dropWhile]
    exact (s.keeps_advance _ hs).2
  have hadvance : s.advance ((s.rest.dropWhile set.contains).drop n) =
      { s.past set.contains with
        pos := (s.past set.contains).pos + ((s.past set.contains).rest.take n).length } := by
    have hlength := length_takeWhile_add set.contains s.rest
    rw [rest_past, advance, past, List.length_drop, List.length_take]
    congr 1
    dsimp only
    omega
  have hscan : scan (do Scan.skipWhile set.contains; Scan.take n) s =
      .ok ((s.rest.dropWhile set.contains).take n)
        (s.advance ((s.rest.dropWhile set.contains).drop n)) := rfl
  rw [hadvance, ← rest_past] at hscan
  simp only [skip, bind_apply, hscan, modify_apply, seekBy_neg hpast]
  rfl

/-- A token of the list comes next and is passed, or none with the length of the first does and the place
stays. -/
theorem readIf_cases (s : CodeStream) (tokens : List (List UInt8)) :
    (∃ token ∈ tokens, token <+: s.rest ∧
      scan (Scan.acceptAny tokens) s = .ok true { s with pos := s.pos + token.length }) ∨
    (∀ token ∈ tokens, token.length = (tokens.headD []).length → ¬ token <+: s.rest) ∧
      scan (Scan.acceptAny tokens) s = .ok false s := by
  cases tokens with
  | nil => exact .inr ⟨by simp, congrArg (EStateM.Result.ok _) s.advance_rest⟩
  | cons first others =>
    have happly : Scan.acceptAny (first :: others) s.rest =
        if (s.rest.take first.length).length = first.length ∧
            s.rest.take first.length ∈ first :: others then
          .ok true (s.rest.drop first.length)
        else .ok false s.rest := by
      simp only [Scan.acceptAny, bind_apply, get_apply, Effect.ite_apply]
      rfl
    by_cases hfound : (s.rest.take first.length).length = first.length ∧
        s.rest.take first.length ∈ first :: others
    · refine .inl ⟨_, hfound.2, List.take_prefix _ _, ?_⟩
      simp only [scan, happly, if_pos hfound, advance_drop]
    · refine .inr ⟨fun token htoken hlength hstart => hfound ?_, ?_⟩
      · have htake : token = s.rest.take first.length := by
          rw [← show token.length = first.length from hlength]
          exact List.prefix_iff_eq_take.1 hstart
        rw [← htake]
        exact ⟨hlength, htoken⟩
      · simp only [scan, happly, if_neg hfound, advance_rest]

/-- What comes next is a line marker or not. -/
theorem lineMarker_cases (code : List UInt8) :
    (∃ a b lo hi after, code = a :: b :: lo :: hi :: after ∧ ¬ (a = 0 ∧ b = 0) ∧
      Scan.lineMarker code = (some (Endian.ofPair lo hi), after)) ∨
    (code.length < 4 ∨ [0, 0] <+: code) ∧ Scan.lineMarker code = (none, code) := by
  unfold Scan.lineMarker
  split
  · rename_i a b lo hi after
    by_cases hzero : a = 0 ∧ b = 0
    · rw [if_pos hzero, hzero.1, hzero.2]
      exact .inr ⟨.inr ⟨lo :: hi :: after, rfl⟩, rfl⟩
    · rw [if_neg hzero]
      exact .inl ⟨a, b, lo, hi, after, rfl, hzero, rfl⟩
  · rename_i hshort
    refine .inr ⟨.inl ?_, rfl⟩
    rcases code with _ | ⟨a, _ | ⟨b, _ | ⟨lo, _ | ⟨hi, after⟩⟩⟩⟩
    · decide
    · simp
    · simp
    · simp
    · exact absurd rfl (hshort a b lo hi after)

/-- A line marker comes next and is passed, or the place stays. -/
theorem marker_cases (s : CodeStream) :
    (∃ a b lo hi, [a, b, lo, hi] <+: s.rest ∧ ¬ (a = 0 ∧ b = 0) ∧
      scan Scan.lineMarker? s = .ok (some (Endian.ofPair lo hi)) { s with pos := s.pos + 4 }) ∨
    (s.rest.length < 4 ∨ [0, 0] <+: s.rest) ∧ scan Scan.lineMarker? s = .ok none s := by
  have hscan : scan Scan.lineMarker? s =
      .ok (Scan.lineMarker s.rest).1 (s.advance (Scan.lineMarker s.rest).2) := rfl
  rw [hscan]
  obtain ⟨a, b, lo, hi, after, hrest, hlink, hmarker⟩ | ⟨hnone, hmarker⟩ := lineMarker_cases s.rest
  · refine .inl ⟨a, b, lo, hi, ⟨after, hrest.symm⟩, hlink, ?_⟩
    have hafter : after = s.rest.drop 4 := by rw [hrest]; rfl
    rw [hmarker, hafter, advance_drop, hrest]
    rfl
  · refine .inr ⟨hnone, ?_⟩
    rw [hmarker, advance_rest]

/-- If what comes next is not a line marker, going back by what has been read leads to where it began. -/
theorem readMarker_apply {s : CodeStream} (hs : s.pos ≤ s.bytes.length) :
    scan Scan.lineMarker? s = readMarker s := by
  have hnext : rest { s with pos := s.pos + 2 } = s.rest.drop 2 := by
    rw [rest, rest, List.drop_drop]
  obtain ⟨a, b, lo, hi, ⟨after, hrest⟩, hlink, hscan⟩ | ⟨hnone, hscan⟩ := s.marker_cases
  · have hfirst : scan (Scan.take 2) s = .ok [a, b] { s with pos := s.pos + 2 } := by
      rw [scan_take, ← hrest]
      rfl
    have hsecond : scan (Scan.take 2) { s with pos := s.pos + 2 } =
        .ok [lo, hi] { s with pos := s.pos + 4 } := by
      rw [scan_take, hnext, ← hrest]
      rfl
    have hread : ¬ ([a, b].length < 2 ∨ [a, b] = [0, 0]) := by simpa using hlink
    simp only [hscan, readMarker, bind_apply, hfirst, Effect.ite_apply, if_neg hread, hsecond]
    rfl
  · by_cases hread : (s.rest.take 2).length < 2 ∨ s.rest.take 2 = [0, 0]
    · simp only [hscan, readMarker, bind_apply, scan_take, Effect.ite_apply, if_pos hread, modify_apply,
        seekBy_neg hs]
      rfl
    · -- the link has been read, but not the whole number
      have hlink : (s.rest.take 2).length = 2 := by
        rw [not_or, List.length_take] at hread
        rw [List.length_take]
        omega
      have hfirst : scan (Scan.take 2) s = .ok (s.rest.take 2) { s with pos := s.pos + 2 } := by
        rw [scan_take, hlink]
      have hsecond := scan_take { s with pos := s.pos + 2 } 2
      have hshort : ((s.rest.drop 2).take 2).length < 2 := by
        obtain hlength | hzero := hnone
        · rw [List.length_take, List.length_drop]
          omega
        · exact absurd (.inr (List.prefix_iff_eq_take.1 hzero).symm) hread
      rw [hnext] at hsecond
      generalize (s.rest.drop 2).take 2 = number at hsecond hshort
      simp only [hscan, readMarker, bind_apply, hfirst, Effect.ite_apply, if_neg hread, hsecond]
      have hback : seekBy { s with pos := s.pos + 2 + number.length } (-number.length - 2) = s := by
        have h := seekBy_neg hs (2 + number.length)
        rwa [show -((2 + number.length : Nat) : Int) = -number.length - 2 by omega, ← Nat.add_assoc] at h
      split
      · simp at hshort
      · simp only [modify_apply, bind_apply, hback]
        rfl

/-- In range, all operations are orderly. -/
theorem orderly {s : CodeStream} (hs : s.pos ≤ s.bytes.length) : s.Orderly where
  read n := by
    have hrest : s.rest.length = s.bytes.length - s.pos := List.length_drop
    have hpos : s.pos + (s.rest.take n).length = min (s.pos + n) s.bytes.length := by
      rw [List.length_take]
      omega
    rw [← hpos]
    exact s.scan_take n
  peek n := rfl
  peekByte := congrArg (EStateM.Result.ok _) s.advance_rest
  skip := skip_apply hs
  skipBlanks := by
    rw [rest_past, ← s.advance_dropWhile isBlank]
    rfl
  require set code := by
    have hrequire : left (Scan.require set code s.rest) = s.rest.dropWhile isBlank := by
      simp only [Scan.require, bind_apply, Scan.next?_apply, Effect.ite_apply]
      split <;> rfl
    unfold Operation.perform
    rw [left_scan, hrequire, advance_dropWhile]
  readIf := s.readIf_cases
  lineMarker := by
    refine s.marker_cases.imp id fun ⟨hnone, hscan⟩ => ?_
    have hmarker : Operation.lineMarker.perform s = .ok none s := hscan
    refine ⟨hnone, hmarker, ?_⟩
    rw [bind_apply, hmarker]
    exact hmarker
  readMarker := readMarker_apply hs

/-- After any operations from a place in a stream or at its end: the bytes are the same, the place is in
them or at their end, and the next operation leaves it where it should. -/
theorem operations_keep_place {s t : CodeStream} (hs : s.pos ≤ s.bytes.length) (h : Operated s t) :
    t.bytes = s.bytes ∧ t.pos ≤ s.bytes.length ∧ t.Orderly := by
  obtain ⟨hbytes, hpos⟩ := h.keeps hs
  exact ⟨hbytes, hpos, orderly (by rwa [hbytes])⟩

/-- Two blanks and a line marker that is cut short, all of it passed. -/
def cutMarker : CodeStream where
  bytes := [space, space, 0x15, 0, 10]
  pos := 5

/-- Back beyond the start, forward over the blanks, and a look at the marker. -/
theorem operations_keep_cutMarker :
    cutMarker.pos ≤ cutMarker.bytes.length ∧ Operated cutMarker { cutMarker with pos := 2 } ∧
      (2 ≤ cutMarker.bytes.length ∧ Orderly { cutMarker with pos := 2 }) := by
  have hoperated : Operated cutMarker { cutMarker with pos := 2 } :=
    ((Operated.start.step (.seekBy (-9))).step (.skip [space] 4)).step .lineMarker
  exact ⟨by decide, hoperated, (operations_keep_place (by decide) hoperated).2⟩

end LineBasic.CodeStream

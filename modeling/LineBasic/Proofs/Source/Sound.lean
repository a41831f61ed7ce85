import LineBasic.Proofs.Source.Lexeme

/-!
# What lexemes may follow each other

The lexemes of a text are not just any lexemes: a name is not followed by more of it, and what is left
open reaches to the end of the line.  This is what lets their code be read one lexeme at a time.

* `Sound`: the lexemes of a statement, before a colon or before the end of the line.
* `soundLine_split`: the lexemes of a text are sound.
-/

namespace LineBasic.Source

open Token

/-- A letter, then letters, digits and points, all in upper case. -/
def IsStem : List UInt8 → Prop
  | [] => False
  | c :: rest => isLetter c = true ∧ ∀ b ∈ c :: rest, isNameByte b = true ∧ upper b = b

/-- A name with its type mark. -/
def IsMarked (t : List UInt8) : Prop :=
  ∃ stem mark, t = stem ++ [mark] ∧ IsStem stem ∧ isSigil mark = true

/-- A character that is a lexeme of its own, and no operator. -/
def isSymbol (b : UInt8) : Bool :=
  isPrintable b && !isLetter b && !isDigit b && !([space, quote, colon].contains b)

namespace Lexeme

/-- What a lexeme is made of. -/
def Valid : Lexeme → Prop
  | remark t => ∀ b ∈ t, isPrintable b = true
  | name t => IsStem t ∨ IsMarked t
  | text inside _ => ∀ b ∈ inside, isPrintable b = true ∧ b ≠ quote
  | symbol b => isSymbol b = true
  | _ => True

/-- Whether a lexeme would go on a name without type mark. -/
def extendsName : Lexeme → Bool
  | name _ => true
  | symbol b => isNameByte b || isSigil b
  | _ => false

/-- What may come after a lexeme in a statement that is followed by the byte `stop`. -/
def Precedes (stop : UInt8) (rest : List Lexeme) : Lexeme → Prop
  | name t => IsMarked t ∨ rest.head?.any extendsName = false
  | remark _ => rest = [] ∧ stop = endLine
  | text _ closed => closed = false → rest = [] ∧ stop = endLine
  | _ => True

end Lexeme

/-- The lexemes of a statement that is followed by the byte `stop`. -/
def Sound (stop : UInt8) : List Lexeme → Prop
  | [] => True
  | l :: rest => l.Valid ∧ l.Precedes stop rest ∧ Sound stop rest

/-- The lexemes of the statements of a line. -/
def SoundLine : List Lexeme → List (List Lexeme) → Prop
  | first, [] => Sound endLine first
  | first, second :: others => Sound colon first ∧ SoundLine second others

/-! ## The lexemes of a text -/

theorem isStem_upper {src : List UInt8} {c : UInt8} {rest : List UInt8} (hsrc : src = c :: rest)
    (hc : isLetter c = true) : IsStem ((src.takeWhile isNameByte).map upper) := by
  have hletter : ∀ b, isLetter b = true → isLetter (upper b) = true :=
    forall_byte (by decide +kernel)
  have hname : ∀ b, isNameByte b = true → isNameByte (upper b) = true ∧ upper (upper b) = upper b :=
    forall_byte (by decide +kernel)
  have hn : isNameByte c = true := by simp [isNameByte, hc]
  rw [hsrc, List.takeWhile_cons, if_pos hn, List.map_cons]
  refine ⟨hletter c hc, fun b hb => ?_⟩
  rw [← List.map_cons] at hb
  obtain ⟨d, hd, rfl⟩ := List.mem_map.1 hb
  rcases List.mem_cons.1 hd with rfl | hd
  · exact hname d hn
  · exact hname d (List.mem_takeWhile_imp hd)

/-- A name is cut off as far as it goes. -/
theorem splitName_spec {c : UInt8} {rest : List UInt8} (hc : isLetter c = true) :
    (IsStem (splitName (c :: rest)).1 ∨ IsMarked (splitName (c :: rest)).1) ∧
      (IsMarked (splitName (c :: rest)).1 ∨
        (splitName (c :: rest)).2.head?.any (fun b => isNameByte b || isSigil b) = false) := by
  have hstem : IsStem (((c :: rest).takeWhile isNameByte).map upper) := isStem_upper rfl hc
  unfold splitName
  split
  · exact ⟨.inl hstem, .inr rfl⟩
  · rename_i b after hdrop
    split
    · rename_i hb
      have hmarked : IsMarked (((c :: rest).takeWhile isNameByte).map upper ++ [b]) :=
        ⟨_, _, rfl, hstem, hb⟩
      exact ⟨.inr hmarked, .inl hmarked⟩
    · rename_i hb
      have hn : isNameByte b = false := by
        have h := List.head_dropWhile_not isNameByte (l := c :: rest) (by rw [hdrop]; simp)
        simpa only [hdrop, List.head_cons] using h
      refine ⟨.inl hstem, .inr ?_⟩
      simp [hn, hb]

theorem valid_single {c : UInt8} (hp : isPrintable c = true) (hl : isLetter c = false)
    (hd : isDigit c = false) (hq : c ≠ quote) (hcolon : c ≠ colon) : (single c).Valid := by
  unfold single
  split
  · trivial
  · rename_i hspace
    split
    · trivial
    · split
      · trivial
      · show isSymbol c = true
        simp [isSymbol, hp, hl, hd, hspace, hq, hcolon]

theorem extendsName_single {c : UInt8} :
    (isNameByte c || isSigil c) = false → (single c).extendsName = false :=
  forall_byte (P := fun c => (isNameByte c || isSigil c) = false → (single c).extendsName = false)
    (by decide +kernel) c

/-- A lexeme at the start of a text is valid. -/
theorem valid_lexeme {c : UInt8} {rest : List UInt8}
    (hp : ∀ b ∈ c :: rest, isPrintable b = true) (hcolon : c ≠ colon) : (lexeme c rest).1.Valid := by
  unfold lexeme
  split
  · intro b hb
    refine ⟨hp b (List.mem_cons_of_mem _ ((List.takeWhile_sublist _).subset hb)), ?_⟩
    simpa using List.mem_takeWhile_imp hb
  · rename_i hq
    split
    · unfold number
      split <;> trivial
    · rename_i hn
      split
      · rename_i hl
        unfold word
        split
        · intro b hb
          exact hp b (List.mem_of_mem_drop hb)
        · trivial
        · exact (splitName_spec hl).1
      · rename_i hl
        have hd : isDigit c = false := by
          rw [Bool.or_eq_true, not_or] at hn
          exact Bool.eq_false_iff.2 hn.1
        exact valid_single (hp c List.mem_cons_self) (Bool.eq_false_iff.2 hl) hd hq hcolon

/-- After a byte that cannot go on a name comes no lexeme that would. -/
theorem head_split {src : List UInt8}
    (h : src.head?.any (fun b => isNameByte b || isSigil b) = false) :
    (split src).1.head?.any Lexeme.extendsName = false := by
  cases src with
  | nil => simp [split]
  | cons c rest =>
    have hc : (isNameByte c || isSigil c) = false := by simpa using h
    have hname : isLetter c = false ∧ isDigit c = false ∧ c ≠ point := by
      simpa [isNameByte, and_assoc] using (Bool.or_eq_false_iff.1 hc).1
    rw [split]
    split
    · rfl
    · split
      · rfl
      · simp only [List.head?_cons, Option.any_some, lexeme]
        split
        · rfl
        · simp [hname, extendsName_single hc]

/-- What a lexeme may leave of a text. -/
def Lexeme.Leaves (rest : List UInt8) : Lexeme → Prop
  | name t => IsMarked t ∨ rest.head?.any (fun b => isNameByte b || isSigil b) = false
  | remark _ => rest = []
  | text _ closed => closed = false → rest = []
  | _ => True

theorem leaves_word {c : UInt8} (rest : List UInt8) (hc : isLetter c = true) :
    (word (c :: rest)).1.Leaves (word (c :: rest)).2 := by
  unfold word
  split
  · rfl
  · trivial
  · exact (splitName_spec hc).2

theorem leaves_single (c : UInt8) (rest : List UInt8) : (single c).Leaves rest := by
  unfold single
  split
  · trivial
  · split
    · trivial
    · split <;> trivial

theorem leaves_lexeme (c : UInt8) (rest : List UInt8) : (lexeme c rest).1.Leaves (lexeme c rest).2 := by
  unfold lexeme
  split
  · intro hclosed
    rcases Crunch.afterQuote_cases rest with ⟨-, h⟩ | ⟨inside, after, -, rfl, -⟩
    · rw [h]
    · simp at hclosed
  · split
    · unfold number
      split <;> trivial
    · split
      · exact leaves_word rest ‹_›
      · exact leaves_single c rest

/-- Where a lexeme leaves nothing of a line, nothing comes after it. -/
theorem precedes_of_leaves {l : Lexeme} {src : List UInt8} {stop : UInt8} (h : l.Leaves src)
    (hstop : (split src).2 = [] → stop = endLine) : l.Precedes stop (split src).1 := by
  have hnil : src = [] → (split src).1 = [] ∧ stop = endLine := by
    rintro rfl
    rw [split] at hstop ⊢
    exact ⟨rfl, hstop rfl⟩
  cases l with
  | name t => exact h.imp id head_split
  | remark t => exact hnil h
  | text inside closed => exact fun hc => hnil (h hc)
  | _ => trivial

/-- The lexemes of a text are sound. -/
theorem soundLine_split {src : List UInt8} (hp : ∀ b ∈ src, isPrintable b = true) :
    SoundLine (split src).1 (split src).2 := by
  fun_induction split src with
  | case1 => trivial
  | case2 rest => exact ⟨trivial, hp, ⟨rfl, rfl⟩, trivial⟩
  | case3 rest hc ih => exact ⟨trivial, ih fun b hb => hp b (List.mem_cons_of_mem _ hb)⟩
  | case4 c rest hc hcolon ih =>
    have hrest : ∀ b ∈ (lexeme c rest).2, isPrintable b = true := fun b hb => by
      rw [lexeme_rest false hc] at hb
      exact hp b ((Crunch.lexeme_suffix false c rest).subset hb)
    have hvalid := valid_lexeme hp hcolon
    have hleaves := leaves_lexeme c rest
    have hline := ih hrest
    cases hothers : (split (lexeme c rest).2).2 with
    | nil =>
      rw [hothers] at hline
      exact ⟨hvalid, precedes_of_leaves hleaves fun _ => rfl, hline⟩
    | cons second others =>
      rw [hothers] at hline
      refine ⟨⟨hvalid, precedes_of_leaves hleaves fun h => ?_, hline.1⟩, hline.2⟩
      rw [hothers] at h
      cases h

end LineBasic.Source

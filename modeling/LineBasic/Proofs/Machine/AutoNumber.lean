import LineBasic.Proofs.Machine.Entry
import LineBasic.Proofs.Machine.ErrorTrap

/-!
# Offered line numbers

The operator types one text after another behind the numbers that are offered.

* `LineMap.typed`: the lines of a program after some texts.
* `Machine.Takes`: what a machine does with the text typed at one number.
* `auto_offers`: the number, the prompt and the program at every text, and where the offers end.
-/

namespace LineBasic

open Token Effect

/-- The map after texts are typed at numbers that go up in steps. -/
def LineMap.typed (m : LineMap) (number step : Nat) : List String → LineMap
  | [] => m
  | text :: texts =>
    LineMap.typed (m.entered (UInt16.ofNat number) (Program.typedBody (Text.utf8 text))) (number + step)
      step texts

/-! ## The text of an entry -/

theorem Source.utf8_toString (n : Nat) : Text.utf8 (toString n) = decimal n := by
  have hbytes : toString n = Text.ofBytes (decimal n) := by
    rw [Text.ofBytes, map_byteChar_decimal, String.ofList_toList]
  rw [hbytes, Text.utf8_ofBytes]
  intro b hb
  have hascii : ∀ b, isDigit b = true → b < 0x80 := by grind [isDigit]
  exact hascii b (isDigit_of_mem_decimal hb)

namespace Machine

/-- With or without a star, what is typed follows the number and a space. -/
theorem dropStar_mark (number text : String) (isTaken : Bool) :
    dropStar number ((number ++ if isTaken then "*" else " ") ++ text) = number ++ " " ++ text := by
  cases isTaken with
  | false =>
    refine dropStar_of_not_isPrefix ?_
    rintro ⟨rest, hrest⟩
    simp only [String.toList_append, List.append_assoc, List.append_cancel_left_eq] at hrest
    exact absurd (List.cons.inj hrest).1 (by decide)
  | true =>
    have hlist : ((number ++ "*") ++ text).toList = number.toList ++ '*' :: text.toList := by simp
    have hstar : (number ++ "*").toList.isPrefixOf ((number ++ "*") ++ text).toList = true := by
      rw [List.isPrefixOf_iff_prefix, hlist]
      exact ⟨text.toList, by simp⟩
    have hdrop : (number.toList ++ '*' :: text.toList).drop (number.length + 1) = text.toList := by
      rw [← String.length_toList, ← List.drop_drop, List.drop_left]
      rfl
    rw [if_pos rfl, dropStar, if_pos hstar, hlist, hdrop, ← String.toList_inj]
    simp

/-! ## One text -/

/-- What a machine does with a text that is typed at an offered number. -/
structure Takes (m : Machine) (number step : Nat) (text : String) (m' : Machine) : Prop where
  /-- The number was offered, with a star if the line exists. -/
  prompt : m'.console.transcript =
    .read (offered m.session) (offered m.session).utf8ByteSize (.typed text) :: m.console.transcript
  offers : offered m.session = toString number ++
    if (m.session.program.toMap (UInt16.ofNat number)).isSome then "*" else " "
  input : m.console.input = .typed text :: m'.console.input
  /-- The text is stored under the number; one that is blank deletes the line. -/
  program : m'.session.program.toMap =
    m.session.program.toMap.entered (UInt16.ofNat number) (Program.typedBody (Text.utf8 text))
  others : ∀ n, n ≠ UInt16.ofNat number → m'.session.program.toMap n = m.session.program.toMap n
  /-- The next number is a step further on. -/
  line : m'.session.auto.line.toNat = number + step
  increment : m'.session.auto.increment.toNat = step
  /-- Numbers are offered up to the highest that a line may have. -/
  mode : m'.session.mode = if 65529 < number + step then .direct else .autoNumbering

section Step

variable {m : Machine} {number : Nat} {text : String} {rest : List Reply}

theorem toString_line (hline : m.session.auto.line.toNat = number) :
    toString m.session.auto.line = toString number := by
  rw [← hline]
  rfl

theorem offered_eq (hline : m.session.auto.line.toNat = number) (hnumber : number ≤ 65529) :
    offered m.session = toString number ++
      if (m.session.program.toMap (UInt16.ofNat number)).isSome then "*" else " " := by
  have hle : m.session.auto.line ≤ 65535 := by
    rw [UInt32.le_iff_toNat_le, hline]
    exact Nat.le_trans hnumber (by decide)
  have hword : m.session.auto.line.toUInt16 = UInt16.ofNat number := by
    rw [← hline]
    rfl
  rw [offered, toString_line hline, Program.isSome_toMap, hword, decide_eq_true hle, Bool.true_and]

/-- The number after one that a line may have does not overflow. -/
theorem toNat_numberAfter (s : Session) (hnumber : number ≤ 65529) :
    (s.numberAfter (UInt16.ofNat number)).toNat = number + s.auto.increment.toNat := by
  have hstep := s.auto.increment.toNat_lt
  rw [Session.numberAfter, UInt32.toNat_add, UInt16.toNat_toUInt32, UInt16.toNat_toUInt32,
    UInt16.toNat_ofNat', Nat.mod_eq_of_lt (by omega : number < 2 ^ 16)]
  exact Nat.mod_eq_of_lt (by omega)

/-- The bytes of a number, a space and a text. -/
theorem utf8_typed (hnumber : number ≤ 65529) :
    Text.utf8 (toString number ++ " " ++ text) =
      Source.decimal (UInt16.ofNat number).toNat ++ space :: Text.utf8 text := by
  have hspace : Text.utf8 " " = [space] := by decide
  rw [Text.utf8_append, Text.utf8_append, Source.utf8_toString, hspace, UInt16.toNat_ofNat',
    Nat.mod_eq_of_lt (by omega)]
  simp

theorem readLine_typed (c : Console) (hinput : c.input = .typed text :: rest) (offered : String)
    (cursor : Nat) :
    c.readLine offered cursor = (.ok (offered ++ text),
      { c with
        input := rest
        transcript := .read offered cursor (.typed text) :: c.transcript
        midLine := false }) := by
  simp [Console.readLine, hinput, Console.note]

/-- The machine after an entry, told by the program that it has made. -/
theorem takes_of_toMap (hmode : m.session.mode = .autoNumbering)
    (hline : m.session.auto.line.toNat = number) (hnumber : number ≤ 65529)
    (hinput : m.console.input = .typed text :: rest) (direct : CodeStream) {q : Program}
    (hmap : q.toMap = m.session.program.toMap.entered (UInt16.ofNat number)
      (Program.typedBody (Text.utf8 text))) :
    m.Takes number m.session.auto.increment.toNat text { m.asked with
      session := Session.goOn (UInt16.ofNat number)
        (Session.clear { m.asked.session with direct, program := q }) } := by
  have hread := readLine_typed m.console hinput (offered m.session) (offered m.session).utf8ByteSize
  have hnext := toNat_numberAfter m.session hnumber
  have hend : Program.maxLineNumber.toUInt32 < m.session.numberAfter (UInt16.ofNat number) ↔
      65529 < number + m.session.auto.increment.toNat := by
    rw [UInt32.lt_iff_toNat_lt, hnext]
    rfl
  constructor
  case prompt => rw [asked, hread]
  case offers => exact offered_eq hline hnumber
  case input => rw [asked, hread, hinput]
  case program =>
    rw [Session.goOn_program]
    exact hmap
  case others =>
    intro n hn
    rw [Session.goOn_program]
    exact (congrFun hmap n).trans (LineMap.entered_of_ne _ hn)
  case line =>
    rw [Session.goOn_auto]
    exact hnext
  case increment => rw [Session.goOn_auto]; rfl
  case mode =>
    rw [Session.goOn_mode]
    exact if_congr hend rfl hmode

/-- A text that does not start with a number is entered, if there is room for it. -/
theorem autoStep_typed (hmode : m.session.mode = .autoNumbering)
    (hline : m.session.auto.line.toNat = number) (hnumber : number ≤ 65529)
    (hinput : m.console.input = .typed text :: rest)
    (hbody : Program.startsWithNumber (Program.typedBody (Text.utf8 text)) = false)
    (hfits : (m.session.program.toMap.entered (UInt16.ofNat number)
      (Program.typedBody (Text.utf8 text))).image.length ≤ 65535) :
    ∃ m', autoStep m = .ok () m' ∧ m.Takes number m.session.auto.increment.toNat text m' := by
  have hmax : UInt16.ofNat number ≤ Program.maxLineNumber := by
    rw [UInt16.le_iff_toNat_le, UInt16.toNat_ofNat', Nat.mod_eq_of_lt (by omega)]
    exact hnumber
  let line := toString number ++ " " ++ text
  have hcode : Crunch.line line =
      Crunch.bytes (Source.decimal (UInt16.ofNat number).toNat ++ space :: Text.utf8 text) :=
    congrArg Crunch.bytes (utf8_typed hnumber)
  have hhead : (Crunch.line line).head? = some endLine := by
    rw [Program.head_line_iff, utf8_typed hnumber, Program.numberedText?_typed]
    exact .inl rfl
  have hdrop : dropStar (toString m.session.auto.line) (offered m.session ++ text) = line := by
    rw [offered, dropStar_mark, toString_line hline]
  obtain ⟨q, hedit, hmap⟩ := m.session.program.edit_typed hmax hbody hfits
  have hread := readLine_typed m.console hinput (offered m.session) (offered m.session).utf8ByteSize
  rw [autoStep_of_read m (by rw [hread]), hdrop, enterOffered_of_head _ hhead, bind_apply]
  rw [← hcode] at hedit
  generalize Crunch.line line = code at hedit
  obtain ⟨direct, happly⟩ := editProgram_withLine false m.asked code
  have hprogram : m.asked.session.program = m.session.program := rfl
  rw [happly, hprogram, hedit]
  exact ⟨_, offerNext_apply _ _, takes_of_toMap hmode hline hnumber hinput direct hmap⟩

/-- Such a text is taken in one pass. -/
theorem pass_typed (e : Engine) (hmode : m.session.mode = .autoNumbering)
    (hline : m.session.auto.line.toNat = number) (hnumber : number ≤ 65529)
    (hinput : m.console.input = .typed text :: rest)
    (hbody : Program.startsWithNumber (Program.typedBody (Text.utf8 text)) = false)
    (hfits : (m.session.program.toMap.entered (UInt16.ofNat number)
      (Program.typedBody (Text.utf8 text))).image.length ≤ 65535) :
    ∃ m', Machine.pass e m = .ok false m' ∧ m.Takes number m.session.auto.increment.toNat text m' := by
  obtain ⟨m', hstep, htakes⟩ := autoStep_typed hmode hline hnumber hinput hbody hfits
  refine ⟨m', ?_, htakes⟩
  have hauto : autoPass m = .ok () m' := tryCatch_of_ok hstep
  have hexecuting : m'.session.mode ≠ .executing := by
    rw [htakes.mode]
    split
    · exact Mode.noConfusion
    · exact Mode.noConfusion
  simp [Machine.pass, hmode, hauto, switchMode, hexecuting]

end Step

/-! ## Any number of texts -/

section Run

variable (e : Engine) {m : Machine} {start step : Nat} {texts : List String} {more : List Reply} {k : Nat}

/-- **Offered numbers.**  The texts of a list are typed one after the other at the numbers offered from
`start` on.  None of them starts with a number, and the image stays small enough.  Then the prompt for
every text offers the number that it is due, as long as a line may have that number; the text is entered
under it; and the prompts end with the last such number. -/
theorem auto_offers (hmode : m.session.mode = .autoNumbering)
    (hline : m.session.auto.line.toNat = start) (hstep : m.session.auto.increment.toNat = step)
    (hinput : m.console.input = texts.map .typed ++ more) (hk : k < texts.length)
    (hlast : start + k * step ≤ 65529)
    (hnumber : ∀ text ∈ texts.take (k + 1),
      Program.startsWithNumber (Program.typedBody (Text.utf8 text)) = false)
    (hfits : ∀ j ≤ k + 1,
      (m.session.program.toMap.typed start step (texts.take j)).image.length ≤ 65535) :
    ∃ m₁ m₂, passes e k m = .ok () m₁ ∧ m₁.session.mode = .autoNumbering ∧
      m₁.session.program.toMap = m.session.program.toMap.typed start step (texts.take k) ∧
      Machine.pass e m₁ = .ok false m₂ ∧ m₁.Takes (start + k * step) step texts[k] m₂ := by
  induction k generalizing m start texts with
  | zero =>
    obtain ⟨text, rest, rfl⟩ := List.exists_cons_of_length_pos hk
    obtain ⟨m₂, hpass, htakes⟩ := pass_typed e hmode hline (by omega) hinput
      (hnumber text List.mem_cons_self) (by subst hstep; exact hfits 1 (by omega))
    refine ⟨m, m₂, rfl, hmode, rfl, hpass, ?_⟩
    subst hstep
    simpa using htakes
  | succ k ih =>
    obtain ⟨text, rest, rfl⟩ := List.exists_cons_of_length_pos (Nat.zero_lt_of_lt hk)
    have hmul : start + (k + 1) * step = start + step + k * step := by
      rw [Nat.succ_mul]
      omega
    rw [hmul] at hlast
    obtain ⟨m', hpass, htakes⟩ := pass_typed e hmode hline (by omega) hinput
      (hnumber text List.mem_cons_self) (hfits 1 (by omega))
    rw [hstep] at htakes
    have hmode' : m'.session.mode = .autoNumbering := by
      rw [htakes.mode, if_neg (by omega)]
    have hinput' : m'.console.input = rest.map .typed ++ more := by
      have hcons := htakes.input.symm.trans hinput
      exact (List.cons.inj hcons).2
    obtain ⟨m₁, m₂, hpasses, hmode₁, hmap, hpass₂, htakes₂⟩ := ih hmode' htakes.line htakes.increment
      hinput' (Nat.lt_of_succ_lt_succ hk) hlast
      (fun t ht => hnumber t (List.mem_cons_of_mem _ ht))
      (fun j hj => by
        rw [htakes.program]
        exact hfits (j + 1) (by omega))
    refine ⟨m₁, m₂, ?_, hmode₁, ?_, hpass₂, ?_⟩
    · simp only [passes, bind_apply, hpass]
      exact hpasses
    · rw [hmap, htakes.program]
      rfl
    · rw [hmul]
      exact htakes₂

end Run

/-- A program with the last line that there may be. -/
def lastLine : Program where
  lines := [⟨65529, [0x81]⟩]
  pos := 0
  image := Program.render 0 [⟨65529, [0x81]⟩]
  ascending := List.pairwise_singleton _ _
  linked := rfl
  fits := by decide

/-- Numbers are offered from 65519 on, and the second text has no code. -/
def lastNumbers : Machine where
  session :=
    { program := lastLine, mode := .autoNumbering, autoActive := true, auto := ⟨65519, 10⟩ }
  console := { input := [.typed "END", .typed " "] }

theorem typedBody_end : Program.typedBody (Text.utf8 "END") = [0x81] := by
  decide +kernel

theorem typedBody_blank : Program.typedBody (Text.utf8 " ") = [] := by
  have htext : (Crunch.trimEnd (Text.utf8 " ")).dropWhile (· = space) = [] := by decide
  rw [Program.typedBody, htext, Crunch.body]

/-- There is room for the texts. -/
theorem lastNumbers_fit (j : Nat) (hj : j ≤ 2) :
    (lastLine.toMap.typed 65519 10 (["END", " "].take j)).image.length ≤ 65535 := by
  have hfits : ∀ p : Program, p.toMap.image.length ≤ 65535 := fun p => by
    rw [p.image_toMap]
    exact p.fits
  have hlines : (lastLine.toMap.entered 65519 [0x81]) =
      .ofLines [⟨65519, [0x81]⟩, ⟨65529, [0x81]⟩] := by
    rw [LineMap.entered, if_neg (by decide), Program.toMap_eq_ofLines]
    exact (Program.ofLines_insertLine ⟨65519, [0x81]⟩ lastLine.ascending).symm
  obtain ⟨p, hp⟩ : ∃ p : Program, p.toMap = lastLine.toMap.entered 65519 [0x81] := by
    refine ⟨⟨[⟨65519, [0x81]⟩, ⟨65529, [0x81]⟩], 0, _, ?_, rfl, by decide⟩, ?_⟩
    · simp [Program.Ascending]
    · rw [hlines, Program.toMap_eq_ofLines]
  obtain ⟨q, -, hq⟩ := p.toMap_of_delete 65529
  obtain rfl | rfl | rfl : j = 0 ∨ j = 1 ∨ j = 2 := by omega
  · exact hfits lastLine
  · show (lastLine.toMap.entered 65519 (Program.typedBody (Text.utf8 "END"))).image.length ≤ 65535
    rw [typedBody_end, ← hp]
    exact hfits p
  · show ((lastLine.toMap.entered 65519 (Program.typedBody (Text.utf8 "END"))).entered 65529
      (Program.typedBody (Text.utf8 " "))).image.length ≤ 65535
    rw [typedBody_end, typedBody_blank, ← hp, LineMap.entered, if_pos List.all_nil, ← hq]
    exact hfits q

/-- The second number offered is that of a line, and the last that may be: the line is deleted, and the
machine goes back to direct mode. -/
theorem lastNumbers_offered :
    lastNumbers.console.input = ["END", " "].map .typed ++ [] ∧
      (∀ text ∈ ["END", " "].take 2,
        Program.startsWithNumber (Program.typedBody (Text.utf8 text)) = false) ∧
      ∃ m₁ m₂, passes .standard 1 lastNumbers = .ok () m₁ ∧ m₁.session.mode = .autoNumbering ∧
        m₁.session.program.toMap = lastLine.toMap.typed 65519 10 ["END"] ∧
        Machine.pass .standard m₁ = .ok false m₂ ∧ m₁.Takes 65529 10 " " m₂ := by
  have hnumber : ∀ text ∈ ["END", " "].take 2,
      Program.startsWithNumber (Program.typedBody (Text.utf8 text)) = false := by
    intro text htext
    simp only [List.take, List.mem_cons, List.not_mem_nil, or_false] at htext
    obtain rfl | rfl := htext
    · rw [typedBody_end]
      decide
    · rw [typedBody_blank]
      decide
  have hline : lastNumbers.session.auto.line.toNat = 65519 := by decide
  have hstep : lastNumbers.session.auto.increment.toNat = 10 := by decide
  refine ⟨rfl, hnumber, ?_⟩
  exact @auto_offers .standard lastNumbers 65519 10 ["END", " "] [] 1 rfl hline hstep rfl
    (by decide) (by decide) hnumber lastNumbers_fit

end Machine

end LineBasic

import LineBasic.Proofs.Machine.Statement
import LineBasic.Proofs.Source.Reading

/-!
# Expressions and their syntax trees

An expression is evaluated while its code is read.  Here it has a syntax tree, the tree has a code and
a value, and reading the code gives the value.

* `Atom`, `Tree`: operands and sums, with whatever blanks stand before their tokens.
* `Tree.code`, `Tree.eval`: the tokens of a tree, and what it is worth.
* `Comes`: reading ends in an error, or goes on with a value.
* `term_atom`, `Tree.reads`: how operands and sums are read, whatever follows them.
* `value_of_tree`: what an expression comes to in a session, and where that goes on.
-/

namespace LineBasic.Expression

open Token Scan

/-! ## Trees -/

/-- Blanks before a token. -/
abbrev Blanks := { gap : List UInt8 // ∀ b ∈ gap, isBlank b = true }

/-- The bytes of a string literal. -/
abbrev Literal := { inside : List UInt8 // ∀ b ∈ inside, b ≠ quote ∧ b ≠ endLine }

/-- A whole number, by the form of its token.  There are tokens for octal and hexadecimal numbers, too,
but no text is ever crunched to them and they are no operands. -/
inductive Whole where
  | small (n : Fin 11)
  | byte (n : UInt8)
  | integer (n : Int16)
  | word (n : UInt16)

namespace Whole

/-- The token of a whole number. -/
def code : Whole → List UInt8
  | small n => [zero + UInt8.ofNat n.val]
  | byte n => [byteConstant, n]
  | integer n => integerConstant :: Endian.word n.toUInt16
  | word n => lineNumber :: Endian.word n

/-- The number itself. -/
def number : Whole → Int
  | small n => n.val
  | byte n => n.toNat
  | integer n => n.toInt
  | word n => n.toNat

end Whole

/-- The name of a variable as it stands in code, in letters of either case. -/
structure VariableName where
  first : UInt8
  others : List UInt8
  mark : Option UInt8
  isLetter_first : isLetter first = true
  isNameByte_others : ∀ b ∈ others, isNameByte b = true
  isSigil_mark : ∀ b, mark = some b → isSigil b = true

namespace VariableName

/-- The bytes of a name, as they were typed. -/
def code (n : VariableName) : List UInt8 :=
  n.first :: n.others ++ n.mark.toList

/-- The name under which the variable is kept. -/
def key (n : VariableName) : String :=
  Text.ofBytes ((n.first :: n.others).map upper ++ n.mark.toList)

end VariableName

/-- An operand of one token. -/
inductive Atom where
  | text (inside : Literal)
  | whole (n : Whole)
  | single (x : Single)
  | name (n : VariableName)
  | err
  | erl

namespace Atom

/-- The bytes of an operand. -/
def code : Atom → List UInt8
  | text inside => quote :: inside.val ++ [quote]
  | whole n => n.code
  | single x => singleConstant :: Endian.bytes 4 x.bits.toNat
  | name n => n.code
  | err => Keyword.ERR.code
  | erl => Keyword.ERL.code

/-- The value of an operand. -/
def value (scope : Scope) : Atom → Value
  | text inside => .string (Text.ofBytes inside.val)
  | whole n => .ofInt n.number
  | single x => .single x
  | name n => scope.vars.fetch n.key
  | err => .integer (Int16.ofNat scope.err.toNat)
  | erl => .ofInt scope.erl.toNat

end Atom

/-- What a tree may stand for: an operand has no sum outside of parentheses. -/
inductive Rank where
  | operand | sum

/-- The syntax of expressions. -/
inductive Tree : Rank → Type where
  | atom (gap : Blanks) (a : Atom) : Tree .operand
  | plus (gap : Blanks) (t : Tree .operand) : Tree .operand
  | minus (gap : Blanks) (t : Tree .operand) : Tree .operand
  | parens (gap : Blanks) (t : Tree .sum) (gap' : Blanks) : Tree .operand
  | operand (t : Tree .operand) : Tree .sum
  | add (left : Tree .sum) (gap : Blanks) (right : Tree .operand) : Tree .sum
  | subtract (left : Tree .sum) (gap : Blanks) (right : Tree .operand) : Tree .sum

namespace Tree

/-- The code of a tree. -/
def code : {rank : Rank} → Tree rank → List UInt8
  | _, atom gap a => gap.val ++ a.code
  | _, plus gap t => gap.val ++ Operator.plus.code :: t.code
  | _, minus gap t => gap.val ++ Operator.minus.code :: t.code
  | _, parens gap t gap' => gap.val ++ openParen :: (t.code ++ (gap'.val ++ [closeParen]))
  | _, operand t => t.code
  | _, add left gap right => left.code ++ (gap.val ++ Operator.plus.code :: right.code)
  | _, subtract left gap right => left.code ++ (gap.val ++ Operator.minus.code :: right.code)

/-- The value of a tree, its operands evaluated from left to right, or the first error. -/
def eval (scope : Scope) : {rank : Rank} → Tree rank → Except BasicError Value
  | _, atom _ a => .ok (a.value scope)
  | _, plus _ t => t.eval scope
  | _, minus _ t => do (← t.eval scope).negate
  | _, parens _ t _ => t.eval scope
  | _, operand t => t.eval scope
  | _, add left _ right => do (← left.eval scope).add (← right.eval scope)
  | _, subtract left _ right => do (← left.eval scope).subtract (← right.eval scope)

/-- The operators between the operands of a sum. -/
def operators : {rank : Rank} → Tree rank → Nat
  | _, add left _ _ => left.operators + 1
  | _, subtract left _ _ => left.operators + 1
  | _, _ => 0

end Tree

/-! ## Reading atoms -/

/-- A name that ends before this code does not go on in it. -/
def Delimited (rest : List UInt8) : Prop :=
  ∀ b, rest.head? = some b → isNameByte b = false ∧ isSigil b = false

theorem Blanks.dropWhile (gap : Blanks) {b : UInt8} (hb : isBlank b = false) (rest : List UInt8) :
    (gap.val ++ b :: rest).dropWhile isBlank = b :: rest := by
  rw [List.dropWhile_append_of_pos gap.property, List.dropWhile_cons, hb]
  rfl

theorem Blanks.delimited (gap : Blanks) {b : UInt8} (hb : isNameByte b = false ∧ isSigil b = false)
    (rest : List UInt8) : Delimited (gap.val ++ b :: rest) := by
  obtain ⟨gap, hgap⟩ := gap
  intro c hc
  cases gap with
  | nil =>
    cases hc
    exact hb
  | cons c' gap =>
    cases hc
    have hblank : isBlank c = true := hgap c List.mem_cons_self
    have hname : isBlank c = true → isNameByte c = false ∧ isSigil c = false :=
      forall_byte (P := fun c => isBlank c = true → isNameByte c = false ∧ isSigil c = false)
        (by decide +kernel) c
    exact hname hblank

namespace Atom

/-- Where the code of an atom begins, nothing is skipped. -/
theorem isBlank_head (a : Atom) : ∃ b more, a.code = b :: more ∧ isBlank b = false := by
  cases a with
  | text inside => exact ⟨_, _, rfl, by decide⟩
  | whole n =>
    cases n with
    | small n =>
      refine ⟨_, _, rfl, ?_⟩
      revert n
      decide
    | byte n => exact ⟨_, _, rfl, by decide⟩
    | integer n => exact ⟨_, _, rfl, by decide⟩
    | word n => exact ⟨_, _, rfl, by decide⟩
  | single x => exact ⟨_, _, rfl, by decide⟩
  | name n =>
    have hletter : isLetter n.first = true → isBlank n.first = false :=
      forall_byte (P := fun b => isLetter b = true → isBlank b = false) (by decide +kernel) n.first
    exact ⟨_, _, rfl, hletter n.isLetter_first⟩
  | err => exact ⟨_, _, rfl, by decide⟩
  | erl => exact ⟨_, _, rfl, by decide⟩

end Atom

theorem splitString_literal (inside : Literal) (rest : List UInt8) :
    splitString (inside.val ++ quote :: rest) = (inside.val, rest) := by
  have hinside : ∀ b ∈ inside.val, (b ≠ endLine && b ≠ quote) = true := fun b hb => by
    simp [(inside.property b hb).1, (inside.property b hb).2]
  unfold splitString
  rw [List.takeWhile_append_of_pos hinside, List.dropWhile_append_of_pos hinside]
  simp

theorem splitName_code (n : VariableName) {rest : List UInt8} (hrest : Delimited rest) :
    splitName (n.code ++ rest) = ((n.first :: n.others).map upper ++ n.mark.toList, rest) := by
  obtain ⟨first, others, mark, hfirst, hothers, hmark⟩ := n
  have hstem : ∀ b ∈ first :: others, isNameByte b = true := by
    intro b hb
    obtain rfl | hb := List.mem_cons.1 hb
    · simp [isNameByte, hfirst]
    · exact hothers b hb
  unfold splitName VariableName.code
  dsimp only
  rw [List.append_assoc, List.takeWhile_append_of_pos hstem, List.dropWhile_append_of_pos hstem]
  cases mark with
  | some b =>
    have hb : isSigil b = true := hmark b rfl
    have hname : isSigil b = true → isNameByte b = false :=
      forall_byte (P := fun b => isSigil b = true → isNameByte b = false) (by decide +kernel) b
    simp [hname hb, hb]
  | none =>
    cases rest with
    | nil => simp
    | cons b rest =>
      obtain ⟨hname, hsigil⟩ := hrest b rfl
      simp [hname, hsigil]

theorem name_code (n : VariableName) {rest : List UInt8} (hrest : Delimited rest) :
    Scan.name (n.code ++ rest) = .ok n.key rest := by
  have hletter : isLetter n.first = true → isBlank n.first = false :=
    forall_byte (P := fun b => isLetter b = true → isBlank b = false) (by decide +kernel) n.first
  have hdrop : (n.code ++ rest).dropWhile isBlank = n.code ++ rest := by
    rw [VariableName.code, List.cons_append, List.cons_append, List.dropWhile_cons,
      hletter n.isLetter_first]
    rfl
  have hhead : (n.code ++ rest).head?.any isLetter = true := by
    simp [VariableName.code, n.isLetter_first]
  have hkey : n.key.isEmpty = false := by
    simp [VariableName.key, Text.ofBytes]
  rw [Source.name_apply, hdrop, if_pos hhead, splitName_code n hrest]
  exact if_neg (by rw [← VariableName.key, hkey]; exact Bool.false_ne_true)

section Atoms

variable (scope : Scope) (parenthesised : Scanner Value) (fuel : Nat) {code rest : List UInt8}

theorem ofInt_toInt (n : Int16) : Value.ofInt n.toInt = .integer n := by
  have hfit : Value.fit? n.toInt = some (Int16.ofInt n.toInt) := if_pos (by
    have := n.le_toInt
    have := n.toInt_lt
    simp
    omega)
  rw [Value.ofInt, hfit, Int16.ofInt_toInt]

theorem int16_ofNat_toUInt16 (n : Int16) : Int16.ofNat n.toUInt16.toNat = n :=
  Int16.toBitVec_inj.1 (by simp)

theorem value_word (w : UInt16) : Endian.value (Endian.word w) = w.toNat := by
  rw [Endian.word, Endian.value_bytes]
  exact Nat.mod_eq_of_lt w.toNat_lt

theorem term_whole (n : Whole) (hdrop : code.dropWhile isBlank = n.code ++ rest) :
    term scope parenthesised (fuel + 1) code = .ok (.ofInt n.number) rest := by
  cases n with
  | small n =>
    have hdrop : code.dropWhile isBlank = (zero + UInt8.ofNat n.val) :: rest := hdrop
    have hnumber : Value.ofInt (n.val : Nat) = .integer (Int16.ofNat n.val) :=
      Source.ofInt_of_le (by omega)
    rw [Whole.number, hnumber]
    by_cases hdigit : n.val ≤ 9
    · exact Source.term_digit scope parenthesised fuel hdigit hdrop
    · have hten : n.val = 10 := by omega
      rw [hten] at hdrop ⊢
      simp only [term, Effect.bind_apply, next?_apply, hdrop, List.head?_cons]
      rfl
  | byte n =>
    have hdrop : code.dropWhile isBlank = byteConstant :: ([n] ++ rest) := hdrop
    rw [Source.term_constant scope parenthesised fuel (by simp) rfl hdrop]
    rfl
  | integer n =>
    rw [Source.term_constant scope parenthesised fuel (by simp) rfl hdrop, Whole.number, ofInt_toInt]
    show EStateM.Result.ok (Value.integer (Int16.ofNat (Endian.value (Endian.word n.toUInt16)))) rest = _
    rw [value_word, int16_ofNat_toUInt16]
  | word n =>
    rw [Source.term_constant scope parenthesised fuel (by simp) rfl hdrop]
    show EStateM.Result.ok (Value.ofInt (Endian.value (Endian.word n))) rest = _
    rw [value_word]
    rfl

theorem term_atom (gap : Blanks) (a : Atom) (hrest : Delimited rest) :
    term scope parenthesised (fuel + 1) (gap.val ++ (a.code ++ rest)) = .ok (a.value scope) rest := by
  have hdrop : (gap.val ++ (a.code ++ rest)).dropWhile isBlank = a.code ++ rest := by
    obtain ⟨b, more, hcode, hb⟩ := a.isBlank_head
    rw [hcode, List.cons_append, gap.dropWhile hb]
  generalize gap.val ++ (a.code ++ rest) = code at hdrop
  cases a with
  | text inside =>
    have hdrop : code.dropWhile isBlank = quote :: (inside.val ++ quote :: rest) :=
      hdrop.trans (by simp [Atom.code])
    have hread : term scope parenthesised (fuel + 1) code =
        (modifyGet fun code => (Value.string (Text.ofBytes (splitString code).1),
          (splitString code).2) : Scanner Value) (inside.val ++ quote :: rest) := by
      simp only [term, Effect.bind_apply, next?_apply, hdrop]
      rfl
    rw [hread, Effect.modifyGet_apply, splitString_literal]
    rfl
  | whole n => exact term_whole scope parenthesised fuel n hdrop
  | single x =>
    rw [Source.term_constant scope parenthesised fuel (by simp) rfl hdrop, Source.constant_single]
    rfl
  | name n =>
    have hletter : isLetter n.first = true → n.first ≠ endLine ∧ n.first ≠ colon :=
      forall_byte (P := fun b => isLetter b = true → b ≠ endLine ∧ b ≠ colon) (by decide +kernel)
        n.first
    obtain ⟨hend, hcolon⟩ := hletter n.isLetter_first
    have hname := name_code n hrest
    have hhead : code.dropWhile isBlank = n.first :: (n.others ++ n.mark.toList ++ rest) := hdrop
    rw [VariableName.code, List.cons_append, List.cons_append, List.append_assoc] at hname
    rw [List.append_assoc] at hhead
    simp [term, hhead, hend, hcolon, n.isLetter_first, hname, Atom.value]
  | err =>
    simp only [term, Effect.bind_apply, next?_apply, hdrop]
    rfl
  | erl =>
    simp only [term, Effect.bind_apply, next?_apply, hdrop]
    rfl

end Atoms

/-! ## Reading trees -/

/-- Reading ends in the error of an evaluation, or goes on with its value. -/
def Comes (result : Except BasicError Value) (go : Value → EStateM.Result BasicError (List UInt8) Value)
    (x : EStateM.Result BasicError (List UInt8) Value) : Prop :=
  match result with
  | .ok v => x = go v
  | .error e => ∃ rest, x = .error e rest

namespace Comes

variable {result : Except BasicError Value} {next : Value → Except BasicError Value} {rest : List UInt8}
  {go : Value → EStateM.Result BasicError (List UInt8) Value} {p : Scanner Value}
  {f : Value → Scanner Value} {code : List UInt8}

/-- One evaluation after the other. -/
theorem bind (h : Comes result (.ok · rest) (p code))
    (hf : ∀ v, result = .ok v → Comes (next v) go (f v rest)) :
    Comes (result >>= next) go ((p >>= f) code) := by
  cases result with
  | error e =>
    obtain ⟨rest', hp⟩ := h
    exact ⟨rest', by simp [hp]⟩
  | ok v =>
    have hp : p code = .ok v rest := h
    have hrun : (p >>= f) code = f v rest := by simp [hp]
    rw [hrun]
    exact hf v rfl

/-- The value that was read goes on. -/
theorem seq (h : Comes result (.ok · rest) (p code)) : Comes result (f · rest) ((p >>= f) code) := by
  cases result with
  | error e =>
    obtain ⟨rest', hp⟩ := h
    exact ⟨rest', by simp [hp]⟩
  | ok v =>
    have hp : p code = .ok v rest := h
    show (p >>= f) code = f v rest
    simp [hp]

/-- A result is computed from what was read. -/
theorem ofExcept (result : Except BasicError Value) (rest : List UInt8) :
    Comes result (.ok · rest) (Expression.ofExcept result rest) := by
  cases result with
  | ok v => rfl
  | error e => exact ⟨rest, rfl⟩

end Comes

/-- Where a sum is over, its value is the result. -/
theorem sum_of_stop (operand : Scanner Value) (fuel : Nat) (v : Value) (gap : Blanks) {b : UInt8}
    (hb : b ∈ [endLine, colon, comma, semicolon, closeParen]) (rest : List UInt8) :
    sum operand (fuel + 1) v (gap.val ++ b :: rest) = .ok v (b :: rest) := by
  obtain ⟨hblank, hplus, hminus⟩ :
      isBlank b = false ∧ b ≠ Operator.plus.code ∧ b ≠ Operator.minus.code := by
    simp only [List.mem_cons, List.not_mem_nil, or_false] at hb
    rcases hb with rfl | rfl | rfl | rfl | rfl <;> decide
  rw [Source.sum_apply, gap.dropWhile hblank]
  simp [hplus, hminus]

namespace Tree

theorem operators_le {rank : Rank} (t : Tree rank) : t.operators ≤ t.code.length := by
  induction t with
  | add left gap right ihl ihr =>
    simp only [operators, code, List.length_append, List.length_cons]
    omega
  | subtract left gap right ihl ihr =>
    simp only [operators, code, List.length_append, List.length_cons]
    omega
  | _ => exact Nat.zero_le _

/-- How the code of a tree is read, whatever follows it: an operand as a term, and a sum as a first
term and as many more as it has operators. -/
def Reads (scope : Scope) : {rank : Rank} → Tree rank → Prop
  | .operand, t => ∀ depth fuel rest, t.code.length ≤ depth → t.code.length < fuel → Delimited rest →
      Comes (t.eval scope) (.ok · rest) (term scope (nested scope depth) fuel (t.code ++ rest))
  | .sum, t => ∀ depth fuel more rest, t.code.length ≤ depth → t.code.length < fuel →
      t.operators ≤ more → Delimited rest →
      Comes (t.eval scope)
        (fun v => sum (term scope (nested scope depth) fuel) (more - t.operators) v rest)
        ((term scope (nested scope depth) fuel >>= sum (term scope (nested scope depth) fuel) more)
          (t.code ++ rest))

/-- A sum up to its end. -/
theorem Reads.nested {scope : Scope} {t : Tree .sum} (h : t.Reads scope) (depth : Nat)
    (hdepth : t.code.length < depth) (gap : Blanks) {b : UInt8}
    (hb : b ∈ [endLine, colon, comma, semicolon, closeParen]) (rest : List UInt8) :
    Comes (t.eval scope) (.ok · (b :: rest))
      (Expression.nested scope depth (t.code ++ (gap.val ++ b :: rest))) := by
  obtain ⟨depth, rfl⟩ := Nat.exists_eq_add_one.2 (Nat.zero_lt_of_lt hdepth)
  have hlength : t.code.length < (t.code ++ (gap.val ++ b :: rest)).length + 1 := by
    rw [List.length_append]
    omega
  have hname : isNameByte b = false ∧ isSigil b = false := by
    simp only [List.mem_cons, List.not_mem_nil, or_false] at hb
    rcases hb with rfl | rfl | rfl | rfl | rfl <;> decide
  have hread := h depth _ _ _ (Nat.le_of_lt_succ hdepth) hlength
    (Nat.le_trans t.operators_le (Nat.le_of_lt hlength)) (gap.delimited hname rest)
  -- some fuel is left for the end of the sum
  have hleft : (t.code ++ (gap.val ++ b :: rest)).length + 1 - t.operators =
      (t.code ++ (gap.val ++ b :: rest)).length - t.operators + 1 := by
    have := t.operators_le
    omega
  rw [hleft] at hread
  simp only [sum_of_stop _ _ _ gap hb rest] at hread
  exact hread

/-- One more operand, joined to a sum by an operator. -/
theorem Reads.join {scope : Scope} {left joined : Tree .sum} {right : Tree .operand}
    (hleft : left.Reads scope) (hright : right.Reads scope) (gap : Blanks) {o : UInt8}
    {combine : Value → Value → Except BasicError Value}
    (ho : isNameByte o = false ∧ isSigil o = false)
    (hsum : ∀ operand fuel v code, sum operand (fuel + 1) v (gap.val ++ o :: code) =
      (do sum operand fuel (← do ofExcept (combine v (← operand))) : Scanner Value) code)
    (hcode : joined.code = left.code ++ (gap.val ++ o :: right.code))
    (heval : joined.eval scope = do combine (← left.eval scope) (← right.eval scope))
    (hoperators : joined.operators = left.operators + 1) : joined.Reads scope := by
  intro depth fuel more rest hdepth hfuel hmore hrest
  have hlength : joined.code.length = left.code.length + (gap.val.length + (right.code.length + 1)) := by
    rw [hcode]
    simp
  have happend : joined.code ++ rest = left.code ++ (gap.val ++ o :: (right.code ++ rest)) := by
    rw [hcode]
    simp
  have hfirst := hleft depth fuel more (gap.val ++ o :: (right.code ++ rest)) (by omega) (by omega)
    (by omega) (gap.delimited ho _)
  rw [happend, heval]
  cases hvalue : left.eval scope with
  | error e =>
    rw [hvalue] at hfirst
    exact hfirst
  | ok v =>
    rw [hvalue] at hfirst
    have hsecond := hright depth fuel rest (by omega) (by omega) hrest
    have hfuel : more - left.operators = more - joined.operators + 1 := by omega
    have hfirst : _ = sum (term scope (Expression.nested scope depth) fuel) (more - left.operators) v
      (gap.val ++ o :: (right.code ++ rest)) := hfirst
    rw [hfirst, hfuel, hsum]
    exact hsecond.bind fun w _ => (Comes.ofExcept (combine v w) rest).seq

theorem reads {rank : Rank} (t : Tree rank) (scope : Scope) : t.Reads scope := by
  induction t with
  | atom gap a =>
    intro depth fuel rest hdepth hfuel hrest
    obtain ⟨fuel, rfl⟩ := Nat.exists_eq_add_one.2 (Nat.zero_lt_of_lt hfuel)
    show term scope _ (fuel + 1) (gap.val ++ a.code ++ rest) = .ok (a.value scope) rest
    rw [List.append_assoc, term_atom scope _ fuel gap a hrest]
  | plus gap t ih =>
    intro depth fuel rest hdepth hfuel hrest
    simp only [code, List.length_append, List.length_cons] at hdepth hfuel
    obtain ⟨fuel, rfl⟩ := Nat.exists_eq_add_one.2 (Nat.zero_lt_of_lt hfuel)
    have hread := ih depth fuel rest (by omega) (by omega) hrest
    have hrun : term scope (Expression.nested scope depth) (fuel + 1) ((plus gap t).code ++ rest) =
        term scope (Expression.nested scope depth) fuel (t.code ++ rest) := by
      rw [code, List.append_assoc, List.cons_append]
      simp only [term, Effect.bind_apply, next?_apply, gap.dropWhile (b := Operator.plus.code) (by decide)]
      rfl
    rw [hrun]
    exact hread
  | minus gap t ih =>
    intro depth fuel rest hdepth hfuel hrest
    simp only [code, List.length_append, List.length_cons] at hdepth hfuel
    obtain ⟨fuel, rfl⟩ := Nat.exists_eq_add_one.2 (Nat.zero_lt_of_lt hfuel)
    have hread := ih depth fuel rest (by omega) (by omega) hrest
    have hrun : term scope (Expression.nested scope depth) (fuel + 1) ((minus gap t).code ++ rest) =
        (do ofExcept (← term scope (Expression.nested scope depth) fuel).negate : Scanner Value)
          (t.code ++ rest) := by
      rw [code, List.append_assoc, List.cons_append]
      simp only [term, Effect.bind_apply, next?_apply, gap.dropWhile (b := Operator.minus.code) (by decide)]
      rfl
    rw [hrun]
    exact hread.bind fun v _ => .ofExcept v.negate rest
  | parens gap t gap' ih =>
    intro depth fuel rest hdepth hfuel hrest
    simp only [code, List.length_append, List.length_cons] at hdepth hfuel
    obtain ⟨fuel, rfl⟩ := Nat.exists_eq_add_one.2 (Nat.zero_lt_of_lt hfuel)
    have hinside := ih.nested depth (by omega) gap' (b := closeParen) (by decide) rest
    have hrun : term scope (Expression.nested scope depth) (fuel + 1) ((parens gap t gap').code ++ rest) =
        (do
          let v ← Expression.nested scope depth
          expect [closeParen]
          return v : Scanner Value) (t.code ++ (gap'.val ++ closeParen :: rest)) := by
      have happend : (parens gap t gap').code ++ rest =
          gap.val ++ openParen :: (t.code ++ (gap'.val ++ closeParen :: rest)) := by
        simp [code]
      rw [happend]
      simp only [term, Effect.bind_apply, next?_apply, gap.dropWhile (b := openParen) (by decide)]
      rfl
    rw [hrun]
    exact hinside.seq
  | operand t ih =>
    intro depth fuel more rest hdepth hfuel hmore hrest
    exact (ih depth fuel rest hdepth hfuel hrest).seq
  | add left gap right ihl ihr =>
    refine ihl.join ihr gap (o := Operator.plus.code) (by decide) ?_ rfl rfl rfl
    intro operand fuel v code
    rw [Source.sum_apply, gap.dropWhile (by decide)]
    rfl
  | subtract left gap right ihl ihr =>
    refine ihl.join ihr gap (o := Operator.minus.code) (by decide) ?_ rfl rfl rfl
    intro operand fuel v code
    rw [Source.sum_apply, gap.dropWhile (by decide)]
    rfl

end Tree

/-! ## Expressions in a session -/

section Scan

variable {s : Session} {t : Tree .sum} {gap : Blanks} {b : UInt8} {rest : List UInt8}

/-- An expression is read where the session stands. -/
theorem comes_of_code (hb : b ∈ [endLine, colon, comma, semicolon, closeParen])
    (hcode : s.stream.rest = t.code ++ (gap.val ++ b :: rest)) :
    Comes (t.eval s.scope) (.ok · (b :: rest)) (value s.scope s.stream.rest) := by
  have hread := (t.reads s.scope).nested (s.stream.rest.length + 1)
    (by rw [hcode, List.length_append]; omega) gap hb rest
  rwa [← hcode] at hread

/-- An expression that has a value is read up to the byte that ends it. -/
theorem scan_value_of_eval {v : Value} (hb : b ∈ [endLine, colon, comma, semicolon, closeParen])
    (hcode : s.stream.rest = t.code ++ (gap.val ++ b :: rest)) (heval : t.eval s.scope = .ok v) :
    ∃ pos, Session.scan (value s.scope) s = .ok v (s.moveTo pos) ∧
      pos = s.stream.pos + t.code.length + gap.val.length ∧ (s.moveTo pos).stream.rest = b :: rest := by
  have hread := comes_of_code hb hcode
  rw [heval] at hread
  have hvalue : value s.scope s.stream.rest = .ok v (b :: rest) := hread
  refine ⟨_, by rw [Session.scan_apply, hvalue], ?_, ?_⟩
  · rw [hcode]
    simp only [List.length_append, List.length_cons]
    omega
  · refine Session.rest_moveTo ⟨t.code ++ gap.val, ?_⟩
    rw [hcode, List.append_assoc]

/-- An expression that has no value is read up to its first error. -/
theorem scan_value_of_error {e : BasicError} (hb : b ∈ [endLine, colon, comma, semicolon, closeParen])
    (hcode : s.stream.rest = t.code ++ (gap.val ++ b :: rest)) (heval : t.eval s.scope = .error e) :
    ∃ pos, Session.scan (value s.scope) s = .error e (s.moveTo pos) := by
  have hread := comes_of_code hb hcode
  rw [heval] at hread
  obtain ⟨rest', hvalue⟩ := hread
  exact ⟨_, by rw [Session.scan_apply, hvalue]⟩

end Scan

/-- The code of an expression stands before the end of a line or a statement, a comma, a semicolon or a
closing parenthesis, perhaps with blanks between.  If its tree has a value, the session reads that value
and stands at that byte, and nothing else has changed.  If not, it reads the first error. -/
theorem value_of_tree (s : Session) (t : Tree .sum) (gap : Blanks) {b : UInt8} {rest : List UInt8}
    (hb : b ∈ [endLine, colon, comma, semicolon, closeParen])
    (hcode : s.stream.rest = t.code ++ (gap.val ++ b :: rest)) :
    (∀ v, t.eval s.scope = .ok v → ∃ pos, Session.scan (value s.scope) s = .ok v (s.moveTo pos) ∧
      pos = s.stream.pos + t.code.length + gap.val.length ∧ (s.moveTo pos).stream.rest = b :: rest) ∧
    ∀ e, t.eval s.scope = .error e → ∃ pos, Session.scan (value s.scope) s = .error e (s.moveTo pos) := by
  constructor
  · intro v heval
    exact scan_value_of_eval hb hcode heval
  · intro e heval
    exact scan_value_of_error hb hcode heval

/-- No blanks. -/
def tight : Blanks := ⟨[], by simp⟩

/-- One space. -/
def spaced : Blanks := ⟨[space], by simp [isBlank]⟩

/-- The name `a%`. -/
def aPercent : VariableName :=
  ⟨0x61, [], some 0x25, by decide, by simp, by rintro b ⟨⟩; decide⟩

/-- The tree of `-(a%+7)-300 +1`. -/
def countdown : Tree .sum :=
  .add
    (.subtract
      (.operand (.minus tight (.parens tight
        (.add (.operand (.atom tight (.name aPercent))) tight (.atom tight (.whole (.small 7)))) tight)))
      tight (.atom tight (.whole (.integer 300))))
    spaced (.atom tight (.whole (.small 1)))

/-- A direct line that prints this and something else. -/
def printing : Session where
  direct :=
    { bytes := [0x91, 0xEA, 0x28, 0x61, 0x25, 0xE9, 0x18, 0x29, 0xEA, 0x1C, 0x2C, 0x01, 0x20, 0xE9, 0x12,
        0x20, semicolon, 0x13, endLine]
      pos := 1 }

/-- The sum is read up to the semicolon, though one byte of a number is a comma. -/
theorem printing_value :
    Session.scan (value printing.scope) printing = .ok (.integer (-306)) (printing.moveTo 16) ∧
      (printing.moveTo 16).stream.rest = [semicolon, 0x13, endLine] := by
  have hcode : printing.stream.rest = countdown.code ++ (spaced.val ++ semicolon :: [0x13, endLine]) := by
    decide
  have heval : countdown.eval printing.scope = .ok (.integer (-306)) := by
    decide +kernel
  obtain ⟨pos, hscan, hpos, hrest⟩ :=
    (value_of_tree printing countdown spaced (by decide) hcode).1 _ heval
  have hpos : pos = 16 := hpos
  subst hpos
  exact ⟨hscan, hrest⟩

end LineBasic.Expression

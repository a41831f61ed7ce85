import LineBasic.Code.Stream

/-!
# Running scanners

What the operations of a stateful computation, and the scanners built from them, give on a state.

* `Effect.bind_apply` and its companions run a computation one operation at a time.
* `Effect.Always`: what relates the state that a computation leaves to the one it began in.
* `Scan.next?_apply`, `Scan.readNext?_apply` and the rest: single scanners, by the bytes to come.
-/

namespace LineBasic

namespace Effect

variable {ε σ α β : Type}

@[simp] theorem bind_apply (x : EStateM ε σ α) (f : α → EStateM ε σ β) (s : σ) :
    (x >>= f) s =
      match x s with
      | .ok a s => f a s
      | .error e s => .error e s := rfl

@[simp] theorem pure_apply (a : α) (s : σ) : (pure a : EStateM ε σ α) s = .ok a s := rfl

@[simp] theorem throw_apply (e : ε) (s : σ) : (throw e : EStateM ε σ α) s = .error e s := rfl

@[simp] theorem get_apply (s : σ) : (get : EStateM ε σ σ) s = .ok s s := rfl

@[simp] theorem set_apply (s t : σ) : (set t : EStateM ε σ PUnit) s = .ok ⟨⟩ t := rfl

@[simp] theorem modify_apply (f : σ → σ) (s : σ) :
    (modify f : EStateM ε σ PUnit) s = .ok ⟨⟩ (f s) := rfl

@[simp] theorem modifyGet_apply (f : σ → α × σ) (s : σ) :
    (modifyGet f : EStateM ε σ α) s = .ok (f s).1 (f s).2 := rfl

@[simp] theorem map_apply (f : α → β) (x : EStateM ε σ α) (s : σ) :
    (f <$> x) s =
      match x s with
      | .ok a s => .ok (f a) s
      | .error e s => .error e s := rfl

theorem tryCatch_of_error {x : EStateM ε σ α} {f : ε → EStateM ε σ α} {s t : σ} {e : ε}
    (h : x s = .error e t) : tryCatch x f s = f e t := by
  show EStateM.tryCatch x f s = f e t
  delta EStateM.tryCatch
  simp only [h]
  rfl

theorem tryCatch_of_ok {x : EStateM ε σ α} {f : ε → EStateM ε σ α} {s t : σ} {a : α}
    (h : x s = .ok a t) : tryCatch x f s = .ok a t := by
  show EStateM.tryCatch x f s = .ok a t
  delta EStateM.tryCatch
  simp only [h]

@[simp] theorem ite_apply (c : Prop) [Decidable c] (x y : EStateM ε σ α) (s : σ) :
    (if c then x else y) s = if c then x s else y s := by
  split <;> rfl

/-- Two steps succeed exactly if each does. -/
theorem bind_eq_ok {x : Except ε α} {f : α → Except ε β} {b : β} :
    x >>= f = .ok b ↔ ∃ a, x = .ok a ∧ f a = .ok b := by
  cases x <;> simp [bind, Except.bind]

theorem bind_eq_error {x : Except ε α} {f : α → Except ε β} {e : ε} :
    x >>= f = .error e ↔ x = .error e ∨ ∃ a, x = .ok a ∧ f a = .error e := by
  cases x <;> simp [bind, Except.bind]

/-- What an operation leaves, whether it succeeds or fails. -/
def left : EStateM.Result ε σ α → σ
  | .ok _ s => s
  | .error _ s => s

/-- Whether it succeeds or fails, an operation leaves a state that is related to the one it began in. -/
def Always (R : σ → σ → Prop) (x : EStateM ε σ α) : Prop :=
  ∀ s, R s (left (x s))

section Always

variable {P Q R : σ → σ → Prop} {x : EStateM ε σ α}

/-- A weaker relation holds too. -/
theorem Always.mono (hx : Always R x) (h : ∀ s t, R s t → P s t) : Always P x :=
  fun s => h s _ (hx s)

/-- Two operations, one after the other: the first may fail, or the second goes on from what it leaves. -/
theorem Always.bind {f : α → EStateM ε σ β} (hx : Always R x) (hf : ∀ a, Always Q (f a))
    (hstop : ∀ s t, R s t → P s t) (hgo : ∀ s t u, R s t → Q t u → P s u) : Always P (x >>= f) := by
  intro s
  have hs := hx s
  rw [bind_apply]
  cases h : x s with
  | ok a t =>
    rw [h] at hs
    exact hgo s t _ hs (hf a t)
  | error e t =>
    rw [h] at hs
    exact hstop s t hs

/-- An operation and what is made of its failure. -/
theorem Always.recover {f : ε → EStateM ε σ α} (hx : Always R x) (hf : ∀ e, Always Q (f e))
    (hstop : ∀ s t, R s t → P s t) (hgo : ∀ s t u, R s t → Q t u → P s u) : Always P (tryCatch x f) := by
  intro s
  have hs := hx s
  cases h : x s with
  | ok a t =>
    rw [h] at hs
    rw [tryCatch_of_ok h]
    exact hstop s t hs
  | error e t =>
    rw [h] at hs
    rw [tryCatch_of_error h]
    exact hgo s t _ hs (hf e t)

theorem Always.ite {c : Prop} [Decidable c] {y : EStateM ε σ α} (hx : Always R x) (hy : Always R y) :
    Always R (if c then x else y) := by
  split
  · exact hx
  · exact hy

end Always

end Effect

namespace Scan

open Token

@[simp] theorem lineMarker?_apply (code : List UInt8) :
    lineMarker? code = .ok (lineMarker code).1 (lineMarker code).2 := rfl

@[simp] theorem skipWhile_apply (p : UInt8 → Bool) (code : List UInt8) :
    skipWhile p code = .ok ⟨⟩ (code.dropWhile p) := rfl

@[simp] theorem byte?_apply (code : List UInt8) : byte? code = .ok code.head? code.tail := by
  cases code <;> rfl

@[simp] theorem peek?_apply (code : List UInt8) : peek? code = .ok code.head? code := rfl

@[simp] theorem next?_apply (code : List UInt8) :
    next? code = .ok (code.dropWhile isBlank).head? (code.dropWhile isBlank) := rfl

@[simp] theorem readNext?_apply (code : List UInt8) :
    readNext? code = .ok (code.dropWhile isBlank).head? (code.dropWhile isBlank).tail := by
  simp [readNext?]

end Scan

end LineBasic

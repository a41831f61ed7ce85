import LineBasic.Collection.Queue

/-!
# The ends of a queue

What is pushed at one end of a queue is taken at any of its ends, and in the order in which it was pushed.
The ends of other queues see nothing of it.

* `SharedQueues.Joined`: two ends of one queue.
* `SharedQueues.Action`: what is done at the ends, and the making of new ones.
* `SharedQueues.taken_append_items`: whatever is done, nothing that has been pushed is lost, doubled or
  overtaken.
* `SharedQueues.joined_share`, `SharedQueues.queue_restore`: a new end of the same queue, and of a new one.
-/

namespace LineBasic

/-- What leaves a queue was its first item. -/
theorem Queue.toList_pop_append_items {α : Type} (q : Queue α) :
    q.pop.1.toList ++ q.pop.2.items = q.items := by
  unfold Queue.pop
  split
  · rename_i hitems
    rw [hitems]
    rfl
  · rename_i hitems
    rw [hitems]
    rfl

namespace SharedQueues

variable {α : Type}

/-- Every end reaches a queue. -/
def Sound (s : SharedQueues α) : Prop :=
  ∀ k ∈ s.ends, k < s.queues.length

/-- Two ends of one queue. -/
def Joined (s : SharedQueues α) (i j : Nat) : Prop :=
  s.ends[i]? = s.ends[j]?

instance (s : SharedQueues α) (i j : Nat) : Decidable (s.Joined i j) :=
  inferInstanceAs (Decidable (s.ends[i]? = s.ends[j]?))

/-- What is done at an end, or makes a new one. -/
inductive Action (α : Type) where
  | push (i : Nat) (a : α)
  | pop (i : Nat)
  | clear (i : Nat)
  | share (i : Nat)
  | restore

namespace Action

/-- The queues after an action. -/
def perform (s : SharedQueues α) : Action α → SharedQueues α
  | push i a => s.push i a
  | pop i => (s.pop i).2
  | clear i => s.clear i
  | share i => s.share i
  | restore => s.restore

/-- What an action adds to the queue of an end. -/
def added (s : SharedQueues α) (i : Nat) : Action α → List α
  | push j a => if s.Joined i j then [a] else []
  | _ => []

/-- What an action takes from the queue of an end: its first item, or all of them. -/
def taken (s : SharedQueues α) (i : Nat) : Action α → List α
  | pop j => if s.Joined i j then (s.pop j).1.toList else []
  | clear j => if s.Joined i j then (s.queue j).items else []
  | _ => []

end Action

/-- The queues after some actions. -/
def run (s : SharedQueues α) (actions : List (Action α)) : SharedQueues α :=
  actions.foldl Action.perform s

/-- What some actions add to the queue of an end, first to last. -/
def added (s : SharedQueues α) (i : Nat) : List (Action α) → List α
  | [] => []
  | action :: rest => action.added s i ++ (action.perform s).added i rest

/-- What some actions take from the queue of an end, first to last. -/
def taken (s : SharedQueues α) (i : Nat) : List (Action α) → List α
  | [] => []
  | action :: rest => action.taken s i ++ (action.perform s).taken i rest

variable {s : SharedQueues α} {i j : Nat}

/-! ## Replacing a queue -/

@[simp] theorem ends_update (s : SharedQueues α) (i : Nat) (q : Queue α) :
    (s.update i q).ends = s.ends := by
  unfold update
  split <;> rfl

@[simp] theorem length_queues_update (s : SharedQueues α) (i : Nat) (q : Queue α) :
    (s.update i q).queues.length = s.queues.length := by
  unfold update
  split
  · exact List.length_set
  · rfl

theorem sound_single : (single : SharedQueues α).Sound := by
  intro k hk
  rw [List.mem_singleton.1 hk]
  exact Nat.one_pos

/-- Replacing a queue keeps every end attached. -/
theorem Sound.update (hs : s.Sound) (i : Nat) (q : Queue α) : (s.update i q).Sound := by
  intro k hk
  rw [ends_update] at hk
  rw [length_queues_update]
  exact hs k hk

/-- The queue of an end, by its index. -/
theorem Sound.exists_queue (hs : s.Sound) (hi : i < s.ends.length) :
    ∃ k, s.ends[i]? = some k ∧ k < s.queues.length ∧ s.queues[k]? = some (s.queue i) := by
  have hend : s.ends[i]? = some s.ends[i] := List.getElem?_eq_getElem hi
  have hlt := hs _ (List.getElem_mem hi)
  refine ⟨s.ends[i], hend, hlt, ?_⟩
  rw [queue, hend, Option.bind_some, List.getElem?_eq_getElem hlt]
  rfl

/-- Joined ends have the same queue. -/
theorem Joined.queue_eq (h : s.Joined i j) : s.queue i = s.queue j := by
  rw [queue, queue, h]

/-- A queue is replaced for all its ends, and for no other. -/
theorem Sound.queue_update (hs : s.Sound) (hi : i < s.ends.length) (j : Nat) (q : Queue α) :
    (s.update j q).queue i = if s.Joined i j then q else s.queue i := by
  obtain ⟨k, hend, hlt, hqueue⟩ := hs.exists_queue hi
  by_cases hjoined : s.Joined i j
  · have hsame : s.ends[j]? = some k := hjoined.symm.trans hend
    rw [if_pos hjoined, SharedQueues.update, hsame, queue, hend, Option.bind_some, List.getElem?_set_self hlt]
    rfl
  · rw [if_neg hjoined, SharedQueues.update]
    cases hother : s.ends[j]? with
    | none => rfl
    | some l =>
      have hne : l ≠ k := by
        rintro rfl
        exact hjoined (hend.trans hother.symm)
      rw [queue, hend, Option.bind_some, List.getElem?_set_ne hne, hqueue]
      rfl

/-! ## New ends -/

theorem length_ends_share (s : SharedQueues α) (i : Nat) :
    s.ends.length ≤ (s.share i).ends.length := by
  unfold share
  split
  · simp
  · exact Nat.le_refl _

theorem Sound.share (hs : s.Sound) (i : Nat) : (s.share i).Sound := by
  unfold SharedQueues.share
  split
  · rename_i k hk
    intro l hl
    obtain hl | hl := List.mem_append.1 hl
    · exact hs l hl
    · rw [List.mem_singleton.1 hl]
      exact hs k (List.mem_of_getElem? hk)
  · exact hs

theorem Sound.restore (hs : s.Sound) : s.restore.Sound := by
  intro l hl
  have hlength : s.restore.queues.length = s.queues.length + 1 := List.length_append
  rw [hlength]
  obtain hl | hl := List.mem_append.1 hl
  · exact Nat.lt_succ_of_lt (hs l hl)
  · rw [List.mem_singleton.1 hl]
    exact Nat.lt_succ_self _

theorem queue_share_of_lt (hi : i < s.ends.length) (j : Nat) : (s.share j).queue i = s.queue i := by
  unfold share
  split
  · rw [queue, List.getElem?_append_left hi]
    rfl
  · rfl

theorem Sound.queue_restore_of_lt (hs : s.Sound) (hi : i < s.ends.length) :
    s.restore.queue i = s.queue i := by
  obtain ⟨k, hend, hlt, hqueue⟩ := hs.exists_queue hi
  rw [queue, SharedQueues.restore, List.getElem?_append_left hi, hend, Option.bind_some,
    List.getElem?_append_left hlt, hqueue]
  rfl

/-- A shared end comes last, and is one of the same queue. -/
theorem joined_share (hi : i < s.ends.length) : (s.share i).Joined i s.ends.length := by
  have hend : s.ends[i]? = some s.ends[i] := List.getElem?_eq_getElem hi
  rw [Joined, share, hend, List.getElem?_append_left hi, List.getElem?_concat_length, hend]

/-- A restored end comes last, and nothing is in its queue. -/
theorem queue_restore (s : SharedQueues α) : s.restore.queue s.ends.length = ⟨[]⟩ := by
  rw [queue, restore, List.getElem?_concat_length, Option.bind_some, List.getElem?_concat_length]
  rfl

/-! ## What passes through a queue -/

theorem Sound.perform (hs : s.Sound) (action : Action α) : (action.perform s).Sound := by
  cases action with
  | push i a => exact hs.update i _
  | pop i => exact hs.update i _
  | clear i => exact hs.update i _
  | share i => exact hs.share i
  | restore => exact hs.restore

theorem Sound.run (hs : s.Sound) (actions : List (Action α)) : (s.run actions).Sound := by
  induction actions generalizing s with
  | nil => exact hs
  | cons action rest ih => exact ih (hs.perform action)

/-- Whatever is done from the start on, every end reaches a queue. -/
theorem sound_run (actions : List (Action α)) : ((single : SharedQueues α).run actions).Sound :=
  sound_single.run actions

theorem length_ends_perform (s : SharedQueues α) (action : Action α) :
    s.ends.length ≤ (action.perform s).ends.length := by
  have hupdate : ∀ i q, s.ends.length ≤ (s.update i q).ends.length := by simp
  cases action with
  | push i a => exact hupdate i _
  | pop i => exact hupdate i _
  | clear i => exact hupdate i _
  | share i => exact s.length_ends_share i
  | restore => simp [Action.perform, restore]

/-- One action: what it takes was first in the queue, and what it adds is last. -/
theorem Action.taken_append_items (action : Action α) (hs : s.Sound) (hi : i < s.ends.length) :
    action.taken s i ++ ((action.perform s).queue i).items = (s.queue i).items ++ action.added s i := by
  cases action with
  | push j a =>
    simp only [taken, perform, added, SharedQueues.push, hs.queue_update hi]
    by_cases hjoined : s.Joined i j
    · simp [hjoined, Queue.push, hjoined.queue_eq]
    · simp [hjoined]
  | pop j =>
    simp only [taken, perform, added, SharedQueues.pop, hs.queue_update hi, List.append_nil]
    by_cases hjoined : s.Joined i j
    · simp only [hjoined, if_true, hjoined.queue_eq, Queue.toList_pop_append_items]
    · simp [hjoined]
  | clear j =>
    simp only [taken, perform, added, SharedQueues.clear, hs.queue_update hi, List.append_nil]
    by_cases hjoined : s.Joined i j
    · simp [hjoined, Queue.clear, hjoined.queue_eq]
    · simp [hjoined]
  | share j => simp [taken, perform, added, queue_share_of_lt hi]
  | restore => simp [taken, perform, added, hs.queue_restore_of_lt hi]

/-- Any actions at any ends: what is taken at the ends of a queue, followed by what is left in it, is what
was in it, followed by what is pushed at its ends. -/
theorem taken_append_items (actions : List (Action α)) (hs : s.Sound) (hi : i < s.ends.length) :
    s.taken i actions ++ ((s.run actions).queue i).items = (s.queue i).items ++ s.added i actions := by
  induction actions generalizing s with
  | nil => rw [taken, added, List.append_nil]; rfl
  | cons action rest ih =>
    have hrest := ih (hs.perform action) (Nat.lt_of_lt_of_le hi (s.length_ends_perform action))
    have hrun : s.run (action :: rest) = (action.perform s).run rest := rfl
    calc s.taken i (action :: rest) ++ ((s.run (action :: rest)).queue i).items
        = action.taken s i ++
            ((action.perform s).taken i rest ++ (((action.perform s).run rest).queue i).items) := by
          rw [taken, hrun, List.append_assoc]
      _ = action.taken s i ++
            (((action.perform s).queue i).items ++ (action.perform s).added i rest) := by rw [hrest]
      _ = (s.queue i).items ++ (action.added s i ++ (action.perform s).added i rest) := by
          rw [← List.append_assoc, action.taken_append_items hs hi, List.append_assoc]

end SharedQueues

end LineBasic

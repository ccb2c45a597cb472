import AtomicFifo.Proofs.Call.Knowledge

/-!
# Calls that go on alone

At whatever point a call stands, and however old the values are that its thread has read, it
returns after a few steps of its own if nobody else moves: values that are out of date cost it
one failed exchange, a tail that lags costs it one round of helping, and then it succeeds.

* `stepsLeft_step`   each step of the call leaves it fewer steps
* `stepsLeft_le`     there are never more than thirteen
* `items_step`       what a step does to the items and to what the call owes of them
-/

namespace AtomicFifo.Call

universe u

open Links

variable {α : Type u} {s : Shared α} {c : Call α}

/-- The steps of a dequeue that has read the link of the head and the tail. -/
def stepsFromLink (s : Shared α) (head tail : NodeId) : Nat :=
  match s.next head with
  | none => 0
  | some _ =>
    if head = tail then (if s.tail = head then 7 else 11)
    else if s.head = head then 3
    else 11

/-- The steps of an enqueue that has read the tail. -/
def stepsFromTail (s : Shared α) (tail : NodeId) : Nat :=
  match s.next tail with
  | none => 2
  | some _ => if s.tail = tail then 5 else 8

/-- How many more steps a call takes at most if nobody else moves. -/
def stepsLeft (s : Shared α) : Call α → Nat
  | .allocate _ => 10
  | .announce _ => 9
  | .pin _ => 8
  | .readTail _ => stepsFromTail s s.tail + 2
  | .readTailLink _ tail => stepsFromTail s tail + 1
  -- An exchange that fails costs a whole round more.
  | .helpTail _ tail _ => if s.tail = tail then 5 else 8
  | .link _ tail => if s.next tail = none then 2 else 8
  | .swingTail _ _ => 1
  | .readHead => stepsFromLink s s.head s.tail + 3
  | .readHeadTail head => stepsFromLink s head s.tail + 2
  | .readHeadLink head tail => stepsFromLink s head tail + 1
  -- The same for a dequeue, whose rounds are longer.
  | .helpHead head _ => if s.tail = head then 7 else 11
  | .unlink head _ => if s.head = head then 3 else 11
  | .takeItem _ _ => 2
  | .discount _ => 1
  | .probeHead => 2
  | .probeLink _ => 1
  | .done _ => 0

/-- No tail makes an enqueue need more than eight steps from there. -/
private theorem stepsFromTail_le (s : Shared α) (tail : NodeId) : stepsFromTail s tail ≤ 8 := by
  unfold stepsFromTail
  split
  · decide
  · split <;> decide

/-- No tail makes a dequeue need more than eleven steps from there. -/
private theorem stepsFromLink_le (s : Shared α) (head tail : NodeId) :
    stepsFromLink s head tail ≤ 11 := by
  unfold stepsFromLink
  split
  · decide
  · split
    · split <;> decide
    · split <;> decide

/-- With what the tail is now, an enqueue helps at most once. -/
private theorem stepsFromTail_self_le (s : Shared α) : stepsFromTail s s.tail ≤ 5 := by
  unfold stepsFromTail
  split
  · decide
  · simp

/-- With what the head and the tail are now, a dequeue helps at most once. -/
theorem stepsFromLink_self_le (s : Shared α) : stepsFromLink s s.head s.tail ≤ 7 := by
  unfold stepsFromLink
  split
  · decide
  · split
    · rename_i heq
      simp [heq]
    · simp

/-- A call with an old value fails once, a call with a new one not at all. -/
theorem stepsLeft_le : c.stepsLeft s ≤ 13 := by
  cases c with
  | readTail node => have := stepsFromTail_le s s.tail; simp only [stepsLeft]; omega
  | readTailLink node tail => have := stepsFromTail_le s tail; simp only [stepsLeft]; omega
  | readHead => have := stepsFromLink_self_le s; simp only [stepsLeft]; omega
  | readHeadTail head => have := stepsFromLink_le s head s.tail; simp only [stepsLeft]; omega
  | readHeadLink head tail => have := stepsFromLink_le s head tail; simp only [stepsLeft]; omega
  | helpTail node tail next | link node tail | helpHead head next | unlink head next =>
    simp only [stepsLeft]
    split <;> decide
  | _ => simp [stepsLeft]

/-- A call that has returned takes no more steps, and only such a call. -/
theorem stepsLeft_pos (h : c.reply? = none) : 0 < c.stepsLeft s := by
  cases c with
  | done reply => cases h
  | helpTail node tail next | link node tail | helpHead head next | unlink head next =>
    simp only [stepsLeft]
    split <;> decide
  | _ => simp [stepsLeft]

/-- A tail that has just been helped stands on the last node. -/
private theorem stepsFromTail_of_lag (hs : s.Coherent) {next : NodeId}
    (hnext : s.next s.tail = some next) : stepsFromTail { s with tail := next } next = 2 := by
  have hlast : s.next next = none := by simpa [hnext] using hs.lag
  simp [stepsFromTail, hlast]

/-- A tail that has just been helped does not have to be helped for a dequeue either. -/
private theorem stepsFromLink_of_lag (hs : s.Coherent) {next : NodeId}
    (hnext : s.next s.tail = some next) :
    stepsFromLink { s with tail := next } s.head next ≤ 3 := by
  have hlast : s.next next = none := by simpa [hnext] using hs.lag
  unfold stepsFromLink
  split
  · decide
  · rename_i m hm
    -- The head has a link and the new tail has none.
    have hne : s.head ≠ next := by
      intro heq
      rw [Shared.next_tail, heq, hlast] at hm
      cases hm
    simp [hne]

/-- Each step of a call that goes on alone leaves it fewer steps. -/
theorem stepsLeft_step (memory : Bool) (hs : s.Coherent) (hk : c.Knows s)
    (hrun : c.reply? = none) :
    (c.step (.ofMemory memory) s).2.stepsLeft (c.step (.ofMemory memory) s).1 < c.stepsLeft s := by
  cases c with
  | allocate item => cases memory <;> simp [step, Shared.place, Grant.ofMemory, stepsLeft]
  | pin node =>
    have := stepsFromTail_self_le s
    simp only [step, stepsLeft]
    omega
  | readTailLink node tail =>
    simp only [step]
    split
    · rename_i next hnext
      simp [stepsLeft, stepsFromTail, hnext]
    · rename_i hnext
      simp [stepsLeft, stepsFromTail, hnext]
  | helpTail node tail next =>
    rcases exchangeTail_cases s tail next with ⟨rfl, h⟩ | ⟨hne, h⟩
    · -- The tail is helped to the last node, so the next round links.
      have := stepsFromTail_of_lag hs hk
      simp only [step, h, stepsLeft, this, ↓reduceIte]
      decide
    · -- The tail has moved since it was read; the next round reads it anew.
      have := stepsFromTail_self_le s
      simp only [step, h, stepsLeft, hne, ↓reduceIte]
      omega
  | link node tail =>
    rcases exchangeLink_cases hk node with ⟨hnone, rfl, h⟩ | ⟨hsome, h⟩
    · simp [step, h, stepsLeft, hnone]
    · -- Another node was linked there first, so a round is lost.
      have := stepsFromTail_self_le s
      have hne : s.next tail ≠ none := Option.isSome_iff_ne_none.1 hsome
      simp only [step, h, stepsLeft, hne, ↓reduceIte]
      omega
  | readHeadLink head tail =>
    simp only [step]
    split
    · simp [stepsLeft]
    · rename_i next hnext
      by_cases heq : head = tail
      · subst heq
        simp [stepsLeft, stepsFromLink, hnext]
      · simp [stepsLeft, stepsFromLink, hnext, heq]
  | helpHead head next =>
    rcases exchangeTail_cases s head next with ⟨rfl, h⟩ | ⟨hne, h⟩
    · -- The tail is helped off the head, so the next round unlinks, or finds nothing.
      have := stepsFromLink_of_lag hs hk
      simp only [step, h, stepsLeft, ↓reduceIte]
      omega
    · have := stepsFromLink_self_le s
      simp only [step, h, stepsLeft, hne, ↓reduceIte]
      omega
  | unlink head next =>
    rcases exchangeHead_cases s head next with ⟨rfl, h⟩ | ⟨hne, h⟩
    · simp [step, h, stepsLeft]
    · -- The head has moved since it was read, which costs a round as well.
      have := stepsFromLink_self_le s
      simp only [step, h, stepsLeft, hne, ↓reduceIte]
      omega
  | done reply => cases hrun
  | _ => simp [step, stepsLeft]

/-! ### Items under way -/

/-- The items that a call has still to put into the queue, or has taken out of it and not
answered yet. -/
def owed : Call α → Nat
  | .allocate _ | .announce _ | .pin _ | .readTail _ => 1
  | .readTailLink _ _ | .helpTail _ _ _ | .link _ _ => 1
  | .takeItem _ _ | .discount _ => 1
  | _ => 0

/-- A step that changes nothing of the items owes no more than before. -/
private theorem owed_step (memory : Bool) (h : c.effect? s = none) :
    (c.step (.ofMemory memory) s).2.owed ≤ c.owed := by
  cases c with
  | allocate item => cases memory <;> simp [step, Shared.place, Grant.ofMemory, owed]
  | readTailLink node tail =>
    simp only [step]
    split <;> exact Nat.le_refl _
  -- The exchange that links is an effect, so only one that fails is left.
  | link node tail =>
    rcases hexchange : s.exchangeLink tail node with ⟨s', linked⟩
    cases linked with
    | false => simp [step, hexchange, owed]
    | true => simp [effect?, hexchange] at h
  | readHeadLink head tail =>
    simp only [step]
    split
    · exact Nat.zero_le _
    · split <;> exact Nat.zero_le _
  -- And so is the exchange that moves the head.
  | unlink head next =>
    rcases hexchange : s.exchangeHead head next with ⟨s', moved⟩
    cases moved with
    | false => simp [step, hexchange, owed]
    | true => simp [effect?, hexchange] at h
  | _ => simp [step, owed]

/-- The items of a queue and those that a call owes are no more after a step than before. -/
theorem items_step (memory : Bool) (hs : s.Coherent) (hk : c.Knows s)
    (hn : ∀ n, c.node? = some n → s.Apart n) :
    (c.step (.ofMemory memory) s).1.items.length + (c.step (.ofMemory memory) s).2.owed ≤
      s.items.length + c.owed := by
  have hitems := (step_change memory hk hn).items hs
  -- Only the two exchanges that have an effect on the items settle what is owed.
  cases heffect : c.effect? s with
  | none =>
    rw [heffect] at hitems
    rw [hitems]
    exact Nat.add_le_add_left (owed_step memory heffect) _
  | some effect =>
    rw [heffect] at hitems
    cases c with
    | link node tail =>
      rcases exchangeLink_cases hk node with ⟨-, -, h⟩ | ⟨-, h⟩
      · -- The item is in the queue now, and the call owes it no longer.
        obtain rfl : .linked node = effect := by simpa [effect?, h] using heffect
        obtain ⟨a, -, happend⟩ := hitems
        rw [happend]
        simp [step, h, owed]
      · simp [effect?, h] at heffect
    | unlink head next =>
      rcases exchangeHead_cases s head next with ⟨-, h⟩ | ⟨-, h⟩
      · -- The item has left the queue, and the call owes it to its caller.
        obtain rfl : .unlinked next = effect := by simpa [effect?, h] using heffect
        obtain ⟨a, -, hcons⟩ := hitems
        rw [hcons]
        simp [step, h, owed]
      · simp [effect?, h] at heffect
    | _ => cases heffect

/-- A call that answers an item has owed it, and the step that answers it leaves the items as they
are. -/
theorem items_of_answer (memory : Bool) {a : α}
    (h : (c.step (.ofMemory memory) s).2.reply? = some (.dequeued (some a)))
    (hrun : c.reply? = none) :
    (c.step (.ofMemory memory) s).1.items = s.items ∧ c.owed = 1 := by
  cases c with
  -- The count is the last step of a dequeue that has found an item.
  | discount item => exact ⟨rfl, rfl⟩
  | allocate item => cases memory <;> cases h
  | readTailLink node tail | link node tail =>
    simp only [step] at h
    split at h <;> cases h
  | readHeadLink head tail =>
    simp only [step] at h
    split at h
    · cases h
    · split at h <;> cases h
  | unlink head next =>
    simp only [step] at h
    split at h <;> cases h
  | done reply => cases hrun
  | _ => cases h

end AtomicFifo.Call

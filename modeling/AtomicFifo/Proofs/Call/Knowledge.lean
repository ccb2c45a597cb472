import AtomicFifo.Proofs.Shared.Change

/-!
# What a thread knows at each point of a call

A thread works on values that it has read a while ago. `Call.Knows` lists what it may rely on
all the same: a tail that it has read still leads to the present tail, a link that it has read
still stands, and a head that it has read before the tail lies no further on. All of this is
stable, since links and items stay and the head and the tail move forward only; the node that
the call has allocated stays apart from the chain until the call itself links it.

* `Knows.grows`   no step of another thread takes away what a thread knows
* `step_change`   each step is one of the changes of `Shared.Change`
* `step_knows`    a step establishes what is known at the next point
* `step_apart`    a node that is the call's own after a step is apart from the chain
-/

namespace AtomicFifo.Call

universe u

open Links

variable {α : Type u} {s s' : Shared α} {c : Call α}

/-- What the thread at a point may rely on. -/
def Knows (s : Shared α) : Call α → Prop
  | .readTailLink _ tail => Reaches s.next tail s.tail
  | .helpTail _ tail next => s.next tail = some next
  | .link _ tail => Reaches s.next tail s.tail
  | .swingTail node tail => s.next tail = some node
  | .readHeadTail head => Reaches s.next head s.head
  -- The tail was read after the head, so it was not behind it.
  | .readHeadLink head tail =>
    Reaches s.next head s.head ∧ Reaches s.next head tail ∧ Reaches s.next tail s.tail
  | .helpHead head next => s.next head = some next
  | .unlink head next => s.next head = some next ∧ Reaches s.next next s.tail
  -- The head has moved on, and the node that it moved to holds an item.
  | .takeItem head next =>
    s.next head = some next ∧ Reaches s.next next s.head ∧ (s.item next).isSome
  | .discount item => item.isSome
  | .probeLink head => Reaches s.next head s.head
  | _ => True

/-- The node that a call has allocated and not linked yet. -/
def node? : Call α → Option NodeId
  | .announce node | .pin node | .readTail node => some node
  | .readTailLink node _ | .link node _ => some node
  | .helpTail node _ _ => some node
  | _ => none

/-- What a step does to the items: only an exchange that succeeds does anything. -/
def effect? (s : Shared α) : Call α → Option Shared.Effect
  | .link node tail => if (s.exchangeLink tail node).2 then some (.linked node) else none
  | .unlink head next => if (s.exchangeHead head next).2 then some (.unlinked next) else none
  | _ => none

/-- Only a link that succeeds links a node, and this is the call's own. -/
theorem node?_of_effect? {s : Shared α} {n : NodeId} (h : c.effect? s = some (.linked n)) :
    c.node? = some n := by
  cases c with
  | link node tail =>
    simp only [effect?] at h
    split at h
    · cases h
      rfl
    · cases h
  | unlink head next =>
    simp only [effect?] at h
    split at h <;> cases h
  | _ => cases h

/-- A node that is reached from the present tail was never beyond a later one. -/
private theorem reaches_grows_tail {n : NodeId} (hg : s.Grows s')
    (h : Reaches s.next n s.tail) : Reaches s'.next n s'.tail :=
  (h.mono hg.next).trans hg.tail

/-- A node that the head has come from stays behind the head. -/
private theorem reaches_grows_head {n : NodeId} (hg : s.Grows s')
    (h : Reaches s.next n s.head) : Reaches s'.next n s'.head :=
  (h.mono hg.next).trans hg.head

/-- What a call knows stays true while the queue goes on. -/
theorem Knows.grows (h : c.Knows s) (hg : s.Grows s') : c.Knows s' := by
  -- Links and items stay, and head and tail only move forward.
  cases c with
  | readTailLink node tail => exact reaches_grows_tail hg h
  | helpTail node tail next => exact hg.next _ _ h
  | link node tail => exact reaches_grows_tail hg h
  | swingTail node tail => exact hg.next _ _ h
  | readHeadTail head => exact reaches_grows_head hg h
  | readHeadLink head tail =>
    obtain ⟨hhead, htail, hlast⟩ := h
    exact ⟨reaches_grows_head hg hhead, htail.mono hg.next, reaches_grows_tail hg hlast⟩
  | helpHead head next => exact hg.next _ _ h
  | unlink head next =>
    obtain ⟨hnext, hlast⟩ := h
    exact ⟨hg.next _ _ hnext, reaches_grows_tail hg hlast⟩
  | takeItem head next =>
    obtain ⟨hnext, hhead, hitem⟩ := h
    obtain ⟨a, ha⟩ := Option.isSome_iff_exists.1 hitem
    exact ⟨hg.next _ _ hnext, reaches_grows_head hg hhead, by simp [hg.item _ a ha]⟩
  | probeLink head => exact reaches_grows_head hg h
  | _ => exact h

/-! ### The exchanges -/

/-- An exchange of the tail takes place just where the tail is as expected. -/
theorem exchangeTail_cases (s : Shared α) (old new : NodeId) :
    (s.tail = old ∧ s.exchangeTail old new = ({ s with tail := new }, true)) ∨
      (s.tail ≠ old ∧ s.exchangeTail old new = (s, false)) := by
  by_cases h : s.tail = old <;> simp [Shared.exchangeTail, h]

/-- An exchange of the head takes place just where the head is as expected. -/
theorem exchangeHead_cases (s : Shared α) (old new : NodeId) :
    (s.head = old ∧ s.exchangeHead old new = ({ s with head := new }, true)) ∨
      (s.head ≠ old ∧ s.exchangeHead old new = (s, false)) := by
  by_cases h : s.head = old <;> simp [Shared.exchangeHead, h]

/-- Linking behind a tail that was read succeeds only if this is still the tail. -/
theorem exchangeLink_cases {tail : NodeId} (htail : Reaches s.next tail s.tail) (node : NodeId) :
    (s.next s.tail = none ∧ tail = s.tail ∧
        s.exchangeLink tail node = (s.linkBehind node, true)) ∨
      ((s.next tail).isSome ∧ s.exchangeLink tail node = (s, false)) := by
  cases hnext : s.next tail with
  | some m => simp [Shared.exchangeLink, hnext]
  | none =>
    -- It leads to the present tail and has no link, so it is the present tail.
    obtain rfl := Shared.eq_tail_of_none htail hnext
    simp [Shared.exchangeLink, hnext, Shared.linkBehind]

/-- An exchange of the tail over a link is a change, whether it takes place or not. -/
private theorem exchangeTail_change {old new : NodeId} (hnext : s.next old = some new) :
    s.Change none (s.exchangeTail old new).1 := by
  rcases exchangeTail_cases s old new with ⟨rfl, h⟩ | ⟨-, h⟩
  · rw [h]
    exact .tail hnext
  · rw [h]
    exact .rest

/-! ### One step -/

/-- Every step is one of the changes, with the effect that it is said to have. -/
theorem step_change (memory : Bool) (hk : c.Knows s)
    (hn : ∀ n, c.node? = some n → s.Apart n) :
    s.Change (c.effect? s) (c.step (.ofMemory memory) s).1 := by
  cases c with
  | allocate item =>
    cases memory with
    | false => exact .rest
    | true => exact .place item
  | announce node => exact .count _
  | readTailLink node tail =>
    simp only [step]
    split <;> exact .rest
  | helpTail node tail next => exact exchangeTail_change hk
  | link node tail =>
    rcases exchangeLink_cases hk node with ⟨hnone, -, h⟩ | ⟨-, h⟩
    · -- Nobody else links the call's own node, so it is still apart.
      simp only [step, effect?, h]
      exact .link hnone (hn node rfl)
    · simp only [step, effect?, h]
      exact .rest
  | swingTail node tail => exact exchangeTail_change hk
  | readHeadLink head tail =>
    simp only [step]
    split <;> exact .rest
  | helpHead head next => exact exchangeTail_change hk
  -- The tail has been seen beyond the head, so the head does not overtake it.
  | unlink head next =>
    obtain ⟨hnext, htail⟩ := hk
    rcases exchangeHead_cases s head next with ⟨rfl, h⟩ | ⟨-, h⟩
    · simp only [step, effect?, h]
      exact .head hnext htail
    · simp only [step, effect?, h]
      exact .rest
  | discount item => exact .count _
  | _ => exact .rest

/-- A step establishes what is known at the next point. -/
theorem step_knows (memory : Bool) (hs : s.Coherent) (hk : c.Knows s) :
    (c.step (.ofMemory memory) s).2.Knows (c.step (.ofMemory memory) s).1 := by
  cases c with
  | allocate item => cases memory <;> trivial
  | readTail node => exact .refl
  | readTailLink node tail =>
    simp only [step]
    split
    · assumption
    · exact hk
  | link node tail =>
    rcases exchangeLink_cases hk node with ⟨-, rfl, h⟩ | ⟨-, h⟩
    · -- The link that was written leads from the tail to the node.
      simp only [step, h, Knows]
      rw [Shared.linkBehind_next hs, if_pos rfl]
    · simp only [step, h, Knows]
  | readHead => exact .refl
  | readHeadTail head =>
    -- The head was read first, so it does not lie beyond this tail.
    exact ⟨hk, hk.trans hs.reaches_tail, .refl⟩
  | readHeadLink head tail =>
    obtain ⟨-, htail, hlast⟩ := hk
    simp only [step]
    split
    · trivial
    · rename_i next hnext
      split
      · exact hnext
      · -- A head before the tail: its link leads no further than the tail.
        rename_i hne
        exact ⟨hnext, (htail.of_next hnext hne).trans hlast⟩
  | unlink head next =>
    rcases exchangeHead_cases s head next with ⟨rfl, h⟩ | ⟨-, h⟩
    · -- The node stood behind the sentinel until now, so it holds an item.
      simp only [step, h, Knows]
      refine ⟨hk.1, .refl, ?_⟩
      obtain ⟨behind, hl⟩ := hs.linked
      obtain ⟨behind', rfl, -⟩ := hl.moveHead hk.1 hk.2
      exact hl.occupied next (by simp)
    · simp only [step, h, Knows]
  | takeItem head next => exact hk.2.2
  | probeHead => exact .refl
  | _ => trivial

/-- After a step the call's own node is the one from before, which the step has not linked, or
one that it has just allocated. -/
theorem node?_step {n : NodeId} (memory : Bool) (hk : c.Knows s)
    (h : (c.step (.ofMemory memory) s).2.node? = some n) :
    (c.node? = some n ∧ c.effect? s = none) ∨
      (n = s.nodes.size ∧ c.node? = none ∧
        ∃ a, (c.step (.ofMemory memory) s).1 =
          { s with nodes := s.nodes.push ⟨some a, none⟩ }) := by
  cases c with
  | allocate item =>
    cases memory with
    | false => simp [step, Shared.place, Grant.ofMemory, node?] at h
    | true =>
      simp [step, Shared.place, Grant.ofMemory, node?] at h ⊢
      exact ⟨h.symm, item, rfl⟩
  | link node tail =>
    rcases exchangeLink_cases hk node with ⟨-, -, heq⟩ | ⟨-, heq⟩
    · -- Once it is linked, the node is the call's own no longer.
      simp [step, heq, node?] at h
    · simp [step, heq, node?] at h
      subst h
      simp [node?, effect?, heq]
  | unlink head next =>
    simp only [step] at h
    split at h <;> simp [node?] at h
  | readTailLink node tail =>
    simp only [step] at h
    split at h <;> exact .inl ⟨h, rfl⟩
  | readHeadLink head tail =>
    simp only [step] at h
    split at h
    · simp [node?] at h
    · split at h <;> simp [node?] at h
  | announce node | pin node | readTail node => exact .inl ⟨h, rfl⟩
  | helpTail node tail next => exact .inl ⟨h, rfl⟩
  | _ => simp [step, node?] at h

/-- After a step the call's own node is apart from the chain. -/
theorem step_apart {n : NodeId} (memory : Bool) (hs : s.Coherent) (hk : c.Knows s)
    (hn : ∀ n, c.node? = some n → s.Apart n)
    (h : (c.step (.ofMemory memory) s).2.node? = some n) :
    (c.step (.ofMemory memory) s).1.Apart n := by
  rcases node?_step memory hk h with ⟨hold, heff⟩ | ⟨rfl, -, a, heq⟩
  · apply (step_change memory hk hn).apart hs (hn n hold)
    simp [heff]
  · rw [heq]
    exact hs.apart_push a

end AtomicFifo.Call

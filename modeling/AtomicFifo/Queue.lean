import AtomicFifo.AllocError
import AtomicFifo.Panic
import AtomicFifo.Shared.Chain

/-!
# Queues that one thread uses at a time

A `Queue` is a shared state between calls: it is well formed, though its tail may lag by any
number of links. Each operation runs the call of the same name alone, atomic step by atomic
step; on a well-formed state every call returns, so the operations are total.

`Queue.toList` is the list of the items, the oldest first, and everything else is said in
terms of it:

* `exists_enqueue`, `dequeue_cases`  what the two calls do to the chain
* `toList_enqueue`        an enqueue appends its item
* `toList_dequeue`, `dequeue_snd`  a dequeue removes and answers the first item
* `isEmpty_eq`, `nodeCount_eq`, `len_eq`  the three ways to ask for the size agree with the list
* `enqueue?_false`        an enqueue without memory changes nothing and hands its item back
* `toList_setTail?`       no item depends on the position of the tail
-/

namespace AtomicFifo

universe u

namespace Reply

variable {α : Type u}

/-- The item that a dequeue answers. -/
def item? : Reply α → Option α
  | .dequeued item => item
  | _ => none

/-- Whether an enqueue was accepted; a refusal has the item. -/
def accepted : Reply α → Except (AllocError α) Unit
  | .refused item => .error ⟨item⟩
  | _ => .ok ()

/-- Whether a question found the queue empty. -/
def foundEmpty : Reply α → Bool
  | .emptiness empty => empty
  | _ => false

end Reply

/-- A linked queue that no call is in progress on. -/
structure Queue (α : Type u) where
  shared : Shared α
  wellFormed : shared.WellFormed

namespace Queue

variable {α : Type u}

/-- An empty queue. -/
def init : Queue α := ⟨.init, [], Shared.init_chain⟩

/-! ### Every call returns -/

/-- On a well-formed state an enqueue returns, and leaves a well-formed state. -/
theorem perform?_enqueue (q : Queue α) (a : α) :
    ∃ s, q.shared.perform? .fresh (.enqueue a) = some (s, .enqueued) ∧ s.WellFormed := by
  obtain ⟨behind, h⟩ := q.wellFormed
  obtain ⟨last, hlast⟩ := q.shared.exists_last behind
  exact ⟨_, h.linked.perform?_enqueue a hlast, _, h.enqueue a hlast⟩

/-- On a well-formed state a dequeue returns, and leaves a well-formed state. -/
theorem perform?_dequeue (q : Queue α) :
    ∃ s item, q.shared.perform? .fresh .dequeue = some (s, .dequeued item) ∧ s.WellFormed := by
  obtain ⟨behind, h⟩ := q.wellFormed
  -- Without a node behind the sentinel nothing is removed, else the first one becomes the sentinel.
  cases behind with
  | nil => exact ⟨_, _, h.linked.perform?_dequeue_nil _, _, h⟩
  | cons m behind => exact ⟨_, _, h.linked.perform?_dequeue_cons _, _, h.dequeue_cons⟩

/-! ### Operations -/

/-- Appends an item. -/
def enqueue (q : Queue α) (a : α) : Queue α :=
  match h : q.shared.perform? .fresh (.enqueue a) with
  | some (s, _) => ⟨s, by
      obtain ⟨s', hs, hwf⟩ := q.perform?_enqueue a
      simp_all⟩
  | none => absurd h (by
      obtain ⟨s', hs, -⟩ := q.perform?_enqueue a
      simp [hs])

/-- Appends an item if there is memory for its node, else hands it back. -/
def enqueue? (memory : Bool) (q : Queue α) (a : α) : Queue α × Except (AllocError α) Unit :=
  if memory then (q.enqueue a, .ok ())
  else
    match h : q.shared.perform? .refused (.enqueue a) with
    | some (s, reply) => (⟨s, by
        rw [Shared.perform?_enqueue_refused] at h
        cases h
        exact q.wellFormed⟩, reply.accepted)
    | none => absurd h (by simp [Shared.perform?_enqueue_refused])

/-- Removes the oldest item; there is none in an empty queue. -/
def dequeue (q : Queue α) : Queue α × Option α :=
  match h : q.shared.perform? .fresh .dequeue with
  | some (s, reply) => (⟨s, by
      obtain ⟨s', item, hs, hwf⟩ := q.perform?_dequeue
      simp_all⟩, reply.item?)
  | none => absurd h (by
      obtain ⟨s', item, hs, -⟩ := q.perform?_dequeue
      simp [hs])

/-- Whether there is no item, read off the link of the sentinel. -/
def isEmpty (q : Queue α) : Bool :=
  (q.shared.perform? .fresh .isEmpty).any fun (_, reply) => reply.foundEmpty

/-- The number of items, read off the counter. -/
def len (q : Queue α) : Word := q.shared.count

/-- The number of items, counted by a walk over the nodes. -/
def nodeCount (q : Queue α) : Nat :=
  q.shared.nodeCount?.get (by
    obtain ⟨behind, h⟩ := q.wellFormed
    simp [h.linked.nodeCount?_eq])

/-- The nodes of the chain, the sentinel first. -/
def chain (q : Queue α) : List NodeId :=
  q.shared.chain?.get (by
    obtain ⟨behind, h⟩ := q.wellFormed
    simp [h.linked.chain?_eq])

/-- The items, the oldest first. -/
def toList (q : Queue α) : List α :=
  q.chain.tail.filterMap q.shared.item

/-- How many links the tail stands behind the sentinel. -/
def tailPos (q : Queue α) : Nat :=
  q.chain.idxOf q.shared.tail

/-- The queue with its tail so many links behind the sentinel, the state in which unfinished
enqueues of other threads leave it, if the chain has a node there. -/
def setTail? (q : Queue α) (pos : Nat) : Option (Queue α) :=
  match h : q.chain[pos]? with
  | none => none
  | some t => some ⟨{ q.shared with tail := t }, by
      obtain ⟨behind, hc⟩ := q.wellFormed
      refine ⟨behind, hc.setTail ?_⟩
      have hchain : q.chain = q.shared.head :: behind := by
        simp [chain, hc.linked.chain?_eq]
      rw [hchain] at h
      exact List.mem_of_getElem? h⟩

/-! ### The list view -/

/-- The chain of a queue is its sentinel and the nodes behind it. -/
theorem chain_eq {q : Queue α} {behind : List NodeId} (h : q.shared.Linked behind) :
    q.chain = q.shared.head :: behind := by
  simp [chain, h.chain?_eq]

/-- Following the links of a queue gives its chain. -/
theorem shared_chain? (q : Queue α) : q.shared.chain? = some q.chain := by
  simp [chain]

/-- The items are those of the nodes behind the sentinel. -/
theorem toList_eq {q : Queue α} {behind : List NodeId} (h : q.shared.Linked behind) :
    q.toList = behind.filterMap q.shared.item := by
  simp [toList, chain_eq h]

/-- There are as many items as nodes behind the sentinel. -/
theorem length_toList {q : Queue α} {behind : List NodeId} (h : q.shared.Linked behind) :
    q.toList.length = behind.length := by
  have hlength := congrArg List.length h.map_item
  simpa [toList_eq h] using hlength.symm

/-- A new queue has no items. -/
@[simp] theorem toList_init : (init : Queue α).toList = [] := rfl

/-- An enqueue is the call of the same name, run alone. -/
theorem enqueue_shared (q : Queue α) (a : α) :
    q.shared.perform? .fresh (.enqueue a) = some ((q.enqueue a).shared, .enqueued) := by
  obtain ⟨s, hs, -⟩ := q.perform?_enqueue a
  unfold enqueue
  split
  · simp_all
  · simp_all

/-- A dequeue is the call of the same name, run alone. -/
theorem dequeue_shared (q : Queue α) :
    q.shared.perform? .fresh .dequeue = some (q.dequeue.1.shared, .dequeued q.dequeue.2) := by
  obtain ⟨s, item, hs, -⟩ := q.perform?_dequeue
  unfold dequeue
  split
  · rename_i h
    rw [hs] at h
    cases h
    exact hs
  · simp_all

/-- What an enqueue does to the chain: it links a new node behind the last one. -/
theorem exists_enqueue (q : Queue α) (a : α) :
    ∃ behind last, q.shared.Chain behind ∧ (q.shared.head :: behind).getLast? = some last ∧
      (q.enqueue a).shared = q.shared.appended a last ∧
      (q.enqueue a).shared.Chain (behind ++ [q.shared.nodes.size]) := by
  obtain ⟨behind, h⟩ := q.wellFormed
  obtain ⟨last, hlast⟩ := q.shared.exists_last behind
  have hs := q.enqueue_shared a
  rw [h.linked.perform?_enqueue a hlast] at hs
  obtain ⟨hshared, -⟩ := Prod.mk.inj (Option.some.inj hs)
  exact ⟨behind, last, h, hlast, hshared.symm, hshared ▸ h.enqueue a hlast⟩

/-- What a dequeue does to the chain: nothing if no node is behind the sentinel; else the first
of them becomes the sentinel, and its item is the answer. -/
theorem dequeue_cases (q : Queue α) :
    (q.shared.Chain [] ∧ q.dequeue = (q, none)) ∨
      ∃ m behind, q.shared.Chain (m :: behind) ∧ q.dequeue.1.shared = q.shared.removed m ∧
        q.dequeue.1.shared.Chain behind ∧ q.dequeue.2 = q.shared.item m := by
  obtain ⟨behind, h⟩ := q.wellFormed
  have hs := q.dequeue_shared
  cases behind with
  | nil =>
    rw [h.linked.perform?_dequeue_nil, Option.some.injEq, Prod.mk.injEq] at hs
    obtain ⟨hshared, hnone⟩ := hs
    refine .inl ⟨h, ?_⟩
    generalize q.dequeue = x at hshared hnone
    obtain ⟨⟨s, hs⟩, found⟩ := x
    cases hshared
    cases hnone
    rfl
  | cons m behind =>
    rw [h.linked.perform?_dequeue_cons, Option.some.injEq, Prod.mk.injEq] at hs
    obtain ⟨hshared, hfound⟩ := hs
    exact .inr ⟨m, behind, h, hshared.symm, hshared ▸ h.dequeue_cons,
      (Reply.dequeued.inj hfound).symm⟩

/-- An enqueue appends its item. -/
@[simp] theorem toList_enqueue (q : Queue α) (a : α) : (q.enqueue a).toList = q.toList ++ [a] := by
  obtain ⟨behind, last, h, hlast, hshared, h'⟩ := q.exists_enqueue a
  rw [toList_eq h'.linked, toList_eq h.linked, hshared, List.filterMap_append]
  have hitem := Shared.item_appended q.shared a last
  have hself : [q.shared.nodes.size].filterMap (q.shared.appended a last).item = [a] := by
    simp [hitem]
  rw [hself]
  congr 1
  -- The new node is none of the old ones, so these have the items that they had.
  have hitems : behind.map (q.shared.appended a last).item = behind.map q.shared.item := by
    refine List.map_congr_left fun n hn => ?_
    have hlt := h.allocated n (by simp [hn])
    rw [hitem, if_neg (Nat.ne_of_lt hlt)]
  simpa [List.filterMap_map] using congrArg (List.filterMap id) hitems

/-- A dequeue answers the first item and leaves the others. -/
theorem dequeue_eq (q : Queue α) :
    q.dequeue.2 = q.toList.head? ∧ q.dequeue.1.toList = q.toList.tail := by
  obtain ⟨h, hsame⟩ | ⟨m, behind, h, hshared, h', hfound⟩ := q.dequeue_cases
  · have hnil : q.toList = [] := toList_eq h.linked
    simp [hsame, hnil]
  · -- The node behind the sentinel is occupied by the first item.
    obtain ⟨a, ha⟩ := Option.isSome_iff_exists.1 (h.occupied m (by simp))
    rw [toList_eq h'.linked, toList_eq h.linked, hfound, ha, hshared,
      List.filterMap_cons_some ha]
    exact ⟨rfl, rfl⟩

/-- A dequeue answers the first item. -/
theorem dequeue_snd (q : Queue α) : q.dequeue.2 = q.toList.head? := q.dequeue_eq.1

/-- A dequeue leaves all items but the first. -/
@[simp] theorem toList_dequeue (q : Queue α) : q.dequeue.1.toList = q.toList.tail := q.dequeue_eq.2

/-- A dequeue from an empty queue changes nothing. -/
theorem dequeue_of_nil {q : Queue α} (h : q.toList = []) : q.dequeue = (q, none) := by
  obtain ⟨-, hsame⟩ | ⟨m, behind, hc, -⟩ := q.dequeue_cases
  · exact hsame
  · have hlen := length_toList hc.linked
    rw [h] at hlen
    cases hlen

/-- The question for emptiness is answered as the list is. -/
theorem isEmpty_eq (q : Queue α) : q.isEmpty = q.toList.isEmpty := by
  obtain ⟨behind, h⟩ := q.wellFormed
  have hlen := length_toList h.linked
  simp only [isEmpty, h.linked.perform?_isEmpty, Option.any_some, Reply.foundEmpty]
  -- The link of the sentinel is missing just where the list is empty.
  cases behind <;> cases hl : q.toList <;> simp_all

/-- A walk over the nodes counts the items. -/
theorem nodeCount_eq (q : Queue α) : q.nodeCount = q.toList.length := by
  obtain ⟨behind, h⟩ := q.wellFormed
  simp [nodeCount, h.linked.nodeCount?_eq, length_toList h.linked]

/-- The counter reads the number of items, as far as it fits a word. -/
theorem len_eq (q : Queue α) : q.len = UInt64.ofNat q.toList.length := by
  obtain ⟨behind, h⟩ := q.wellFormed
  simp [len, h.count_eq, length_toList h.linked]

/-- No item depends on the position of the tail. -/
theorem toList_setTail? {q q' : Queue α} {pos : Nat} (h : q.setTail? pos = some q') :
    q'.toList = q.toList := by
  unfold setTail? at h
  split at h
  · cases h
  · cases h
    rename_i t ht
    obtain ⟨behind, hc⟩ := q.wellFormed
    rw [chain_eq hc.linked] at ht
    -- The tail moves along the chain, which stays what it is.
    have hc' := hc.linked.of_tail (List.mem_of_getElem? ht)
    rw [toList_eq hc.linked]
    exact toList_eq (q := ⟨_, _⟩) hc'

/-- With memory an offer is an enqueue. -/
@[simp] theorem enqueue?_true (q : Queue α) (a : α) :
    q.enqueue? true a = (q.enqueue a, .ok ()) := rfl

/-- Without memory nothing happens but that the item comes back. -/
@[simp] theorem enqueue?_false (q : Queue α) (a : α) :
    q.enqueue? false a = (q, .error ⟨a⟩) := by
  unfold enqueue?
  -- The refused call changes nothing, so the queue is the one that it was called on.
  split
  · contradiction
  · split
    · rename_i h
      rw [Shared.perform?_enqueue_refused] at h
      cases h
      rfl
    · rename_i h
      simp [Shared.perform?_enqueue_refused] at h

end Queue

end AtomicFifo

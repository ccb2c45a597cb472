import AtomicFifo.Queue.Drain
import AtomicFifo.System
import Mathlib.Logic.Function.Basic

/-!
# Queues in one memory

The queues of a program have their nodes in one memory, and each of them has its `Anchor` there:
a head, a tail and a counter. They are used by one call at a time, and between two calls the
tail of a queue may come to stand on any other node of its chain, where unfinished enqueues of
other threads can have left it.

A call sees the queue that it is made on and, through the common nodes, every other queue: that
it leaves these alone is nothing that the memory takes care of.

* `Shared.operate?`   one operation on a queue
* `Memory.view`       a queue of a memory, with all nodes of the memory
* `Memory.run?`       calls on the queues of a memory, one after the other
* `Queue.drain?_eq`   a drain of a queue in a memory is that of a queue by itself
-/

namespace AtomicFifo

universe u v

/-- What is done to a queue that nobody else is using. -/
inductive Operation (α : Type u)
  /-- Enqueue an item, with or without memory for its node. -/
  | enqueue (memory : Bool) (item : α)
  | dequeue
  /-- Take items until there are none. -/
  | drain
  /-- Read the counter. -/
  | len
  | isEmpty
  /-- Walk over the nodes. -/
  | nodeCount
  deriving DecidableEq, Repr

/-- What an operation answers. -/
inductive Response (α : Type u)
  | reply (reply : Reply α)
  /-- The items of a drain. -/
  | items (items : List α)
  /-- The value of the counter. -/
  | count (count : Word)
  /-- The number of nodes behind the sentinel. -/
  | nodes (count : Nat)
  deriving DecidableEq, Repr

namespace Shared

variable {α : Type u}

/-- Takes items until a dequeue finds none, if one of the first `bound` dequeues does. -/
def drain? : Nat → Shared α → Option (Shared α × List α)
  | 0, _ => none
  | bound + 1, s =>
    match s.perform? .fresh .dequeue with
    | none => none
    | some (s, reply) =>
      match reply.item? with
      | none => some (s, [])
      | some a => (drain? bound s).map fun (s, items) => (s, a :: items)

/-- Performs an operation while nobody else uses the queue: the state afterwards and the answer,
if there is an end to it. -/
def operate? (s : Shared α) : Operation α → Option (Shared α × Response α)
  | .enqueue memory item =>
    (s.perform? (.ofMemory memory) (.enqueue item)).map fun (s, reply) => (s, .reply reply)
  | .dequeue => (s.perform? .fresh .dequeue).map fun (s, reply) => (s, .reply reply)
  -- No chain has more nodes than there are, and the last dequeue finds none.
  | .drain => (s.drain? s.nodes.size).map fun (s, items) => (s, .items items)
  | .len => some (s, .count s.count)
  | .isEmpty => (s.perform? .fresh .isEmpty).map fun (s, reply) => (s, .reply reply)
  | .nodeCount => s.nodeCount?.map fun count => (s, .nodes count)

end Shared

/-- With a bound beyond the number of its items a drain comes to its end. -/
theorem Queue.drain?_eq {α : Type u} {bound : Nat} {q : Queue α} (h : q.toList.length < bound) :
    q.shared.drain? bound = some (q.drain.1.shared, q.drain.2) := by
  induction bound generalizing q with
  -- By induction on the bound: each item that is taken shortens the queue by one.
  | zero => exact absurd h (Nat.not_lt_zero _)
  | succ bound ih =>
    rw [Shared.drain?, q.dequeue_shared]
    cases hq : q.dequeue with
    | mk q' item =>
      cases item with
      | none => rw [drain_of_none hq]; rfl
      | some a =>
        have hlen := length_next hq
        simp only [drain_of_some hq, Reply.item?, ih (q := q') (by omega)]
        rfl

/-- What a queue of a memory has besides its nodes. -/
structure Anchor where
  head : NodeId
  tail : NodeId
  count : Word
  deriving DecidableEq, Repr

/-- The nodes of all queues, and the anchor of each. -/
structure Memory (ι : Type v) (α : Type u) where
  nodes : Array (Node α)
  anchors : ι → Anchor

namespace Memory

/-- What happens to a memory between two moments at which no call is in progress. -/
inductive Act (ι : Type v) (α : Type u)
  /-- An operation on a queue. -/
  | call (queue : ι) (operation : Operation α)
  /-- The tail of a queue comes to stand so many links behind the sentinel. -/
  | setTail (queue : ι) (pos : Nat)
  deriving DecidableEq, Repr

variable {ι : Type v} {α : Type u}

/-- The queue that is named. -/
def Act.queue : Act ι α → ι
  | .call queue _ => queue
  | .setTail queue _ => queue

/-- The call, if it is one. -/
def Act.call? : Act ι α → Option (ι × Operation α)
  | .call queue operation => some (queue, operation)
  | .setTail _ _ => none

/-- A queue of the memory. It has all nodes, those of the other queues among them. -/
def view (m : Memory ι α) (i : ι) : Shared α where
  nodes := m.nodes
  head := (m.anchors i).head
  tail := (m.anchors i).tail
  count := (m.anchors i).count

variable [DecidableEq ι]

/-- The memory once one of its queues is in this state. -/
def update (m : Memory ι α) (i : ι) (s : Shared α) : Memory ι α where
  nodes := s.nodes
  anchors := Function.update m.anchors i ⟨s.head, s.tail, s.count⟩

/-- One act, with the answer of a call, if there is an end to it. A tail stays where it is if the
chain has no node at the position. -/
def step? (m : Memory ι α) : Act ι α → Option (Memory ι α × Option (Response α))
  | .call i operation =>
    ((m.view i).operate? operation).map fun (s, response) => (m.update i s, some response)
  | .setTail i pos =>
    match (m.view i).chain?.bind (·[pos]?) with
    | none => some (m, none)
    | some node => some (m.update i { m.view i with tail := node }, none)

/-- All acts, with the answers of the calls in their order. -/
def run? (m : Memory ι α) : List (Act ι α) → Option (Memory ι α × List (Response α))
  | [] => some (m, [])
  | act :: acts =>
    match m.step? act with
    | none => none
    | some (m, response) =>
      (run? m acts).map fun (m, responses) => (m, response.toList ++ responses)

/-- A queue that was put into a state is in it. -/
@[simp] theorem view_update_self (m : Memory ι α) (i : ι) (s : Shared α) :
    (m.update i s).view i = s := by
  simp [view, update]

/-- Every other queue keeps its head, its tail and its counter, over the nodes as they are now. -/
theorem view_update_ne (m : Memory ι α) {i j : ι} (h : j ≠ i) (s : Shared α) :
    (m.update i s).view j = { m.view j with nodes := s.nodes } := by
  simp [view, update, h]

end Memory

end AtomicFifo

import AtomicFifo.Links
import AtomicFifo.Word

/-!
# The shared state of a linked queue

A queue is a chain of nodes behind a sentinel. `head` names the sentinel, whose own item is
vacant; the nodes behind it hold the items, the oldest first. `tail` names a node of the chain,
at rest the last one, and `count` counts the items in a word that wraps.

All access goes through the operations of this module, one atomic access each: `next` and
`item` read a node, `head`, `tail` and `count` are read as fields, and the exchanges
`exchangeTail`, `exchangeHead` and `exchangeLink` change a place only if it still holds the
value that the caller has read there, and tell whether it did.

Nodes are named by their place in an array. A `Grant` is the allocator's answer to a request
for a node: it may refuse, name a place never used before, or hand out a place again.
-/

namespace AtomicFifo

universe u

/-- The name of a node. -/
abbrev NodeId := Nat

/-- A node: an item, vacant in the first sentinel, and the link to the next node. -/
structure Node (α : Type u) where
  item : Option α
  link : Option NodeId

/-- The allocator's answer to a request for a node. -/
inductive Grant
  /-- No memory. -/
  | refused
  /-- A place that no node has had before. -/
  | fresh
  /-- The place of a node that has been freed. -/
  | recycled (node : NodeId)
  deriving DecidableEq, Repr

/-- What the threads that use a queue share. -/
structure Shared (α : Type u) where
  nodes : Array (Node α)
  head : NodeId
  tail : NodeId
  count : Word

namespace Shared

variable {α : Type u}

/-- An empty queue: a vacant sentinel. -/
def init : Shared α where
  nodes := #[⟨none, none⟩]
  head := 0
  tail := 0
  count := 0

/-- Reads the link of a node. -/
def next (s : Shared α) (n : NodeId) : Option NodeId :=
  (s.nodes[n]?).bind Node.link

/-- Reads the item of a node. -/
def item (s : Shared α) (n : NodeId) : Option α :=
  (s.nodes[n]?).bind Node.item

/-- Allocates a node for an item, as the allocator answers. -/
def place (s : Shared α) (grant : Grant) (a : α) : Shared α × Option NodeId :=
  match grant with
  | .refused => (s, none)
  | .fresh =>
    let node := s.nodes.size
    ({ s with nodes := s.nodes.push ⟨some a, none⟩ }, some node)
  | .recycled node => ({ s with nodes := s.nodes.setIfInBounds node ⟨some a, none⟩ }, some node)

/-- Moves the tail from `old` to `new` if it is still at `old`. -/
def exchangeTail (s : Shared α) (old new : NodeId) : Shared α × Bool :=
  if s.tail = old then ({ s with tail := new }, true) else (s, false)

/-- Moves the head from `old` to `new` if it is still at `old`. -/
def exchangeHead (s : Shared α) (old new : NodeId) : Shared α × Bool :=
  if s.head = old then ({ s with head := new }, true) else (s, false)

/-- Links `node` behind `last` if there is still no link. -/
def exchangeLink (s : Shared α) (last node : NodeId) : Shared α × Bool :=
  match s.next last with
  | none => ({ s with nodes := s.nodes.modify last fun n => { n with link := some node } }, true)
  -- Another node has been linked there in the meantime.
  | some _ => (s, false)

/-- The nodes of the chain, the sentinel first, if the chain ends. -/
def chain? (s : Shared α) : Option (List NodeId) :=
  Links.path? s.next s.nodes.size (some s.head)

/-- Counts the nodes behind the sentinel by walking them, if the chain ends. -/
def nodeCount? (s : Shared α) : Option Nat :=
  Links.count? s.next s.nodes.size (s.next s.head)

/-! ### Reading after a change -/

/-- The links do not depend on the tail. -/
@[simp] theorem next_tail (s : Shared α) (t : NodeId) : { s with tail := t }.next = s.next := rfl

/-- The links do not depend on the head. -/
@[simp] theorem next_head (s : Shared α) (t : NodeId) : { s with head := t }.next = s.next := rfl

/-- The links do not depend on the counter. -/
@[simp] theorem next_count (s : Shared α) (c : Word) : { s with count := c }.next = s.next := rfl

/-- The items do not depend on the tail. -/
@[simp] theorem item_tail (s : Shared α) (t : NodeId) : { s with tail := t }.item = s.item := rfl

/-- The items do not depend on the head. -/
@[simp] theorem item_head (s : Shared α) (t : NodeId) : { s with head := t }.item = s.item := rfl

/-- The items do not depend on the counter. -/
@[simp] theorem item_count (s : Shared α) (c : Word) : { s with count := c }.item = s.item := rfl

/-- A new node has no link, as a place without a node has none. -/
theorem next_push (s : Shared α) (a : α) (n : NodeId) :
    { s with nodes := s.nodes.push ⟨some a, none⟩ }.next n = s.next n := by
  simp only [next, Array.getElem?_push]
  split
  · simp_all
  · rfl

/-- A new node holds its item, and the others hold theirs. -/
theorem item_push (s : Shared α) (a : α) (n : NodeId) :
    { s with nodes := s.nodes.push ⟨some a, none⟩ }.item n =
      if n = s.nodes.size then some a else s.item n := by
  simp only [item, Array.getElem?_push]
  split <;> rfl

/-- Setting a link changes that link alone. -/
theorem next_modify (s : Shared α) (last node n : NodeId) :
    { s with nodes := s.nodes.modify last fun n => { n with link := some node } }.next n =
      if n = last ∧ last < s.nodes.size then some node else s.next n := by
  simp only [next, Array.getElem?_modify]
  -- A link is read back only if the node that it was set at exists.
  by_cases h : last = n
  · subst h
    by_cases hlt : last < s.nodes.size
    · simp [hlt]
    · simp [hlt]
  · simp [h, Ne.symm h]

/-- Setting a link changes no item. -/
theorem item_modify (s : Shared α) (last node n : NodeId) :
    { s with nodes := s.nodes.modify last fun n => { n with link := some node } }.item n =
      s.item n := by
  simp only [item, Array.getElem?_modify]
  split
  · cases s.nodes[n]? <;> rfl
  · rfl

end Shared

end AtomicFifo

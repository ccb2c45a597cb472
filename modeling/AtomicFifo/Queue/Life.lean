import AtomicFifo.Queue

/-!
# Birth and end of a queue

A queue is born empty. It ends by being dropped or by being released; either way every node of
its chain is freed and the items behind the sentinel are dropped, the oldest first. What the
sentinel still holds of an item that was taken out of it is not an item any more. Releasing is
for empty queues: it says so in the log, and panics on a queue that still holds items, which
are dropped all the same.

* `destroy_items`       the items dropped are those of the list view
* `release_outcome`     a release panics exactly on a queue that is not empty
-/

namespace AtomicFifo.Queue

universe u

variable {α : Type u}

/-- The event that a new queue emits: the shape of its nodes. Its items are one word each. -/
def birth : Event := .initialized Layout.word.nodeShape

/-- The size of a node of a queue of words. -/
def nodeSize : Word := Layout.word.nodeShape.size

/-- What the end of a queue leaves to be disposed of. -/
structure Remains (α : Type u) where
  /-- The nodes to free, the sentinel first. -/
  nodes : List NodeId
  /-- The items to drop, the oldest first. -/
  items : List α

/-- The end of a queue. -/
def destroy (q : Queue α) : Remains α :=
  ⟨q.chain, q.chain.tail.filterMap q.shared.item⟩

/-- How a release goes that finds so many nodes behind the sentinel, and what it emits. -/
def released (left : Nat) : Except Panic Unit × List Event :=
  if left = 0 then (.ok (), [.released]) else (.error (.releasedNonEmpty left), [])

/-- A release: how it went, what it emitted, and what it left to be disposed of. -/
structure Release (α : Type u) where
  outcome : Except Panic Unit
  events : List Event
  remains : Remains α

/-- Releases a queue, which has to be empty. -/
def release (q : Queue α) : Release α :=
  let (outcome, events) := released q.nodeCount
  ⟨outcome, events, q.destroy⟩

/-- The items dropped at the end are those of the list view. -/
theorem destroy_items (q : Queue α) : q.destroy.items = q.toList := rfl

/-- A release panics exactly on a queue that is not empty, with the number of its items. -/
theorem release_outcome (q : Queue α) :
    q.release.outcome =
      if q.toList = [] then .ok () else .error (.releasedNonEmpty q.toList.length) := by
  simp only [release, released, nodeCount_eq, List.length_eq_zero_iff]
  split <;> rfl

end AtomicFifo.Queue

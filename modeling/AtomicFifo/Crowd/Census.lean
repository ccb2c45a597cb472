import AtomicFifo.Crowd
import AtomicFifo.Round.Verification

/-!
# Taking a census of a crowd

A census lets a crowd loose on a linked queue that already holds some tags, takes out what is
left when all threads have ended, and looks at the whole: is every tag there once, and has
every thread seen the tags of each producer in the order in which they were enqueued?

A census exists only if every thread ends and every walk over the nodes does.
-/

namespace AtomicFifo

/-- The size of a queue, asked for in three ways. -/
structure Size where
  len : Word
  nodeCount : Nat
  isEmpty : Bool
  deriving DecidableEq, Repr

/-- What is found after a crowd has ended. -/
structure Census where
  /-- The size before the rest is taken out. -/
  before : Size
  /-- The tags taken out in the end. -/
  rest : List Word
  /-- The tags that each thread has taken, in their order; the rest is the last list. -/
  takers : List (List Word)
  /-- The number of all tags. -/
  total : Word
  /-- The size after the rest is taken out. -/
  after : Size
  /-- How the release goes. -/
  release : Except Panic Unit
  /-- How often a producer of pairs found the queue empty. -/
  misses : Nat

namespace Shared

variable {α : Type}

/-- Asks for the size in all three ways. -/
def size? (s : Shared α) : Option Size := do
  let nodeCount ← s.nodeCount?
  let (s, reply) ← s.perform? .fresh .isEmpty
  return ⟨s.count, nodeCount, reply.foundEmpty⟩

end Shared

namespace Census

/-- Whose tag this is: the number of its producer, or that of the producers for a tag that was
there before. -/
def origin (plan : Plan) (tag : Word) : Nat :=
  if tag.toNat < plan.producers.toNat * plan.items.toNat then tag.toNat / plan.items.toNat
  else plan.producers.toNat

/-- Whether the tags of each origin come in increasing order; `least` holds the least tag that
may still come from each. -/
def inOrder (plan : Plan) (least : Array Nat) : List Word → Bool
  | [] => true
  | tag :: tags =>
    -- Each origin has its own least tag; tags of different origins come in any order.
    let o := origin plan tag
    least[o]?.any (· ≤ tag.toNat) && inOrder plan (least.setIfInBounds o (tag.toNat + 1)) tags

/-- Whether a thread has seen the tags of each producer in order. -/
def ordered (plan : Plan) (c : Census) : Bool :=
  c.takers.all (inOrder plan (Array.replicate (plan.producers.toNat + 1) 0))

/-- Whether every tag was taken exactly once. -/
def complete (c : Census) : Bool :=
  match Verification.check 0 0 c.takers.flatten c.total with
  | .ok () => true
  | .error _ => false

/-- The sum of all tags taken. -/
def sum (c : Census) : Nat := (c.takers.flatten.map (·.toNat)).foldr (· + ·) 0

variable {α : Type}

/-- Enqueues so many tags from `first` on, by one thread alone. -/
def prefill (f : Facade Word α) (first : Word) : Nat → Shared α → Option (Shared α)
  | 0, s => some s
  | n + 1, s => do
    let (s, _) ← s.perform? .fresh (.enqueue (f.wrap first))
    prefill f (first + 1) n s

/-- Takes everything out as a consumer that has the queue for itself. -/
def sweep (f : Facade Word α) (s : Shared α) : Option (Shared α × List Word) :=
  -- One consumer and no producers.
  let plan : Plan := ⟨0, 1, 0, false⟩
  let bound := Crowd.patience plan s.nodes.size
  match Crowd.settle (.linked f) plan bound (.init plan s) with
  | crowd =>
    if crowd.ended then some (crowd.queue, crowd.consumers.toList.flatMap (·.taken.reverse))
    else none

/-- The census of a crowd on a queue that holds `prefilled` tags. -/
def take? (f : Facade Word α) (plan : Plan) (prefilled : Word) : Option Census := do
  let pushed ← plan.total?
  -- The tags that were there before count as further tags behind those of the producers.
  let total ← Word.ofNat? (pushed.toNat + prefilled.toNat)
  let queue ← prefill f pushed prefilled.toNat .init
  match Crowd.settle (.linked f) plan (Crowd.patience plan prefilled.toNat) (.init plan queue) with
  | crowd =>
    if !crowd.ended then none
    else
      let before ← crowd.queue.size?
      let (queue, rest) ← sweep f crowd.queue
      let after ← queue.size?
      return {
        before := before
        rest := rest
        takers := crowd.producers.toList.map (·.taken.reverse) ++
          crowd.consumers.toList.map (·.taken.reverse) ++ [rest]
        total := total
        after := after
        release := (Queue.released after.nodeCount).1
        misses := (crowd.producers.toList.map (·.misses)).foldr (· + ·) 0 }

end Census

end AtomicFifo

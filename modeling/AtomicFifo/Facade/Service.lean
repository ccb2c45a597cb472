import AtomicFifo.Facade

/-!
# What a queue is asked

One thread asks a queue one thing after the other, with a facade around the queue or without, while
any number of drains on the queue stay alive in between. All that there is to a drain is the queue
that it is on: a number tells it from the others, and nothing is known of it besides.

* `Queue.serve`     what a queue answers, by its own operations
* `Facade.serve`    what a facade answers, by the operations of the facade
* `Queue.course`, `Facade.course`   the answers to any number of asks, with the queue after each
* `Ask.onList`      what a list of items answers
-/

namespace AtomicFifo

universe u v w

/-- What a queue is asked. -/
inductive Ask (ι : Type u)
  /-- Take an item, with or without memory for its node. -/
  | enqueue (memory : Bool) (item : ι)
  | dequeue
  /-- The next item of a drain. -/
  | next (drain : Nat)
  /-- All items of a drain. -/
  | collect
  /-- The first so many items of a drain. -/
  | take (k : Nat)
  /-- The item of this index in a drain, after those before it. -/
  | nth (n : Nat)
  | len
  | isEmpty
  /-- The number of nodes, by a walk. -/
  | nodeCount
  deriving DecidableEq, Repr

/-- What a queue answers. -/
inductive Told (ι : Type u)
  | enqueued (answer : Except (AllocError ι) Unit)
  | item (item : Option ι)
  | items (items : List ι)
  /-- The items that were dropped on the way, and the one that was looked for. -/
  | found (dropped : List ι) (item : Option ι)
  | count (count : Word)
  | flag (empty : Bool)
  | nodes (count : Nat)

namespace Ask

variable {ι : Type u} {κ : Type v}

/-- The same with the item seen as something else. -/
def map (g : ι → κ) : Ask ι → Ask κ
  | .enqueue memory i => .enqueue memory (g i)
  | .dequeue => .dequeue
  | .next drain => .next drain
  | .collect => .collect
  | .take k => .take k
  | .nth n => .nth n
  | .len => .len
  | .isEmpty => .isEmpty
  | .nodeCount => .nodeCount

/-- A dequeue in place of the next item of any drain. -/
def withoutDrain : Ask ι → Ask ι
  | .next _ => .dequeue
  | ask => ask

/-- What a list of items answers, the oldest first, and the list afterwards. -/
def onList (l : List ι) : Ask ι → List ι × Told ι
  | .enqueue true i => (l ++ [i], .enqueued (.ok ()))
  | .enqueue false i => (l, .enqueued (.error ⟨i⟩))
  -- A drain is a cursor without a place, so its next item is a dequeue.
  | .dequeue | .next _ => (l.tail, .item l.head?)
  | .collect => ([], .items l)
  | .take k => (l.drop k, .items (l.take k))
  | .nth n => (l.drop (n + 1), .found (l.take n) l[n]?)
  | .len => (l, .count (UInt64.ofNat l.length))
  | .isEmpty => (l, .flag l.isEmpty)
  | .nodeCount => (l, .nodes l.length)

end Ask

/-- The same with the items seen as something else. -/
def Told.map {ι : Type u} {κ : Type v} (g : ι → κ) : Told ι → Told κ
  | .enqueued answer => .enqueued (answer.mapError (·.map g))
  | .item i => .item (i.map g)
  | .items l => .items (l.map g)
  | .found l i => .found (l.map g) (i.map g)
  | .count n => .count n
  | .flag b => .flag b
  | .nodes n => .nodes n

/-- The states and the answers when one thing after the other is asked. -/
def courseOf {S : Type u} {C : Type v} {A : Type w} (serve : S → C → S × A) :
    S → List C → List (S × A)
  | _, [] => []
  | s, ask :: asks => serve s ask :: courseOf serve (serve s ask).1 asks

namespace Queue

variable {α : Type u}

/-- What a queue says of its size: its counter, whether it is empty, and its nodes. -/
def sizes (q : Queue α) : Word × Bool × Nat := (q.len, q.isEmpty, q.nodeCount)

/-- What a queue answers, and the queue afterwards. -/
def serve (q : Queue α) : Ask α → Queue α × Told α
  | .enqueue memory a =>
    let (q, answer) := q.enqueue? memory a
    (q, .enqueued answer)
  | .dequeue =>
    let (q, a) := q.dequeue
    (q, .item a)
  -- A drain keeps no place of its own, so it does not matter which one is asked.
  | .next _ =>
    let (q, a) := q.next
    (q, .item a)
  | .collect =>
    let (q, l) := q.drain
    (q, .items l)
  | .take k =>
    let (q, l) := q.takeUpTo k
    (q, .items l)
  | .nth n =>
    let (q, dropped, a) := q.takeNth n
    (q, .found dropped a)
  | .len => (q, .count q.len)
  | .isEmpty => (q, .flag q.isEmpty)
  | .nodeCount => (q, .nodes q.nodeCount)

/-- The queue and its answer after each of these asks. -/
def course : Queue α → List (Ask α) → List (Queue α × Told α) := courseOf serve

end Queue

namespace Facade

variable {ι : Type u} {α : Type v} (f : Facade ι α)

/-- What a facade answers, and the queue afterwards. -/
def serve (q : Queue α) : Ask ι → Queue α × Told ι
  | .enqueue memory i =>
    let (q, answer) := f.enqueue? memory q i
    (q, .enqueued answer)
  | .dequeue =>
    let (q, i) := f.dequeue q
    (q, .item i)
  | .next _ =>
    let (q, i) := f.next q
    (q, .item i)
  | .collect =>
    let (q, l) := f.drain q
    (q, .items l)
  | .take k =>
    let (q, l) := f.takeUpTo k q
    (q, .items l)
  | .nth n =>
    let (q, dropped, i) := f.takeNth n q
    (q, .found dropped i)
  | .len => (q, .count q.len)
  | .isEmpty => (q, .flag q.isEmpty)
  | .nodeCount => (q, .nodes q.nodeCount)

/-- The queue and the facade's answer after each of these asks. -/
def course : Queue α → List (Ask ι) → List (Queue α × Told ι) := courseOf f.serve

end Facade

end AtomicFifo

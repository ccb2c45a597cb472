import AtomicFifo.Event
import AtomicFifo.Shared

/-!
# Calls and their atomic steps

A call on a linked queue is a walk through *program points*. Each constructor of `Call` is one
point, together with the values that the thread has read so far, and `Call.step` performs the
one atomic access of that point. Between two steps of a call other threads may take any number
of steps of theirs, so the values that a point carries may be out of date.

An enqueue allocates a node, announces it in the counter, and links it behind the last node;
where it finds a tail that lags behind it first helps the tail forward. A dequeue moves the
head over one link, then takes the item of the new sentinel and takes it off the counter; it
helps the tail only where it would otherwise overtake it. The question for emptiness reads the
head and its link.
-/

namespace AtomicFifo

universe u v

/-- What a thread asks of a queue. -/
inductive Request (α : Type u)
  | enqueue (item : α)
  | dequeue
  | isEmpty
  deriving DecidableEq, Repr

/-- What a finished call answers. -/
inductive Reply (α : Type u)
  /-- The item is in the queue. -/
  | enqueued
  /-- No memory; the item comes back. -/
  | refused (item : α)
  /-- The oldest item, or none from an empty queue. -/
  | dequeued (item : Option α)
  /-- Whether the queue was empty. -/
  | emptiness (empty : Bool)
  deriving DecidableEq, Repr

/-- A reply with its item seen as something else. -/
def Reply.map {α : Type u} {β : Type v} (f : α → β) : Reply α → Reply β
  | .enqueued => .enqueued
  | .refused item => .refused (f item)
  | .dequeued item => .dequeued (item.map f)
  | .emptiness empty => .emptiness empty

/-- A call, by the point that it has reached. -/
inductive Call (α : Type u)
  /-- About to allocate a node for the item. -/
  | allocate (item : α)
  /-- About to count the node. -/
  | announce (node : NodeId)
  /-- About to pin the thread, so that no node it reads is freed. -/
  | pin (node : NodeId)
  /-- About to read the tail. -/
  | readTail (node : NodeId)
  /-- About to read the link of the tail. -/
  | readTailLink (node tail : NodeId)
  /-- About to help a lagging tail forward, then to start over. -/
  | helpTail (node tail next : NodeId)
  /-- About to link the node behind the tail. -/
  | link (node tail : NodeId)
  /-- About to move the tail to the linked node. -/
  | swingTail (node tail : NodeId)
  /-- About to read the head. -/
  | readHead
  /-- About to read the tail, for a dequeue. -/
  | readHeadTail (head : NodeId)
  /-- About to read the link of the head. -/
  | readHeadLink (head tail : NodeId)
  /-- About to move a tail that stands on the head, then to start over. -/
  | helpHead (head next : NodeId)
  /-- About to move the head over its link. -/
  | unlink (head next : NodeId)
  /-- About to take the item out of the new sentinel and to retire the old one. -/
  | takeItem (head next : NodeId)
  /-- About to take the item off the counter. -/
  | discount (item : Option α)
  /-- About to read the head, for a question. -/
  | probeHead
  /-- About to read the link of the head, for a question. -/
  | probeLink (head : NodeId)
  /-- Returned. -/
  | done (reply : Reply α)

/-- The first point of a call. -/
def Request.start {α : Type u} : Request α → Call α
  | .enqueue item => .allocate item
  | .dequeue => .readHead
  | .isEmpty => .probeHead

namespace Call

variable {α : Type u}

/-- Performs the atomic access of a point, with the allocator's answer should it allocate. -/
def step (grant : Grant) (s : Shared α) : Call α → Shared α × Call α
  | .allocate item =>
    match s.place grant item with
    | (s, none) => (s, .done (.refused item))
    | (s, some node) => (s, .announce node)
  -- Counted before it is linked, so that nobody takes off the counter what is not on it.
  | .announce node => ({ s with count := s.count + 1 }, .pin node)
  | .pin node => (s, .readTail node)
  | .readTail node => (s, .readTailLink node s.tail)
  | .readTailLink node tail =>
    match s.next tail with
    | some next => (s, .helpTail node tail next)
    | none => (s, .link node tail)
  | .helpTail node tail next => ((s.exchangeTail tail next).1, .readTail node)
  | .link node tail =>
    match s.exchangeLink tail node with
    | (s, true) => (s, .swingTail node tail)
    | (s, false) => (s, .readTail node)
  -- If this fails, somebody else has helped already.
  | .swingTail node tail => ((s.exchangeTail tail node).1, .done .enqueued)
  | .readHead => (s, .readHeadTail s.head)
  | .readHeadTail head => (s, .readHeadLink head s.tail)
  | .readHeadLink head tail =>
    match s.next head with
    | none => (s, .done (.dequeued none))
    | some next => (s, if head = tail then .helpHead head next else .unlink head next)
  | .helpHead head next => ((s.exchangeTail head next).1, .readHead)
  | .unlink head next =>
    match s.exchangeHead head next with
    | (s, true) => (s, .takeItem head next)
    | (s, false) => (s, .readHead)
  -- Only the call that moved the head onto `next` comes here.
  | .takeItem _ next => (s, .discount (s.item next))
  | .discount item => ({ s with count := s.count - 1 }, .done (.dequeued item))
  | .probeHead => (s, .probeLink s.head)
  | .probeLink head => (s, .done (.emptiness (s.next head).isNone))
  | .done reply => (s, .done reply)

/-- The event that a step emits: a warning where the allocator refuses a node of `size` bytes. -/
def event? (grant : Grant) (size : Word) : Call α → Option Event
  | .allocate _ => if grant = .refused then some (.allocationFailed size) else none
  | _ => none

/-- The reply of a call that has returned. -/
def reply? : Call α → Option (Reply α)
  | .done reply => some reply
  | _ => none

/-- Whether the thread is pinned: nothing that it can still read is freed. -/
def pinned : Call α → Bool
  | .allocate _ | .announce _ | .pin _ | .done _ => false
  | _ => true

/-- The node that a step retires: it is unlinked for good and may be freed once no thread that
was pinned at that moment is still pinned. -/
def retires? : Call α → Option NodeId
  | .takeItem head _ => some head
  | _ => none

/-- Runs a call by itself until it returns, for at most so many steps. -/
def runAlone (grant : Grant) : Nat → Shared α → Call α → Shared α × Call α
  | 0, s, c => (s, c)
  | _ + 1, s, .done reply => (s, .done reply)
  | n + 1, s, c =>
    let (s, c) := step grant s c
    runAlone grant n s c

end Call

/-- Performs a request while nobody else uses the queue: the state afterwards and the reply, if
the call returns within the steps that a chain of this many nodes can cost. -/
def Shared.perform? {α : Type u} (s : Shared α) (grant : Grant) (r : Request α) :
    Option (Shared α × Reply α) :=
  let (s', c) := r.start.runAlone grant (3 * s.nodes.size + 10) s
  c.reply?.map (s', ·)

end AtomicFifo

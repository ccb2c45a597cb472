import AtomicFifo.System

/-!
# Freed nodes and places used again

A dequeue that has unlinked a node *retires* it. A collector frees a retired node once no thread
is pinned any more that was pinned when it was retired, and of the collector nothing else is
known. The allocator may hand out the place of a freed node again, so one place can be several
nodes, one after the other: a node is an `Incarnation` of its place.

A `Collector` is a system together with the places that wait to be freed and those that are
free. It also keeps books that no thread can see: which incarnation of a place a thread meant
when it read the name of the place, and what has been done to every node, and by which call.

* `Collector.step`    one move, of a thread or of the collector
* `Collector.Sound`   a name that a thread holds still means the same node
-/

namespace AtomicFifo

universe u

namespace Call

variable {α : Type u}

/-- The node whose link or item a step accesses. -/
def accesses? : Call α → Option NodeId
  | .readTailLink _ tail => some tail
  | .link _ tail => some tail
  | .readHeadLink head _ => some head
  | .takeItem _ next => some next
  | .probeLink head => some head
  | _ => none

/-- The place whose name a step reads. -/
def loads? (s : Shared α) : Call α → Option NodeId
  | .readTail _ => some s.tail
  | .readTailLink _ tail => s.next tail
  | .readHead => some s.head
  | .readHeadTail _ => some s.tail
  | .readHeadLink head _ => s.next head
  | .probeHead => some s.head
  | _ => none

/-- The place that a step expects the head or the tail to name, where it exchanges one of
them. -/
def expects? : Call α → Option NodeId
  | .helpTail _ tail _ => some tail
  | .swingTail _ tail => some tail
  | .helpHead head _ => some head
  | .unlink head _ => some head
  | _ => none

/-- Whether a step exchanges the head or the tail. -/
def exchanges (s : Shared α) : Call α → Bool
  | .helpTail _ tail _ => s.tail = tail
  | .swingTail _ tail => s.tail = tail
  | .helpHead head _ => s.tail = head
  | .unlink head _ => s.head = head
  | _ => false

/-- The node that a step makes the sentinel. -/
def crowns? (s : Shared α) : Call α → Option NodeId
  | .unlink head next => if s.head = head then some next else none
  | _ => none

/-- The node whose item a step takes out. -/
def takes? : Call α → Option NodeId
  | .takeItem _ next => some next
  | _ => none

end Call

/-- A node: a place, and how many nodes have had it before. -/
@[ext]
structure Incarnation where
  place : NodeId
  number : Nat
  deriving DecidableEq, Repr

/-- A call: its thread, and how many calls this thread has begun up to then. -/
structure CallId where
  thread : Nat
  number : Nat
  deriving DecidableEq, Repr

/-- What is done to a node. -/
inductive Deed
  /-- A call makes it the sentinel. -/
  | crowned (call : CallId) (node : Incarnation)
  /-- A call takes its item out. -/
  | taken (call : CallId) (node : Incarnation)
  | retired (node : Incarnation)
  | freed (node : Incarnation)
  deriving DecidableEq, Repr

/-- A retired node, and the threads that were pinned when it was retired and still are. -/
structure Retired where
  place : NodeId
  waitsFor : List Nat
  deriving DecidableEq, Repr

/-- A system whose nodes are freed and whose places are used again. -/
structure Collector (α : Type u) extends System α where
  /-- The retired nodes that are not freed. -/
  waiting : List Retired
  /-- The places that can be handed out again. -/
  free : List NodeId
  /-- How many nodes have had each place before the present one. -/
  number : NodeId → Nat
  /-- Which node each thread meant when it last read the name of a place. -/
  meant : Nat → NodeId → Nat
  /-- How many calls each thread has begun. -/
  begun : Nat → Nat
  /-- What has been done, the latest first. -/
  deeds : List Deed

namespace Collector

variable {α : Type u}

/-- What happens next. -/
inductive Move (α : Type u)
  /-- A thread that is in no call begins one. -/
  | start (thread : Nat) (request : Request α)
  /-- A thread performs the next step of its call, with the allocator's answer should it
  allocate. -/
  | advance (thread : Nat) (grant : Grant)
  /-- The collector frees a retired node. -/
  | collect (place : NodeId)

/-- So many threads on an empty queue, before the first move. -/
def init (threads : Nat) : Collector α where
  toSystem := .init threads
  waiting := []
  free := []
  number := fun _ => 0
  meant := fun _ _ => 0
  begun := fun _ => 0
  deeds := []

/-- The present incarnation of a place. -/
def incarnation (s : Collector α) (place : NodeId) : Incarnation := ⟨place, s.number place⟩

/-- The call that a thread has begun last. -/
def callId (s : Collector α) (thread : Nat) : CallId := ⟨thread, s.begun thread⟩

/-- The threads that are pinned. -/
def pinned (s : Collector α) : List Nat :=
  -- Whether a thread is pinned is a matter of where its call stands.
  (List.range s.calls.length).filter fun thread => (s.running? thread).any Call.pinned

/-- Whether the allocator can give this answer: only what is free is handed out again. -/
def grants (s : Collector α) : Grant → Bool
  | .recycled place => s.free.contains place
  | _ => true

/-- The books after a thread has read the name of a place. -/
def note (s : Collector α) (thread : Nat) (place : NodeId) : Collector α :=
  { s with
    meant := fun t p => if t = thread ∧ p = place then s.number place else s.meant t p }

/-- The books after a place has been handed out again. -/
def reuse (s : Collector α) (place : NodeId) : Collector α :=
  { s with
    free := s.free.erase place
    number := fun p => if p = place then s.number p + 1 else s.number p }

/-- A node is retired: it waits for all threads that are pinned now. -/
def retire (s : Collector α) (place : NodeId) : Collector α :=
  { s with
    -- A thread that is pinned later cannot have read the name of this node.
    waiting := ⟨place, s.pinned⟩ :: s.waiting
    deeds := .retired (s.incarnation place) :: s.deeds }

/-- A node is made the sentinel. -/
def crown (s : Collector α) (thread : Nat) (place : NodeId) : Collector α :=
  { s with deeds := .crowned (s.callId thread) (s.incarnation place) :: s.deeds }

/-- An item is taken out of its node. -/
def take (s : Collector α) (thread : Nat) (place : NodeId) : Collector α :=
  { s with deeds := .taken (s.callId thread) (s.incarnation place) :: s.deeds }

/-- A thread is no longer pinned. -/
def unpin (s : Collector α) (thread : Nat) : Collector α :=
  { s with
    -- Nothing that this thread may still hold is waited for on its account any more.
    waiting := s.waiting.map fun r => { r with waitsFor := r.waitsFor.filter (· ≠ thread) } }

/-- The place that a step hands out again. -/
def reuses? (grant : Grant) : Call α → Option NodeId
  | .allocate _ =>
    match grant with
    | .recycled place => some place
    | _ => none
  | _ => none

/-- The books before a step of a call. -/
def record (s : Collector α) (thread : Nat) (grant : Grant) (call : Call α) : Collector α :=
  -- The place is renumbered first, so that what is noted below is about the new node.
  let s := (reuses? grant call).elim s s.reuse
  let s := (call.loads? s.shared).elim s (s.note thread)
  let s := (call.crowns? s.shared).elim s (s.crown thread)
  let s := call.takes?.elim s (s.take thread)
  call.retires?.elim s s.retire

/-- A step of a thread's call, with the books. -/
def advance (s : Collector α) (thread : Nat) (grant : Grant) (call : Call α) : Collector α :=
  match call.step grant s.shared with
  | (shared, next) =>
    let s := s.record thread grant call
    let s := { s with shared := shared, calls := s.calls.set thread (some next) }
    -- A call that has returned gives up the pin that it held.
    if next.pinned then s else s.unpin thread

/-- One move; a move that cannot be made changes nothing. -/
def step (s : Collector α) : Move α → Collector α
  | .start thread request =>
    if s.idle thread then
      { s with
        toSystem := s.toSystem.step (.start thread request)
        begun := fun t => if t = thread then s.begun t + 1 else s.begun t }
    else s
  | .advance thread grant =>
    match s.running? thread with
    | none => s
    | some call => if s.grants grant then s.advance thread grant call else s
  | .collect place =>
    -- A retired node is freed only when nobody is waited for any more.
    if s.waiting.contains ⟨place, []⟩ then
      { s with
        waiting := s.waiting.erase ⟨place, []⟩
        free := place :: s.free
        deeds := .freed (s.incarnation place) :: s.deeds }
    else s

/-- A run. -/
def run (s : Collector α) (moves : List (Move α)) : Collector α := moves.foldl step s

/-- What some run of some number of threads leads to. -/
inductive Reachable : Collector α → Prop
  | init (threads : Nat) : Reachable (.init threads)
  | step {s : Collector α} (move : Move α) : Reachable s → Reachable (s.step move)

/-- Whether a place has a node that is not freed. -/
def Allocated (s : Collector α) (place : NodeId) : Prop :=
  -- Retired nodes are allocated until they are freed.
  place < s.shared.nodes.size ∧ place ∉ s.free

/-- Whether a name that a thread has read still means the node that it meant then, and this
node is not freed. -/
def Sound (s : Collector α) (thread : Nat) (place : NodeId) : Prop :=
  s.Allocated place ∧ s.meant thread place = s.number place

instance (s : Collector α) (place : NodeId) : Decidable (s.Allocated place) := by
  unfold Allocated
  infer_instance

instance (s : Collector α) (thread : Nat) (place : NodeId) : Decidable (s.Sound thread place) := by
  unfold Sound
  infer_instance

end Collector

end AtomicFifo

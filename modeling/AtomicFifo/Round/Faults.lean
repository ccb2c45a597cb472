import AtomicFifo.Round

/-!
# Faulty queues

To see that a stress round finds what it is looking for, it is run on a linked queue with
faults: a wrapper that loses, repeats or alters a tag, runs dry too early, gives wrong sizes,
or fails at a chosen tag. Each fault happens where its tag comes by.
-/

namespace AtomicFifo

universe u

/-- The faults of a queue. -/
structure Faults where
  /-- Enqueueing this tag finds no memory. -/
  pushStarve : Option Word
  /-- Enqueueing this tag panics. -/
  pushPanic : Option Word
  /-- A dequeue that meets this tag panics. -/
  popPanic : Option Word
  /-- This tag is swallowed, and the next one is answered. -/
  lose : Option Word
  /-- This tag is answered, and answered again by the next dequeue. -/
  repeated : Option Word
  /-- The first tag is answered as the second. -/
  replaced : Option (Word × Word)
  /-- After so many items the queue pretends to be empty. -/
  strand : Option Word
  /-- What the counter answers. -/
  len : Option Word
  /-- What the node count answers. -/
  nodes : Option Word
  deriving DecidableEq, Repr

/-- A linked queue with faults: how many items it has given, and the tag to give again. -/
structure Faulty (α : Type u) where
  inner : Shared α
  given : Nat
  pending : Option Word

/-- A call on a queue with faults. -/
inductive FaultyCall (α : Type u)
  /-- An enqueue with memory. -/
  | pushing (call : Call α)
  /-- An enqueue without memory. -/
  | starving (call : Call α)
  /-- An enqueue about to panic. -/
  | failing
  /-- A dequeue before it looks at the linked queue. -/
  | polling
  /-- A dequeue that is on the linked queue. -/
  | popping (call : Call α)
  /-- A dequeue that is on the linked queue again, after it has swallowed a tag. -/
  | replacing (call : Call α)
  /-- A question for emptiness. -/
  | probing (call : Call α)

namespace Faulty

variable {α : Type u}

/-- An empty queue with faults. -/
def init : Faulty α := ⟨.init, 0, none⟩

/-- Answers a tag, after its repetition and its alteration. -/
def deliver (faults : Faults) (s : Faulty α) (tag : Word) : Turn (Faulty α) (FaultyCall α) :=
  let pending := if faults.repeated = some tag then some tag else s.pending
  -- What is repeated is the tag itself, not what it is replaced with.
  let answer := match faults.replaced with
    | some (old, new) => if tag = old then new else tag
    | none => tag
  ⟨{ s with given := s.given + 1, pending := pending }, .returned (.dequeued (some answer)), none⟩

/-- A step of the inner call, with the allocator's answer and the way to go on. -/
def stepInner (unwrap : α → Word) (grant : Grant) (again : Call α → FaultyCall α)
    (s : Faulty α) (call : Call α) : Turn (Faulty α) (FaultyCall α) :=
  let event := call.event? grant Queue.nodeSize
  match s with
  | ⟨inner, given, pending⟩ =>
    match call.step grant inner with
    | (inner, .done reply) => ⟨⟨inner, given, pending⟩, .returned (reply.map unwrap), event⟩
    | (inner, call) => ⟨⟨inner, given, pending⟩, .running (again call), event⟩

/-- One step of a call. -/
def step (f : Facade Word α) (faults : Faults) (s : Faulty α) :
    FaultyCall α → Turn (Faulty α) (FaultyCall α)
  | .pushing call => stepInner f.unwrap .fresh .pushing s call
  | .starving call => stepInner f.unwrap .refused .starving s call
  | .failing => ⟨s, .panicked, none⟩
  | .polling =>
    -- A queue that has run dry does not even give the tag that it still owes.
    if faults.strand.any (·.toNat ≤ s.given) then ⟨s, .returned (.dequeued none), none⟩
    else
      match s with
      | ⟨inner, given, some tag⟩ =>
        ⟨⟨inner, given + 1, none⟩, .returned (.dequeued (some tag)), none⟩
      | ⟨inner, given, none⟩ => ⟨⟨inner, given, none⟩, .running (.popping .readHead), none⟩
  | .popping call =>
    match stepInner f.unwrap .fresh .popping s call with
    | ⟨s, .returned (.dequeued (some tag)), event⟩ =>
      -- The item is out of the linked queue already when the dequeue panics.
      if faults.popPanic = some tag then ⟨s, .panicked, event⟩
      else if faults.lose = some tag then ⟨s, .running (.replacing .readHead), event⟩
      else deliver faults s tag
    | turn => turn
  | .replacing call =>
    match stepInner f.unwrap .fresh .replacing s call with
    | ⟨s, .returned (.dequeued (some tag)), _⟩ => deliver faults s tag
    | turn => turn
  | .probing call => stepInner f.unwrap .fresh .probing s call

/-- Begins a call. -/
def start (f : Facade Word α) (faults : Faults) : Request Word → FaultyCall α
  | .enqueue tag =>
    -- A panic comes before any memory is asked for.
    if faults.pushPanic = some tag then .failing
    else if faults.pushStarve = some tag then .starving (.allocate (f.wrap tag))
    else .pushing (.allocate (f.wrap tag))
  | .dequeue => .polling
  | .isEmpty => .probing .probeHead

/-- A linked queue with faults as a subject, with the node size that it gives out. -/
def subject (f : Facade Word α) (faults : Faults) (nodeSize : Word) :
    Subject (Faulty α) (FaultyCall α) where
  start := start f faults
  step := step f faults
  refusal := Subject.noMemory
  -- Only the answers are false; the linked queue inside keeps its own counter and nodes.
  len? s := some (s, faults.len.getD s.inner.count)
  nodeCount? s := (faults.nodes.elim s.inner.nodeCount? (some ·.toNat)).map (s, ·)
  release s := s.inner.nodeCount?.map Queue.released
  nodeSize := nodeSize

end Faulty

namespace Round

/-- A round on a fresh queue of a flavor, and the events from the creation of the queue on. If
the queue is to have faults, it gives out a node size as well. -/
def ofFlavor (flavor : Flavor) (plan : Plan) (wrapper : Option (Faults × Word)) : RoundReport :=
  let report := match wrapper with
    | none => run (.linked flavor.facade) plan .init
    | some (faults, size) => run (Faulty.subject flavor.facade faults size) plan .init
  -- A queue is created before anything else happens in the round.
  { report with events := Queue.birth :: report.events }

end Round

end AtomicFifo

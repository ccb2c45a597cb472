import AtomicFifo.ByteSize
import AtomicFifo.Flavor
import AtomicFifo.Node.Layout

/-!
# Events

What queues and stress rounds report while they work. An event has a level, the part of the
program that it comes from, the thread that emits it, and a text. Times and rates are no part
of a model: `*` stands for them.
-/

namespace AtomicFifo

/-- How important an event is, the most important level first. -/
inductive Level
  | error
  | warn
  | info
  | debug
  | trace
  deriving DecidableEq, Repr

namespace Level

/-- The level as it stands in a log. -/
def name : Level → String
  | .error => "ERROR"
  | .warn => "WARN"
  | .info => "INFO"
  | .debug => "DEBUG"
  | .trace => "TRACE"

/-- The level as a word. -/
def word : Level → String
  | .error => "error"
  | .warn => "warn"
  | .info => "info"
  | .debug => "debug"
  | .trace => "trace"

/-- The rank of a level: a filter that lets a rank through lets all lower ones through. -/
def rank : Level → Nat
  | .error => 1
  | .warn => 2
  | .info => 3
  | .debug => 4
  | .trace => 5

end Level

/-- Something that happened and is reported. -/
inductive Event
  /-- A queue was created. -/
  | initialized (shape : NodeShape)
  /-- No memory was found for a node of this size. -/
  | allocationFailed (size : Word)
  /-- An empty queue was released. -/
  | released
  /-- A stress round began. -/
  | started (round : Word) (flavor : Flavor)
  /-- A consumer has ended after taking this many items. -/
  | drained (consumer items : Nat)
  /-- A stress round has passed, on nodes of this much memory. -/
  | finished (items memory : Word)
  deriving DecidableEq, Repr

namespace Event

/-- The level of an event. -/
def level : Event → Level
  | .initialized _ => .debug
  | .allocationFailed _ => .warn
  | .released => .debug
  | .started .. => .info
  | .drained .. => .debug
  | .finished .. => .info

/-- The part of the program that emits an event. -/
def target : Event → String
  | .initialized _ | .allocationFailed _ | .released => "lfqueue::head"
  | .started .. | .drained .. | .finished .. => "fifo_stress"

/-- The name of a consumer thread. -/
def consumerName (consumer : Nat) : String :=
  "consumer-" ++ toString consumer

/-- The thread that emits an event. -/
def thread : Event → String
  | .drained consumer _ => consumerName consumer
  | _ => "main"

/-- The text of an event. -/
def message : Event → String
  | .initialized shape =>
    "initialized queue, node_size=" ++ shape.size.toDecimal ++ ", link_offset="
      ++ shape.linkOffset.toDecimal
  | .allocationFailed size => "failed to allocate node, size=" ++ size.toDecimal
  | .released => "released queue"
  | .started round flavor => "started round(" ++ round.toDecimal ++ "), flavor=" ++ flavor.name
  | .drained _ items => "drained " ++ toString items ++ " items"
  | .finished items memory =>
    "finished round, items=" ++ items.toDecimal ++ ", elapsed=*ms, rate=*/s, node_memory="
      ++ ByteSize.short memory

/-- The event as a line of a log. -/
def line (e : Event) : String :=
  e.level.name ++ " " ++ e.target ++ ": " ++ e.message

/-- The event as a line of a log that names threads. -/
def threadLine (e : Event) : String :=
  e.level.name ++ " " ++ e.thread ++ " " ++ e.target ++ ": " ++ e.message

end Event

end AtomicFifo

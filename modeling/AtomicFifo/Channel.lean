import AtomicFifo.Channel.Bounded
import AtomicFifo.Facade

/-!
# Channels of integers

A channel carries integers from a sender to a receiver. Three kinds of queue carry it: a linked
queue of handles, a linked queue of addresses, where the integer itself is the address, and a
bounded buffer. A linked queue has room for every item, takes items even after the receiver is
gone, and reports a lack of memory as a panic. A bounded buffer makes a sender wait while it is
full, and there is none for a capacity beyond the address space.

* `Channel.linked`, `Channel.bounded`   the kinds
* `Channel.run`                         a script of sends and receives
-/

namespace AtomicFifo

universe u

/-- A channel with states of type `σ`. -/
structure Channel (σ : Type u) where
  /-- Creates a channel for so many items. -/
  create : (capacity : Word) → σ
  /-- Sends an integer, with or without memory for it. -/
  send : (memory : Bool) → σ → Word → σ × Sent
  /-- Receives the oldest integer, if there is one. -/
  receive : σ → σ × Option Word
  /-- Drops the sender. -/
  closeSender : σ → σ
  /-- Drops the receiver. -/
  closeReceiver : σ → σ

namespace Channel

variable {α : Type u}

/-- A linked queue behind a facade as a channel. Its ends share it, so dropping one of them
changes nothing. -/
def linked (f : Facade Word α) : Channel (Queue α) where
  create _ := .init
  send memory q v :=
    match f.enqueue? memory q v with
    | (q, .ok ()) => (q, .ok)
    | (q, .error _) => (q, .panicked .outOfMemory)
  receive := f.dequeue
  closeSender := id
  closeReceiver := id

/-- A bounded buffer as a channel. It has its memory from the start; what it holds outlives its
sender. -/
def bounded : Channel Bounded where
  create := Bounded.create
  send _ := Bounded.send
  receive := Bounded.receive
  closeSender := id
  closeReceiver := Bounded.closeReceiver

/-- A step of a script. -/
inductive Step
  | send (memory : Bool) (value : Word)
  | receive
  | closeSender
  | closeReceiver
  deriving DecidableEq, Repr

/-- The answer to a step. -/
inductive Answer
  | sent (how : Sent)
  | received (value : Option Word)
  | senderClosed
  | receiverClosed
  deriving DecidableEq, Repr

variable {σ : Type u}

/-- Runs a script. -/
def run (ch : Channel σ) : σ → List Step → List Answer
  | _, [] => []
  | s, .send memory v :: steps =>
    match ch.send memory s v with
    | (s, how) => .sent how :: run ch s steps
  | s, .receive :: steps =>
    match ch.receive s with
    | (s, v) => .received v :: run ch s steps
  | s, .closeSender :: steps => .senderClosed :: run ch (ch.closeSender s) steps
  | s, .closeReceiver :: steps => .receiverClosed :: run ch (ch.closeReceiver s) steps

/-- Runs a script on a fresh channel. -/
def script (ch : Channel σ) (capacity : Word) (steps : List Step) : List Answer :=
  ch.run (ch.create capacity) steps

end Channel

/-- The kinds of channel. -/
inductive ChannelKind
  /-- A linked queue of handles. -/
  | handles
  /-- A linked queue of addresses. -/
  | addresses
  /-- A bounded buffer. -/
  | bounded
  deriving DecidableEq, Repr

/-- Runs a script on a fresh channel of a kind, if it can be created. -/
def ChannelKind.script (kind : ChannelKind) (capacity : Word) (steps : List Channel.Step) :
    Except Panic (List Channel.Answer) :=
  match kind with
  | .handles => .ok ((Channel.linked (.handles Word)).script capacity steps)
  | .addresses => .ok ((Channel.linked (.addresses Word)).script capacity steps)
  | .bounded =>
    match Bounded.refusal? capacity with
    | none => .ok (Channel.bounded.script capacity steps)
    | some p => .error p

end AtomicFifo

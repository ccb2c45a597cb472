import AtomicFifo.Channel.Scenario
import AtomicFifo.Fifo

/-!
# A stream between two threads

In a stream one thread sends `0`, `1`, … up to a given number while another receives, until it
has received as many. Sends and polls advance by atomic steps, in any order; on a bounded
buffer of capacity one the sender waits while the buffer is full.

`Stream.follow` runs a schedule of the two threads, and `Stream.settle` the one on which they
take turns.
-/

namespace AtomicFifo

universe u v

/-- A bounded buffer by the steps of its calls: a send to a full buffer goes on waiting. -/
def Fifo.bounded : Fifo Bounded (Request Word) where
  start := id
  step b
    | .enqueue v =>
      match b.send v with
      | (b, .ok) => ⟨b, .returned .enqueued, none⟩
      | (b, .blocked) => ⟨b, .running (.enqueue v), none⟩
      | (b, .panicked _) => ⟨b, .panicked, none⟩
    | .dequeue =>
      match b.receive with
      | (b, v) => ⟨b, .returned (.dequeued v), none⟩
    | .isEmpty => ⟨b, .returned (.emptiness (b.size == 0)), none⟩

/-- The capacity of the channel of a stream. -/
def streamCapacity : Word := 1

/-- The two threads of a stream. -/
inductive StreamAgent
  | sender
  | receiver
  deriving DecidableEq, Repr

/-- A stream under way. -/
structure Stream (σ : Type u) (κ : Type v) where
  queue : σ
  /-- How many integers are sent. -/
  sent : Word
  /-- The send under way. -/
  sending : Option κ
  /-- The integers received, the latest first. -/
  received : List Word
  /-- How many integers are received. -/
  count : Word
  /-- The poll under way. -/
  polling : Option κ
  /-- Whether the sender has panicked. -/
  failed : Bool

namespace Stream

variable {σ : Type u} {κ : Type v}

/-- A stream before its first step. -/
def init (queue : σ) : Stream σ κ := ⟨queue, 0, none, [], 0, none, false⟩

/-- One step of one thread. -/
def step (f : Fifo σ κ) (iters : Word) (s : Stream σ κ) (agent : StreamAgent) : Stream σ κ :=
  match s with
  | ⟨queue, sent, sending, received, count, polling, failed⟩ =>
    match agent with
    | .sender =>
      match sending with
      | none =>
        -- A sender that has failed, or has sent all, does nothing.
        if failed || sent = iters then ⟨queue, sent, none, received, count, polling, failed⟩
        else ⟨queue, sent, some (f.start (.enqueue sent)), received, count, polling, failed⟩
      | some call =>
        match f.step queue call with
        | ⟨queue, .running call, _⟩ => ⟨queue, sent, some call, received, count, polling, failed⟩
        -- A refused send panics, and the sender with it.
        | ⟨queue, .returned (.refused _), _⟩ | ⟨queue, .panicked, _⟩ =>
          ⟨queue, sent, none, received, count, polling, true⟩
        | ⟨queue, .returned _, _⟩ => ⟨queue, sent + 1, none, received, count, polling, failed⟩
    | .receiver =>
      match polling with
      | none =>
        -- The receiver stops by its own count, whatever the sender does.
        if count = iters then ⟨queue, sent, sending, received, count, none, failed⟩
        else ⟨queue, sent, sending, received, count, some (f.start .dequeue), failed⟩
      | some call =>
        match f.step queue call with
        | ⟨queue, .running call, _⟩ => ⟨queue, sent, sending, received, count, some call, failed⟩
        | ⟨queue, .returned (.dequeued (some v)), _⟩ =>
          ⟨queue, sent, sending, v :: received, count + 1, none, failed⟩
        -- A poll that finds nothing is made again.
        | ⟨queue, _, _⟩ => ⟨queue, sent, sending, received, count, none, failed⟩

/-- Follows a schedule. -/
def follow (f : Fifo σ κ) (iters : Word) (s : Stream σ κ) (schedule : List StreamAgent) :
    Stream σ κ :=
  schedule.foldl (step f iters) s

/-- Whether both threads have ended. -/
def ended (iters : Word) (s : Stream σ κ) : Bool :=
  s.sending.isNone && (s.failed || s.sent == iters) && s.polling.isNone && s.count == iters

/-- Lets the threads take turns, for at most so many rounds. -/
def settle (f : Fifo σ κ) (iters : Word) : Nat → Stream σ κ → Stream σ κ
  | 0, s => s
  | n + 1, s =>
    if s.ended iters then s
    else settle f iters n (step f iters (step f iters s .sender) .receiver)

/-- What is observed of a stream when both threads have ended: every call, but of the receives
only those that answer an integer, since the number of the others depends on the schedule. -/
def record (iters : Word) (s : Stream σ κ) : Record where
  capacities := [streamCapacity]
  calls := (List.range s.sent.toNat).map (fun i => .send (UInt64.ofNat i))
  received := s.received.reverse.map some
  outcome := if s.ended iters then .ok else .blocked

/-- A stream on a fresh queue. -/
def play (f : Fifo σ κ) (iters : Word) (queue : σ) : Record :=
  -- Each integer takes a bounded number of turns, so this many are enough.
  (settle f iters (64 * (iters.toNat + 1)) (init queue)).record iters

end Stream

/-- The scenarios. -/
inductive ScenarioKind
  | ping
  | stream
  | batch
  deriving DecidableEq, Repr

/-- Plays a scenario on a fresh channel of a kind. -/
def Scenario.onKind (scenario : ScenarioKind) (kind : ChannelKind) (iters buflen : Word) : Record :=
  match scenario, kind with
  | .ping, .handles => playPing (.linked (.handles Word)) iters
  | .ping, .addresses => playPing (.linked (.addresses Word)) iters
  | .ping, .bounded => playPing .bounded iters
  | .batch, .handles => playBatch (.linked (.handles Word)) iters buflen
  | .batch, .addresses => playBatch (.linked (.addresses Word)) iters buflen
  | .batch, .bounded =>
    -- A capacity that the buffer refuses ends the scenario before its first call.
    match Bounded.refusal? buflen with
    | none => playBatch .bounded iters buflen
    | some p => ⟨[buflen], [], [], .panicked p⟩
  | .stream, .handles => Stream.play (.linked (.handles Word)) iters .init
  | .stream, .addresses => Stream.play (.linked (.addresses Word)) iters .init
  | .stream, .bounded => Stream.play .bounded iters (.create streamCapacity)

end AtomicFifo

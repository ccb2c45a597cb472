import AtomicFifo.Fifo

/-!
# Crowds of threads on one queue

A crowd is a number of producers and consumers that use one queue at the same time, and a main
thread that waits for the producers. Producer `p` of a plan with `items` items each enqueues
the tags `p * items + i` in order; in a plan of pairs it also dequeues once after each
enqueue. A consumer reads the mark `finished`, then polls; it ends on the first empty poll
that began after it had read the mark as set. The main thread joins the producers in their
order, up to the first that failed, and then sets the mark.

`Crowd.step` lets one agent take one step, so a schedule is a list of agents and
`Crowd.follow` runs it. Everything a crowd can do is a schedule. `Crowd.settle` follows one
particular schedule, on which every agent runs for as long as it can; `settle_eq_follow` says
so.
-/

namespace AtomicFifo

universe u v

/-- Who does what in a crowd. -/
structure Plan where
  producers : Word
  consumers : Word
  /-- How many tags each producer enqueues. -/
  items : Word
  /-- Whether producers dequeue once after each enqueue. -/
  pairs : Bool
  deriving DecidableEq, Repr

/-- How a thread has ended. -/
inductive Ending
  | completed
  /-- An enqueue was refused, and its item came back. -/
  | refused (item : Word)
  | panicked
  deriving DecidableEq, Repr

/-- Where a producer stands. -/
inductive ProducerPhase (κ : Type v)
  | ready
  | pushing (call : κ)
  | popping (call : κ)
  | ended (ending : Ending)

/-- A producer: where it stands, how many tags it has enqueued, what it has dequeued (the
latest first), and how often it found the queue empty. -/
structure Producer (κ : Type v) where
  phase : ProducerPhase κ
  pushed : Word
  taken : List Word
  misses : Nat

/-- Where a consumer stands; a poll goes with the value of the mark that was read before. -/
inductive ConsumerPhase (κ : Type v)
  | ready
  | polling (finished : Bool) (call : κ)
  | ended (ending : Ending)

/-- A consumer: where it stands, and what it has dequeued, the latest first. -/
structure Consumer (κ : Type v) where
  phase : ConsumerPhase κ
  taken : List Word

/-- The threads of a crowd. -/
inductive Agent
  | producer (p : Nat)
  | consumer (c : Nat)
  | main
  deriving DecidableEq, Repr

/-- A crowd at work: the queue, the threads, how many producers are joined, the mark, and the
events emitted, the latest first. -/
structure Crowd (σ : Type u) (κ : Type v) where
  queue : σ
  producers : Array (Producer κ)
  consumers : Array (Consumer κ)
  joined : Nat
  finished : Bool
  log : List Event

namespace Plan

/-- The number of all tags, unless it needs more than 64 bits. -/
def total? (plan : Plan) : Option Word := Word.mul? plan.producers plan.items

/-- The tag that producer `p` enqueues as number `i`, unless it needs more than 64 bits. -/
def tag? (plan : Plan) (p i : Word) : Option Word := Word.mulAdd? p plan.items i

end Plan

namespace Producer

variable {κ : Type v}

/-- A producer before its first step. -/
def init : Producer κ := ⟨.ready, 0, [], 0⟩

/-- How the producer has ended, if it has. -/
def ending? (p : Producer κ) : Option Ending :=
  match p.phase with
  | .ended e => some e
  | _ => none

end Producer

namespace Consumer

variable {κ : Type v}

/-- A consumer before its first step. -/
def init : Consumer κ := ⟨.ready, []⟩

/-- How the consumer has ended, if it has. -/
def ending? (c : Consumer κ) : Option Ending :=
  match c.phase with
  | .ended e => some e
  | _ => none

end Consumer

namespace Crowd

variable {σ : Type u} {κ : Type v}

/-- A crowd before its first step. -/
def init (plan : Plan) (queue : σ) : Crowd σ κ where
  queue := queue
  producers := Array.replicate plan.producers.toNat .init
  consumers := Array.replicate plan.consumers.toNat .init
  joined := 0
  finished := false
  log := []

/-- A producer that begins its next call, or ends. -/
def beginPush (f : Fifo σ κ) (plan : Plan) (index : Nat) (p : Producer κ) : Producer κ :=
  if p.pushed = plan.items then { p with phase := .ended .completed }
  else
    match plan.tag? (UInt64.ofNat index) p.pushed with
    -- The tag would need more than a word, and its computation panics.
    | none => { p with phase := .ended .panicked }
    | some tag => { p with phase := .pushing (f.start (.enqueue tag)) }

/-- A producer after a step of its enqueue. -/
def afterPush (f : Fifo σ κ) (plan : Plan) (p : Producer κ) : Progress κ → Producer κ
  | .running call => { p with phase := .pushing call }
  | .panicked => { p with phase := .ended .panicked }
  -- A refused producer ends, and the others go on.
  | .returned (.refused item) => { p with phase := .ended (.refused item) }
  | .returned _ =>
    let phase := if plan.pairs then .popping (f.start .dequeue) else .ready
    { p with phase := phase, pushed := p.pushed + 1 }

/-- A producer after a step of its dequeue. -/
def afterPop (p : Producer κ) : Progress κ → Producer κ
  | .running call => { p with phase := .popping call }
  | .panicked => { p with phase := .ended .panicked }
  | .returned reply =>
    match reply.item? with
    | some tag => { p with phase := .ready, taken := tag :: p.taken }
    -- A producer of pairs goes on without an item.
    | none => { p with phase := .ready, misses := p.misses + 1 }

/-- A consumer after a step of its poll, and what it reports should it end. -/
def afterPoll (index : Nat) (finished : Bool) (c : Consumer κ) :
    Progress κ → Consumer κ × Option Event
  | .running call => ({ c with phase := .polling finished call }, none)
  | .panicked => ({ c with phase := .ended .panicked }, none)
  | .returned reply =>
    match reply.item? with
    | some tag => ({ phase := .ready, taken := tag :: c.taken }, none)
    | none =>
      -- The mark was set before the poll, so nothing more can come.
      if finished then
        ({ c with phase := .ended .completed }, some (.drained index c.taken.length))
      else ({ c with phase := .ready }, none)

/-- One step of one agent. An agent that has ended, or that waits, does nothing. -/
def step (f : Fifo σ κ) (plan : Plan) (crowd : Crowd σ κ) (agent : Agent) : Crowd σ κ :=
  match crowd with
  | ⟨queue, producers, consumers, joined, finished, log⟩ =>
    match agent with
    | .producer index =>
      match producers[index]? with
      | none => ⟨queue, producers, consumers, joined, finished, log⟩
      | some p =>
        match p.phase with
        | .ready =>
          let producers := producers.setIfInBounds index (beginPush f plan index p)
          ⟨queue, producers, consumers, joined, finished, log⟩
        | .pushing call =>
          match f.step queue call with
          | ⟨queue, progress, event⟩ =>
            let producers := producers.setIfInBounds index (afterPush f plan p progress)
            ⟨queue, producers, consumers, joined, finished, event.toList ++ log⟩
        | .popping call =>
          match f.step queue call with
          | ⟨queue, progress, event⟩ =>
            let producers := producers.setIfInBounds index (afterPop p progress)
            ⟨queue, producers, consumers, joined, finished, event.toList ++ log⟩
        | .ended _ => ⟨queue, producers, consumers, joined, finished, log⟩
    | .consumer index =>
      match consumers[index]? with
      | none => ⟨queue, producers, consumers, joined, finished, log⟩
      | some c =>
        match c.phase with
        | .ready =>
          -- The mark is read before the poll, so an empty poll after a set mark is final.
          let c := { c with phase := .polling finished (f.start .dequeue) }
          ⟨queue, producers, consumers.setIfInBounds index c, joined, finished, log⟩
        | .polling seen call =>
          match f.step queue call with
          | ⟨queue, progress, event⟩ =>
            match afterPoll index seen c progress with
            | (c, report) =>
              ⟨queue, producers, consumers.setIfInBounds index c, joined, finished,
                report.toList ++ (event.toList ++ log)⟩
        | .ended _ => ⟨queue, producers, consumers, joined, finished, log⟩
    | .main =>
      if finished then ⟨queue, producers, consumers, joined, finished, log⟩
      else
        match producers[joined]? with
        | none => ⟨queue, producers, consumers, joined, true, log⟩
        | some p =>
          match p.phase with
          | .ended .completed => ⟨queue, producers, consumers, joined + 1, finished, log⟩
          -- The producers behind the first that failed are not waited for.
          | .ended _ => ⟨queue, producers, consumers, joined, true, log⟩
          | _ => ⟨queue, producers, consumers, joined, finished, log⟩

/-- Follows a schedule. -/
def follow (f : Fifo σ κ) (plan : Plan) (crowd : Crowd σ κ) (schedule : List Agent) : Crowd σ κ :=
  schedule.foldl (step f plan) crowd

/-- Whether the mark is set and all threads have ended. -/
def ended (crowd : Crowd σ κ) : Bool :=
  crowd.finished && crowd.producers.all (·.ending?.isSome) &&
    crowd.consumers.all (·.ending?.isSome)

/-- The agent whose turn it is on the schedule of `settle`: the producers in their order, with
the main thread joining each of them, then the consumers in their order. -/
def turn? (crowd : Crowd σ κ) : Option Agent :=
  if crowd.finished then
    match crowd.producers.findIdx? (·.ending?.isNone) with
    | some p => some (.producer p)
    | none => (crowd.consumers.findIdx? (·.ending?.isNone)).map .consumer
  else
    -- The main thread waits for this producer, so it is run to its end first.
    match crowd.producers[crowd.joined]? with
    | none => some .main
    | some p => if p.ending?.isSome then some .main else some (.producer crowd.joined)

/-- Lets the agents run in turn, for at most so many steps. -/
def settle (f : Fifo σ κ) (plan : Plan) : Nat → Crowd σ κ → Crowd σ κ
  | 0, crowd => crowd
  | n + 1, crowd =>
    match crowd.turn? with
    | none => crowd
    | some agent => settle f plan n (step f plan crowd agent)

/-- More steps than the agents of a plan can take in turn, on a queue of so many items. -/
def patience (plan : Plan) (prefilled : Nat) : Nat :=
  -- No call of an agent that runs alone takes more than a few steps.
  40 * (plan.producers.toNat * plan.items.toNat + plan.producers.toNat + plan.consumers.toNat
    + prefilled + 1)

/-- What `settle` does is a schedule. -/
theorem settle_eq_follow (f : Fifo σ κ) (plan : Plan) (n : Nat) (crowd : Crowd σ κ) :
    ∃ schedule, settle f plan n crowd = follow f plan crowd schedule := by
  induction n generalizing crowd with
  | zero => exact ⟨[], rfl⟩
  | succ n ih =>
    unfold settle
    split
    · exact ⟨[], rfl⟩
    · rename_i agent _
      obtain ⟨schedule, h⟩ := ih (step f plan crowd agent)
      exact ⟨agent :: schedule, h⟩

/-- No agent has a turn only if the crowd has ended. -/
theorem ended_of_turn?_eq_none {crowd : Crowd σ κ} (h : crowd.turn? = none) :
    crowd.ended = true := by
  unfold turn? at h
  split at h
  · rename_i hf
    split at h
    · cases h
    · rename_i hp
      simp only [Option.map_eq_none_iff, Array.findIdx?_eq_none_iff] at h hp
      simp only [ended, hf, Bool.true_and, Bool.and_eq_true, Array.all_eq_true']
      exact ⟨fun p hm => by simpa using hp p hm, fun c hm => by simpa using h c hm⟩
  · split at h
    · cases h
    · split at h <;> cases h

end Crowd

end AtomicFifo

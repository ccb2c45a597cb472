import AtomicFifo.Crowd
import AtomicFifo.ErrorChain
import AtomicFifo.Round.Verification

/-!
# Stress rounds

A stress round lets a crowd of producers and consumers loose on a queue and verifies that
nothing was lost, duplicated, altered or invented. The queue under test is a `Subject`: any
`Fifo`, with a counter, a node count and a release.

A round ends in one of three ways: it passes, it fails with an error, or it panics. The threads
run in a scope, which waits for all of them and does not let the panic of a thread get lost. A
round that fails before it releases its queue drops it as it is.

* `Round.join`      what becomes of a round in which threads have failed
* `Round.inspect`   the verification of a round in which none has
* `Round.conclude`  how a round ends, once all its threads have
* `Round.play`      a whole round, on a schedule of its threads
* `Round.run`       a whole round, on the schedule of `Crowd.settle`
-/

namespace AtomicFifo

universe u v

/-- A queue under test. To ask it for its size may change it, and a broken queue need not answer. -/
structure Subject (σ : Type u) (κ : Type v) extends Fifo σ κ where
  /-- The error that a producer ends with whose enqueue gave this item back. -/
  refusal : Word → ErrorChain
  /-- Asks the counter. -/
  len? : σ → Option (σ × Word)
  /-- Counts the nodes; a walk over a broken chain does not end. -/
  nodeCount? : σ → Option (σ × Nat)
  /-- Releases the queue. -/
  release : σ → Option (Except Panic Unit × List Event)
  /-- The size of a node. -/
  nodeSize : Word

namespace Subject

/-- The error of an enqueue that found no memory, whatever its item. -/
def noMemory (_ : Word) : ErrorChain :=
  (ErrorChain.single (AllocError.mk ()).message).context "failed to enqueue"

/-- A linked queue of tags as a subject. -/
def linked {α : Type u} (f : Facade Word α) : Subject (Shared α) (Call α) where
  toFifo := .linked f
  refusal := noMemory
  len? s := some (s, s.count)
  nodeCount? s := s.nodeCount?.map (s, ·)
  release s := s.nodeCount?.map Queue.released
  nodeSize := Queue.nodeSize

end Subject

/-- An error that ends a round. -/
inductive RoundError
  /-- An enqueue was refused with this error. -/
  | push (error : ErrorChain)
  | producerPanicked
  | consumerPanicked
  | violation (v : Violation)
  deriving DecidableEq, Repr

/-- The error with its causes. -/
def RoundError.chain : RoundError → ErrorChain
  | .push error => error
  | .producerPanicked => .single "producer panicked"
  | .consumerPanicked => .single "consumer panicked"
  | .violation v => .single v.message

/-- Why a round did not pass. -/
inductive Failure
  | error (e : RoundError)
  | panic (p : Panic)
  deriving DecidableEq, Repr

/-- How a round ends. -/
inductive Outcome
  | passed
  | failed (f : Failure)
  /-- Some thread has not ended, or the queue has not answered: the round has no outcome yet. -/
  | unfinished
  deriving DecidableEq, Repr

/-- How a round ended, and the events that it emitted. -/
structure RoundReport where
  outcome : Outcome
  events : List Event
  deriving DecidableEq, Repr

/-- The end of a round, with the queue that it drops as it is, if it does. -/
structure Conclusion (σ : Type u) extends RoundReport where
  dropped : Option σ

namespace Round

/-- Whether a list of so many tags can be allocated. -/
def allocatable (total : Word) : Bool := 8 * total.toNat < 1 <<< 63

/-- Joins threads in their order, up to the first that has failed: how this one has ended, and
the threads that are left. -/
def joinEach : List Ending → Option (Ending × List Ending)
  | [] => none
  -- Joining a thread that has ended normally finds nothing.
  | .completed :: threads => joinEach threads
  | e :: threads => some (e, threads)

/-- How a scope ends whose body has come to this result, when all its threads have ended: it
panics if one of those that nobody has joined has panicked. A panic of the body goes first. -/
def scope (unjoined : List Ending) : Except Failure Unit → Except Failure Unit
  | .error (.panic p) => .error (.panic p)
  -- The body has come to an end without a panic of its own.
  | result => if unjoined.contains .panicked then .error (.panic .scopedThread) else result

/-- The error that the main thread meets where it joins a producer that has failed. -/
def producerError (refusal : Word → ErrorChain) : Ending → RoundError
  | .refused item => .push (refusal item)
  -- Only an enqueue that was refused leaves an error of its own.
  | _ => .producerPanicked

/-- Joins the producers in their order, then the consumers, up to the first thread that has
failed. -/
def join (refusal : Word → ErrorChain) (producers consumers : List Ending) (total : Word) :
    Except Failure Unit :=
  match joinEach producers with
  | some (e, rest) => scope (rest ++ consumers) (.error (.error (producerError refusal e)))
  | none =>
    -- The list of results is allocated once the producers are joined, before the consumers.
    if !allocatable total then scope consumers (.error (.panic .capacityOverflow))
    else
      match joinEach consumers with
      | some (_, rest) => scope rest (.error (.error .consumerPanicked))
      | none => scope [] (.ok ())

variable {σ : Type u} {κ : Type v}

/-- The endings of the producers of a crowd that has ended. -/
def producerEndings (crowd : Crowd σ κ) : List Ending :=
  crowd.producers.toList.filterMap (·.ending?)

/-- The endings of the consumers of a crowd that has ended. -/
def consumerEndings (crowd : Crowd σ κ) : List Ending :=
  crowd.consumers.toList.filterMap (·.ending?)

/-- All tags taken, consumer by consumer. -/
def taken (crowd : Crowd σ κ) : List Word :=
  crowd.consumers.toList.flatMap (·.taken.reverse)

/-- The verification: the queue afterwards, and what was found, if the queue answers. -/
def inspect (subject : Subject σ κ) (total : Word) (queue : σ) (taken : List Word) :
    Option (σ × Except Violation Unit) :=
  match subject.len? queue with
  | none => none
  | some (queue, count) =>
    if count ≠ 0 then
      -- The counter is asked once more for the message.
      (subject.len? queue).map fun (queue, count) => (queue, .error (.countLeft count))
    else
      (subject.nodeCount? queue).map fun (queue, nodes) =>
        (queue, Verification.check count nodes taken total)

/-- How a round ends whose threads have all ended normally: the verification, then the release,
then the memory that the round has used up. -/
def verify (subject : Subject σ κ) (total : Word) (queue : σ) (taken : List Word) :
    Conclusion σ :=
  match inspect subject total queue taken with
  | none => ⟨⟨.unfinished, []⟩, none⟩
  -- A violation leaves the queue to be dropped, with what it holds.
  | some (queue, .error v) => ⟨⟨.failed (.error (.violation v)), []⟩, some queue⟩
  | some (queue, .ok ()) =>
    match subject.release queue with
    | none => ⟨⟨.unfinished, []⟩, none⟩
    | some (.error p, events) => ⟨⟨.failed (.panic p), events⟩, none⟩
    | some (.ok (), events) =>
      -- The memory is computed for the report only, when the queue is already released.
      match Word.mul? total subject.nodeSize with
      | none => ⟨⟨.failed (.panic .multiplyOverflow), events⟩, none⟩
      | some memory => ⟨⟨.passed, events ++ [.finished total memory]⟩, none⟩

/-- How a round ends, once all its threads have. -/
def conclude (subject : Subject σ κ) (total : Word) (crowd : Crowd σ κ) : Conclusion σ :=
  if !crowd.ended then ⟨⟨.unfinished, crowd.log.reverse⟩, none⟩
  else
    match join subject.refusal (producerEndings crowd) (consumerEndings crowd) total with
    -- The queue is not verified after a failure, and is dropped as it is.
    | .error f => ⟨⟨.failed f, crowd.log.reverse⟩, some crowd.queue⟩
    | .ok () =>
      let conclusion := verify subject total crowd.queue (taken crowd)
      { conclusion with events := crowd.log.reverse ++ conclusion.events }

/-- A whole round on a queue, its threads on this schedule: without a thread if the tags do not
fit a word. -/
def play (subject : Subject σ κ) (plan : Plan) (queue : σ) (schedule : List Agent) :
    Conclusion σ :=
  match plan.total? with
  -- The number of all tags is computed before any thread is started.
  | none => ⟨⟨.failed (.panic .multiplyOverflow), []⟩, some queue⟩
  | some total =>
    conclude subject total (Crowd.follow subject.toFifo plan (.init plan queue) schedule)

/-- A whole round on a queue, its threads on the schedule of `Crowd.settle`. -/
def run (subject : Subject σ κ) (plan : Plan) (queue : σ) : RoundReport :=
  match plan.total? with
  | none => ⟨.failed (.panic .multiplyOverflow), []⟩
  | some total =>
    (conclude subject total
      (Crowd.settle subject.toFifo plan (Crowd.patience plan 0) (.init plan queue))).toRoundReport

/-- What `run` does is a play. -/
theorem run_eq_play (subject : Subject σ κ) (plan : Plan) (queue : σ) :
    ∃ schedule, run subject plan queue = (play subject plan queue schedule).toRoundReport := by
  obtain ⟨schedule, h⟩ := Crowd.settle_eq_follow subject.toFifo plan (Crowd.patience plan 0)
    (.init plan queue)
  refine ⟨schedule, ?_⟩
  unfold run play
  cases plan.total? with
  | none => rfl
  | some total => rw [h]

end Round

namespace RoundReport

/-- The consumers that reported how much they had taken. -/
def drainers (r : RoundReport) : List Nat :=
  r.events.filterMap fun
    | .drained consumer _ => some consumer
    | _ => none

/-- The number of items that consumers reported to have taken. -/
def drained (r : RoundReport) : Nat :=
  (r.events.map fun
    | .drained _ items => items
    | _ => 0).foldr (· + ·) 0

end RoundReport

end AtomicFifo

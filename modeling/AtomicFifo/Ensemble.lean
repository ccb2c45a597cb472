import AtomicFifo.Facade
import AtomicFifo.System
import Mathlib.Logic.Function.Basic

/-!
# Threads on several queues

An ensemble is a family of linked queues and the threads that use them. Every queue carries items
of its own kind behind a facade of its own, and a thread is in at most one call at a time, on
whichever queue it likes. As with a single queue a run is a list of moves, and every list is a
run; the allocator gives any answers, so a place may well be handed out again.

* `Ensemble.run`          a run
* `Ensemble.transcript`   what the threads ask, what they are answered, and what is reported
-/

namespace AtomicFifo

universe u v w

/-- A request with its item seen as something else. -/
def Request.map {ι : Type v} {α : Type w} (f : ι → α) : Request ι → Request α
  | .enqueue item => .enqueue (f item)
  | .dequeue => .dequeue
  | .isEmpty => .isEmpty

/-- A family of queues, and the threads that use them. -/
structure Ensemble (κ : Type u) (α : κ → Type w) where
  queues : (queue : κ) → Shared (α queue)
  /-- The call that each thread is in, or the last one that it has returned from. -/
  calls : List (Option (Σ queue, Call (α queue)))

namespace Ensemble

variable {κ : Type u} {ι : κ → Type v} {α : κ → Type w}

/-- What one thread does next. -/
inductive Move (κ : Type u) (ι : κ → Type v)
  /-- A thread that is in no call begins one. -/
  | start (thread : Nat) (queue : κ) (request : Request (ι queue))
  /-- A thread performs the next step of its call, with the allocator's answer should it
  allocate. -/
  | advance (thread : Nat) (grant : Grant)

/-- What shows of a thread. -/
inductive Sign (κ : Type u) (ι : κ → Type v)
  | asked (thread : Nat) (queue : κ) (request : Request (ι queue))
  | reported (thread : Nat) (queue : κ) (event : Event)
  | answered (thread : Nat) (queue : κ) (reply : Reply (ι queue))

/-- The thread that a sign shows of. -/
def Sign.thread : Sign κ ι → Nat
  | .asked thread _ _ | .reported thread _ _ | .answered thread _ _ => thread

/-- The event that a sign shows. -/
def Sign.event? : Sign κ ι → Option Event
  | .reported _ _ event => some event
  | _ => none

/-- So many threads, none of them in a call, on empty queues. -/
def init (threads : Nat) : Ensemble κ α := ⟨fun _ => .init, List.replicate threads none⟩

/-- The call that a thread is in. -/
def running? (s : Ensemble κ α) (thread : Nat) : Option (Σ queue, Call (α queue)) :=
  (s.calls[thread]?).join.filter fun call => call.2.reply?.isNone

/-- Whether a thread exists and is in no call. -/
def idle (s : Ensemble κ α) (thread : Nat) : Bool :=
  decide (thread < s.calls.length) && (s.running? thread).isNone

variable [DecidableEq κ] (f : (queue : κ) → Facade (ι queue) (α queue))

/-- One move. -/
def step (s : Ensemble κ α) : Move κ ι → Ensemble κ α
  | .start thread queue request =>
    if s.idle thread then
      { s with calls := s.calls.set thread (some ⟨queue, (request.map (f queue).wrap).start⟩) }
    else s
  | .advance thread grant =>
    match s.running? thread with
    | none => s
    | some ⟨queue, call⟩ =>
      match call.step grant (s.queues queue) with
      | (shared, call) =>
        ⟨Function.update s.queues queue shared, s.calls.set thread (some ⟨queue, call⟩)⟩

/-- What shows of a move, if the nodes of the queues have these sizes. -/
def signs (size : κ → Word) (s : Ensemble κ α) : Move κ ι → List (Sign κ ι)
  | .start thread queue request =>
    if s.idle thread then [.asked thread queue request] else []
  | .advance thread grant =>
    match s.running? thread with
    | none => []
    | some ⟨queue, call⟩ =>
      ((call.event? grant (size queue)).toList.map (.reported thread queue)) ++
        ((call.step grant (s.queues queue)).2.reply?.toList.map fun reply =>
          .answered thread queue (reply.map (f queue).unwrap))

/-- A run. -/
def run (s : Ensemble κ α) (moves : List (Move κ ι)) : Ensemble κ α :=
  moves.foldl (step f) s

/-- What shows of a run. -/
def transcript (size : κ → Word) : Ensemble κ α → List (Move κ ι) → List (Sign κ ι)
  | _, [] => []
  | s, move :: moves => s.signs f size move ++ transcript size (s.step f move) moves

end Ensemble

end AtomicFifo

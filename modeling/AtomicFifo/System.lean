import AtomicFifo.Call

/-!
# Threads on one queue

A system is a linked queue and the threads that use it, each of which is in at most one call at
a time. A move lets one thread begin a call or perform one atomic step of its call, with or
without memory for a new node. A run is a list of moves: it says what the threads ask for and
in which order their steps take place, and every list is a run, since a move that its thread
cannot make changes nothing. No place of a node is handed out twice.

* `System.run`               a run
* `System.Reachable`         the systems that some run of some number of threads leads to
* `System.reachable_iff`     the two agree
* `Shared.items`             the items of a queue, as they stand in the chain
-/

namespace AtomicFifo

universe u

namespace Shared

variable {α : Type u}

/-- The items behind the sentinel, the oldest first; the chain has to end. -/
def items (s : Shared α) : List α :=
  (s.chain?.getD []).tail.filterMap s.item

end Shared

/-- The answer of an allocator that hands out no place twice. -/
def Grant.ofMemory (memory : Bool) : Grant :=
  if memory then .fresh else .refused

/-- What one thread does next. -/
inductive Move (α : Type u)
  /-- A thread that is in no call begins one. -/
  | start (thread : Nat) (request : Request α)
  /-- A thread performs the next step of its call. -/
  | advance (thread : Nat) (memory : Bool)
  deriving DecidableEq, Repr

/-- A queue and its threads. -/
structure System (α : Type u) where
  shared : Shared α
  /-- The call that each thread is in, or the last one that it has returned from. -/
  calls : List (Option (Call α))

namespace System

variable {α : Type u}

/-- So many threads, none of them in a call, on an empty queue. -/
def init (threads : Nat) : System α := ⟨.init, List.replicate threads none⟩

/-- The call that a thread is in. -/
def running? (s : System α) (thread : Nat) : Option (Call α) :=
  match s.calls[thread]? with
  | some (some (.done _)) => none
  | some call => call
  | none => none

/-- Whether a thread exists and is in no call. -/
def idle (s : System α) (thread : Nat) : Bool :=
  decide (thread < s.calls.length) && (s.running? thread).isNone

/-- One move. -/
def step (s : System α) : Move α → System α
  | .start thread request =>
    if s.idle thread then { s with calls := s.calls.set thread (some request.start) } else s
  | .advance thread memory =>
    -- Without a call in progress there is no step to make.
    match s.running? thread with
    | none => s
    | some call =>
      match call.step (.ofMemory memory) s.shared with
      | (shared, call) => ⟨shared, s.calls.set thread (some call)⟩

/-- The event that a move emits, if the nodes of the queue have this size. -/
def event? (s : System α) (size : Word) : Move α → Option Event
  | .start _ _ => none
  | .advance thread memory => (s.running? thread).bind (·.event? (.ofMemory memory) size)

/-- A run. -/
def run (s : System α) (moves : List (Move α)) : System α :=
  moves.foldl step s

/-- The events of a run. -/
def events (size : Word) : System α → List (Move α) → List Event
  | _, [] => []
  | s, move :: moves => (s.event? size move).toList ++ events size (s.step move) moves

/-- The systems that some run of some number of threads leads to. -/
inductive Reachable : System α → Prop
  | init (threads : Nat) : Reachable (.init threads)
  | step {s : System α} (move : Move α) : Reachable s → Reachable (s.step move)

/-- Whether no call is in progress. -/
def quiet (s : System α) : Bool :=
  (List.range s.calls.length).all s.idle

/-- No moves change nothing. -/
@[simp] theorem run_nil (s : System α) : s.run [] = s := rfl

/-- A run makes its first move and goes on from there. -/
@[simp] theorem run_cons (s : System α) (move : Move α) (moves : List (Move α)) :
    s.run (move :: moves) = (s.step move).run moves := rfl

/-- One run after another is the run of all their moves. -/
theorem run_append (s : System α) (moves moves' : List (Move α)) :
    s.run (moves ++ moves') = (s.run moves).run moves' := by
  simp [run]

/-- A run from a reachable system leads to reachable systems. -/
theorem Reachable.run {s : System α} (h : s.Reachable) (moves : List (Move α)) :
    (s.run moves).Reachable := by
  induction moves generalizing s with
  | nil => exact h
  | cons move moves ih => exact ih (.step move h)

/-- The reachable systems are those that runs from the start lead to. -/
theorem reachable_iff {s : System α} :
    s.Reachable ↔ ∃ threads moves, s = (init threads).run moves := by
  constructor
  · intro h
    -- Each step adds its move at the end of the run so far.
    induction h with
    | init threads => exact ⟨threads, [], rfl⟩
    | step move _ ih =>
      obtain ⟨threads, moves, rfl⟩ := ih
      exact ⟨threads, moves ++ [move], by simp [run_append]⟩
  · rintro ⟨threads, moves, rfl⟩
    exact (Reachable.init threads).run moves

end System

end AtomicFifo

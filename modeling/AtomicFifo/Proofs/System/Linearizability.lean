import AtomicFifo.Proofs.System.History

/-!
# Linearizability

A queue that any number of threads use at the same time behaves as a list that is used by one
thread at a time: each call takes effect at one moment between its call and its return.

* `linearizable_run`   every step of every run, and the history of the whole run
-/

namespace AtomicFifo

universe u

variable {α : Type u}

namespace System

/-- A run of any number of threads is linearizable. The queue's contents are the items of the
nodes that the head leads to. Every next move changes them as its act says: an item enters
at the end where the exchange of a link succeeds, the first item leaves where the exchange of
the head succeeds, a dequeue that answers nothing has just read a null link in an empty queue,
and nothing else changes anything. The whole history is that of a list; and in the acts of
each thread, an accepted enqueue lets its item enter once and a dequeue that answers an item
lets this item leave once, between the call and the return, while all other calls let nothing
enter or leave. -/
theorem linearizable_run (threads : Nat) (moves : List (Move α)) :
    let s := (init threads : System α).run moves
    let h := (init threads : System α).history moves
    (∃ behind, s.shared.chain? = some (s.shared.head :: behind) ∧
        behind.map s.shared.item = s.shared.items.map some) ∧
      (∀ move, Act.Affects (s.act? move) s.shared.items (s.step move).shared.items) ∧
      Legal h s.shared.items ∧
      ∀ thread, ∃ st, s.standing? thread = some st ∧ Course (History.of thread h) st := by
  intro s h
  have hinv : s.Inv := ((Reachable.init threads).run moves).inv
  exact ⟨hinv.coherent.chain_items, hinv.affects, legal_run threads moves,
    course_run threads moves⟩

/-- Two threads: the one stops after its item has entered, and the other helps the tail before
it lets the item leave. -/
example :
    (init 2 : System Nat).history
        (.start 0 (.enqueue 7) :: List.replicate 6 (.advance 0 true) ++
          .start 1 .dequeue :: List.replicate 10 (.advance 1 true)) =
      [(0, .called (.enqueue 7)), (0, .entered 7), (1, .called .dequeue), (1, .left 7),
        (1, .returned (.dequeued (some 7)))] := by
  rfl

end System

end AtomicFifo

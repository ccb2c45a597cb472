import AtomicFifo.Proofs.System.Arrangement
import AtomicFifo.Proofs.System.History

/-!
# Asking whether a queue is empty

Whoever asks whether a queue is empty reads the head and then the link of the node that it stood
on. By then the head may have moved on, and the link is that of a node that is in the queue no
more. The answer is right all the same, at some moment between the call and the return: a link
that is null belongs to the present head, and a link that leads on was there when the head was
read, or was written when its node was still the head.

* `Shared.Coherent.items_eq_nil_iff`  an empty queue, by the link of its head
* `Question`                          a call that asks, from its beginning to its return
* `Inv.asking_run`                    what the thread has seen while it is in the call
* `emptiness_run`                     the answer was right at some moment of the call
-/

namespace AtomicFifo

universe u

variable {α : Type u}

namespace Shared

variable {s s' : Shared α}

/-- Nothing is behind a head without a link. -/
theorem Coherent.items_eq_nil_iff (h : s.Coherent) : s.items = [] ↔ s.next s.head = none := by
  obtain ⟨behind, hl⟩ := h.linked
  obtain ⟨behind', hchain, hmap⟩ := h.chain_items
  rw [hl.chain?_eq] at hchain
  cases hchain
  cases behind with
  | nil => exact ⟨fun _ => hl.next_head_nil, fun _ => by simpa using hmap.symm⟩
  | cons m behind =>
    rw [hl.next_head_cons]
    refine ⟨fun hnil => ?_, fun hnone => nomatch hnone⟩
    rw [hnil] at hmap
    cases hmap

/-- A head without a link goes nowhere. -/
private theorem Advanced.head_eq (h : s.Advanced s') (hnone : s.next s.head = none) :
    s'.head = s.head := by
  rcases h.pointers with ⟨hhead, -⟩ | ⟨hnext, -⟩ | ⟨hhead, -⟩
  · exact hhead
  · rw [hnone] at hnext
    cases hnext
  · exact hhead

end Shared

namespace System

variable {s : System α} {thread : Nat}

/-- A thread asks whether the queue is empty: it is called at first, then come moves in which it
does nothing that its caller could tell, and with its next step after them it answers. -/
structure Question (s : System α) (thread : Nat) (during : List (Move α)) (memory empty : Bool) :
    Prop where
  called : s.act? (.start thread .isEmpty) = some (thread, .called .isEmpty)
  silent : History.of thread ((s.step (.start thread .isEmpty)).history during) = []
  returned : ((s.step (.start thread .isEmpty)).run during).act? (.advance thread memory) =
    some (thread, .returned (.emptiness empty))

/-- There was something in the queue at some moment of these moves. -/
def Filled (s : System α) (moves : List (Move α)) : Prop :=
  ∃ earlier later, moves = earlier ++ later ∧ (s.run earlier).shared.items ≠ []

/-- A moment with items lies before any further move, too. -/
private theorem Filled.concat {moves : List (Move α)} (h : s.Filled moves) (move : Move α) :
    s.Filled (moves ++ [move]) := by
  obtain ⟨earlier, later, rfl, hitems⟩ := h
  exact ⟨earlier, later ++ [move], List.append_assoc .., hitems⟩

/-- Where there are items now, there was a moment with items. -/
private theorem Filled.last {moves : List (Move α)} (h : (s.run moves).shared.items ≠ []) :
    s.Filled moves :=
  ⟨moves, [], (List.append_nil _).symm, h⟩

/-- Where a thread stands that is asking, after some moves: it has read nothing, or it has read a
head, and if this has a link by now, something was in the queue since the thread was called. -/
def Asking (s : System α) (moves : List (Move α)) (thread : Nat) : Prop :=
  (s.run moves).At thread .probeHead ∨
    ∃ head, (s.run moves).At thread (.probeLink head) ∧
      (((s.run moves).shared.next head).isSome → s.Filled moves)

/-- A link that a former head has after a move was there before, or was written behind a node that
is still the head. -/
private theorem Inv.filled_step (h : s.Inv) {head : NodeId} {move : Move α}
    (hreach : Links.Reaches s.shared.next head s.shared.head)
    (hsome : ((s.step move).shared.next head).isSome) :
    (s.shared.next head).isSome ∨ (s.step move).shared.items ≠ [] := by
  cases hnext : s.shared.next head with
  | some m => exact .inl rfl
  | none =>
    -- The head that the thread has read is still the head, and now it has a link.
    obtain rfl := hreach.eq_of_none hnext
    obtain ⟨e, he⟩ := h.exists_change move
    have hhead := (he.advanced h.coherent).head_eq hnext
    refine .inr fun hitems => ?_
    rw [(h.step move).coherent.items_eq_nil_iff, hhead] at hitems
    rw [hitems] at hsome
    cases hsome

/-- The moves of others. -/
private theorem Inv.asking_other (h : s.Inv) {moves : List (Move α)} {move : Move α}
    (hask : s.Asking moves thread) (hne : thread ≠ move.thread) :
    s.Asking (moves ++ [move]) thread := by
  have hrun := h.run moves
  -- The move is one of another thread, so the call stays where it is.
  have hstay : ∀ {call : Call α}, (s.run moves).At thread call →
      (s.run (moves ++ [move])).At thread call := by
    intro call hat
    rw [run_append]
    exact (calls_step_ne hne).trans hat
  rcases hask with hat | ⟨head, hat, hfilled⟩
  · exact .inl (hstay hat)
  · refine .inr ⟨head, hstay hat, fun hsome => ?_⟩
    rw [run_append] at hsome
    rcases hrun.filled_step (hrun.knows hat) hsome with hsome | hitems
    · exact (hfilled hsome).concat move
    · apply Filled.last
      rw [run_append]
      exact hitems

/-- The thread's own moves, as long as it does not return. -/
private theorem Inv.asking_self (h : s.Inv) {moves : List (Move α)} {move : Move α}
    (hask : s.Asking moves move.thread) (hsilent : (s.run moves).act? move = none) :
    s.Asking (moves ++ [move]) move.thread := by
  cases move with
  | start thread request =>
    -- A thread that is in a call cannot begin another one.
    have hbusy : ¬ (s.run moves).idle thread = true := fun hidle => by
      simp [act?, hidle] at hsilent
    have hrun : s.run (moves ++ [.start thread request]) = s.run moves := by
      rw [run_append]
      exact step_start_of_busy hbusy
    unfold Asking
    rw [hrun]
    rcases hask with hat | ⟨head, hat, hfilled⟩
    · exact .inl hat
    · exact .inr ⟨head, hat, fun hsome => (hfilled hsome).concat _⟩
  | advance thread memory =>
    rcases hask with hat | ⟨head, hat, -⟩
    · -- The head is read here, and if it has a link, something is in the queue now.
      have hstep : s.run (moves ++ [.advance thread memory]) =
          ⟨(s.run moves).shared, (s.run moves).calls.set thread
            (some (.probeLink (s.run moves).shared.head))⟩ := by
        rw [run_append]
        exact step_advance (running?_eq_some_iff.2 ⟨hat, rfl⟩)
      refine .inr ⟨(s.run moves).shared.head, ?_, fun hsome => ?_⟩
      · rw [hstep]
        exact at_set_self hat
      · rw [hstep] at hsome
        apply Filled.concat
        apply Filled.last
        intro hitems
        rw [(h.run moves).coherent.items_eq_nil_iff] at hitems
        rw [hitems] at hsome
        cases hsome
    · -- The link would be read here, and the call would return.
      have hrun := running?_eq_some_iff.2 ⟨hat, rfl⟩
      simp only [Move.thread] at hrun
      simp [act?, hrun, Call.act?, Call.step, Call.reply?] at hsilent

/-- While a thread is in a call that asks whether the queue is empty. -/
theorem Inv.asking_run (h : s.Inv) {during : List (Move α)} (hat : s.At thread .probeHead)
    (hsilent : History.of thread (s.history during) = []) : s.Asking during thread := by
  -- By induction on the moves, the last one taken off: it is one of the call or of another thread.
  induction during using List.reverseRecOn with
  | nil => exact .inl hat
  | append_singleton during move ih =>
    rw [history_concat, History.of_append, List.append_eq_nil_iff] at hsilent
    have ih := ih hsilent.1
    by_cases hne : thread ≠ move.thread
    · exact h.asking_other ih hne
    · obtain rfl : thread = move.thread := not_not.1 hne
      apply h.asking_self ih
      cases hact : (s.run during).act? move with
      | none => rfl
      | some x =>
        have hx := act?_thread hact
        simp [hact, History.of, hx] at hsilent

/-- In every run of any number of threads, and for every call that asks whether the queue is
empty: if the answer is that it is, there was nothing in the queue at some moment between the call
and its return, and if the answer is that it is not, there was something at some such moment. -/
theorem emptiness_run (threads : Nat) (before during : List (Move α)) (thread : Nat)
    (memory empty : Bool)
    (h : Question ((init threads).run before) thread during memory empty) :
    let called := ((init threads).run before).step (.start thread .isEmpty)
    ∃ earlier later, during = earlier ++ later ∧
      (called.run earlier).shared.items.isEmpty = empty := by
  intro called
  have hinv : called.Inv := ((Reachable.init threads).run before).inv.step _
  have hidle : ((init threads).run before).idle thread = true := by
    by_contra hbusy
    have := h.called
    simp [act?, hbusy] at this
  have hat : called.At thread .probeHead := by
    obtain ⟨hlt, -⟩ : thread < ((init threads).run before).calls.length ∧ _ := by
      simpa [idle] using hidle
    simp only [called, step_start hidle]
    exact List.getElem?_set_self hlt
  have hreturned := h.returned
  rcases hinv.asking_run hat h.silent with hat | ⟨head, hat, hfilled⟩
  · -- The thread has not even read the head.
    have hrun := running?_eq_some_iff.2 ⟨hat, rfl⟩
    simp [act?, called, hrun, Call.act?, Call.step, Call.reply?] at hreturned
  · have hrun := running?_eq_some_iff.2 ⟨hat, rfl⟩
    have hempty : ((called.run during).shared.next head).isNone = empty := by
      simpa [act?, called, hrun, Call.act?, Call.step, Call.reply?] using hreturned
    have hknows : Links.Reaches _ head _ := (hinv.run during).knows hat
    cases hnext : (called.run during).shared.next head with
    | none =>
      -- The head has not moved, and the queue is empty where the link is read.
      refine ⟨during, [], (List.append_nil _).symm, ?_⟩
      rw [(hinv.run during).coherent.items_eq_nil hknows hnext, ← hempty, hnext]
      rfl
    | some m =>
      obtain ⟨earlier, later, hsplit, hitems⟩ := hfilled (by rw [hnext]; rfl)
      refine ⟨earlier, later, hsplit, ?_⟩
      rw [← hempty, hnext]
      exact List.isEmpty_eq_false_iff.2 hitems

/-- The one item is taken out between the two steps of a thread that asks. The link that it reads
then is that of a node that has left the queue, and its answer is that of the moment before. -/
theorem emptiness_run_overtaken :
    let before : List (Move Nat) := .start 0 (.enqueue 7) :: List.replicate 7 (.advance 0 true)
    let during : List (Move Nat) :=
      .advance 1 true :: .start 0 .dequeue :: List.replicate 6 (.advance 0 true)
    let called := ((init 2).run before).step (.start 1 .isEmpty)
    Question ((init 2).run before) 1 during true false ∧ (called.run during).shared.items = [] ∧
      ∃ earlier later, during = earlier ++ later ∧
        (called.run earlier).shared.items.isEmpty = false := by
  intro before during called
  have hquestion : Question ((init 2).run before) 1 during true false :=
    ⟨by decide +kernel, by decide +kernel, by decide +kernel⟩
  exact ⟨hquestion, by decide +kernel, emptiness_run 2 before during 1 true false hquestion⟩

end System

end AtomicFifo

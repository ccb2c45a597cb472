import AtomicFifo.Proofs.Call.Knowledge

/-!
# The invariant of threads on one queue

In every system that a run leads to, the shared state is coherent, every thread knows what
`Call.Knows` promises at its point, and the nodes that calls have allocated and not linked yet
stand apart from the chain and belong to one call each.

A move changes the shared state in one of the ways of `Shared.Change`, whatever the other
threads are doing, and so a run lets it only grow.

* `Reachable.inv`      the invariant
* `Inv.change`         a step of a call is a change
* `Inv.grows`          links, items, head and tail along a run
-/

namespace AtomicFifo

universe u

variable {α : Type u}

/-- The thread that makes a move. -/
def Move.thread : Move α → Nat
  | .start thread _ => thread
  | .advance thread _ => thread

namespace System

variable {s : System α}

/-- A thread is at a point of its call, or has returned from it. -/
def At (s : System α) (thread : Nat) (call : Call α) : Prop :=
  s.calls[thread]? = some (some call)

/-- A thread is in a call if it has one without a reply. -/
theorem running?_eq_some_iff {thread : Nat} {call : Call α} :
    s.running? thread = some call ↔ s.At thread call ∧ call.reply? = none := by
  unfold running? At
  cases s.calls[thread]? with
  | none => simp
  | some o =>
    cases o with
    | none => simp
    | some c =>
      cases c with
      -- A call that has returned is none that the thread is in.
      | done reply =>
        constructor
        · rintro ⟨⟩
        · rintro ⟨⟨⟩, ⟨⟩⟩
      | _ =>
        constructor
        · rintro ⟨⟩
          exact ⟨rfl, rfl⟩
        · rintro ⟨⟨⟩, -⟩
          rfl

/-- A thread that is in no call has made none yet, or has returned from its last one. -/
theorem running?_eq_none_iff {thread : Nat} {o : Option (Call α)}
    (h : s.calls[thread]? = some o) :
    s.running? thread = none ↔ o = none ∨ ∃ reply, o = some (.done reply) := by
  unfold running?
  rw [h]
  cases o with
  | none => simp
  | some c => cases c <;> simp

/-- At the start no thread is in a call. -/
theorem running?_init (threads thread : Nat) :
    (init threads : System α).running? thread = none := by
  unfold running? init
  rw [List.getElem?_replicate]
  by_cases h : thread < threads <;> simp [h]

/-- A thread that is idle begins its call. -/
theorem step_start {thread : Nat} {request : Request α} (h : s.idle thread = true) :
    s.step (.start thread request) =
      ⟨s.shared, s.calls.set thread (some request.start)⟩ := by
  simp [step, h]

/-- A thread that is not idle begins nothing. -/
theorem step_start_of_busy {thread : Nat} {request : Request α} (h : ¬ s.idle thread = true) :
    s.step (.start thread request) = s := by
  simp [step, h]

/-- A thread in a call performs its next step. -/
theorem step_advance {thread : Nat} {memory : Bool} {call : Call α}
    (h : s.running? thread = some call) :
    s.step (.advance thread memory) = ⟨(call.step (.ofMemory memory) s.shared).1,
      s.calls.set thread (some (call.step (.ofMemory memory) s.shared).2)⟩ := by
  simp [step, h]

/-- A thread in no call performs nothing. -/
theorem step_advance_of_idle {thread : Nat} {memory : Bool} (h : s.running? thread = none) :
    s.step (.advance thread memory) = s := by
  simp [step, h]

/-- The points of all threads after one of them has come to another point. -/
theorem at_set {shared : Shared α} {thread thread' : Nat} {call call' : Call α}
    (h : At ⟨shared, s.calls.set thread (some call)⟩ thread' call') :
    (thread' = thread ∧ call' = call) ∨ (thread' ≠ thread ∧ s.At thread' call') := by
  unfold At at h ⊢
  rw [List.getElem?_set] at h
  split at h
  · rename_i heq
    split at h
    · cases h
      exact .inl ⟨heq.symm, rfl⟩
    · cases h
  · rename_i hne
    exact .inr ⟨Ne.symm hne, h⟩

/-- A thread that has taken a step is where the step has led. -/
theorem at_set_self {shared : Shared α} {thread : Nat} {call call' : Call α}
    (h : s.At thread call) : At ⟨shared, s.calls.set thread (some call')⟩ thread call' := by
  obtain ⟨hlt, -⟩ := List.getElem?_eq_some_iff.1 h
  exact List.getElem?_set_self hlt

/-- The other threads are where they were. -/
theorem at_set_of_ne {shared : Shared α} {thread thread' : Nat} {call call' : Call α}
    (h : s.At thread' call') (hne : thread' ≠ thread) :
    At ⟨shared, s.calls.set thread (some call)⟩ thread' call' := by
  unfold At
  rw [List.getElem?_set_ne (Ne.symm hne)]
  exact h

/-- The call that another thread is in does not change. -/
theorem calls_step_ne {move : Move α} {thread : Nat} (hne : thread ≠ move.thread) :
    (s.step move).calls[thread]? = s.calls[thread]? := by
  cases move with
  | start caller request =>
    by_cases hidle : s.idle caller = true
    · rw [step_start hidle]
      exact List.getElem?_set_ne (Ne.symm hne)
    · rw [step_start_of_busy hidle]
  | advance caller memory =>
    cases hrun : s.running? caller with
    | none => rw [step_advance_of_idle hrun]
    | some call =>
      rw [step_advance hrun]
      exact List.getElem?_set_ne (Ne.symm hne)

/-- A move leaves the calls of the other threads as they are. -/
theorem running?_step_ne {move : Move α} {thread : Nat} (hne : thread ≠ move.thread) :
    (s.step move).running? thread = s.running? thread := by
  unfold running?
  rw [calls_step_ne hne]

/-- What holds of the shared state and of every thread. -/
structure Inv (s : System α) : Prop where
  coherent : s.shared.Coherent
  knows : ∀ {thread : Nat} {call : Call α}, s.At thread call → call.Knows s.shared
  apart : ∀ {thread : Nat} {call : Call α} {n : NodeId},
    s.At thread call → call.node? = some n → s.shared.Apart n
  own : ∀ {thread thread' : Nat} {call call' : Call α} {n : NodeId},
    s.At thread call → s.At thread' call' → call.node? = some n → call'.node? = some n →
      thread = thread'

/-- Before the first move no thread is in a call. -/
theorem not_at_init {threads thread : Nat} {call : Call α} :
    ¬ (init threads : System α).At thread call := by
  intro h
  simp [At, init, List.getElem?_replicate] at h

/-- The invariant holds at the start. -/
theorem inv_init (threads : Nat) : (init threads : System α).Inv where
  coherent := ⟨⟨[], Shared.init_chain.linked⟩, rfl⟩
  knows h := absurd h not_at_init
  apart h := absurd h not_at_init
  own h := absurd h not_at_init

/-- Every step of a call is a change. -/
theorem Inv.change {thread : Nat} {memory : Bool} {call : Call α} (h : s.Inv)
    (hrun : s.running? thread = some call) :
    s.shared.Change (call.effect? s.shared) (s.step (.advance thread memory)).shared := by
  have hat := (running?_eq_some_iff.1 hrun).1
  rw [step_advance hrun]
  exact call.step_change memory (h.knows hat) fun n hn => h.apart hat hn

/-- A call that has just begun has no node. -/
theorem request_node? (request : Request α) : request.start.node? = none := by
  cases request <;> rfl

/-- A call that has just begun knows nothing. -/
private theorem request_knows (shared : Shared α) (request : Request α) :
    request.start.Knows shared := by
  cases request <;> trivial

/-- The invariant holds when a call begins. -/
theorem Inv.start {thread : Nat} (h : s.Inv) (request : Request α) :
    Inv ⟨s.shared, s.calls.set thread (some request.start)⟩ where
  coherent := h.coherent
  knows hat := by
    rcases at_set hat with ⟨-, rfl⟩ | ⟨-, hat⟩
    · exact request_knows _ request
    · exact h.knows hat
  apart hat hn := by
    -- A call that begins has no node of its own.
    rcases at_set hat with ⟨-, rfl⟩ | ⟨-, hat⟩
    · simp [request_node?] at hn
    · exact h.apart hat hn
  own hat hat' hn hn' := by
    rcases at_set hat with ⟨-, rfl⟩ | ⟨-, hat⟩
    · simp [request_node?] at hn
    · rcases at_set hat' with ⟨-, rfl⟩ | ⟨-, hat'⟩
      · simp [request_node?] at hn'
      · exact h.own hat hat' hn hn'

/-- The invariant holds after a step of a call. -/
theorem Inv.advance {thread : Nat} {memory : Bool} {call : Call α} (h : s.Inv)
    (hrun : s.running? thread = some call) : (s.step (.advance thread memory)).Inv := by
  have hat := (running?_eq_some_iff.1 hrun).1
  have hknows := h.knows hat
  have hchange : s.shared.Change (call.effect? s.shared)
      (call.step (.ofMemory memory) s.shared).1 :=
    call.step_change memory hknows fun n hn => h.apart hat hn
  have hgrows := hchange.grows h.coherent
  -- Another call's node is not the one that this step may link.
  have hother : ∀ {thread' : Nat} {call' : Call α} {n : NodeId}, thread' ≠ thread →
      s.At thread' call' → call'.node? = some n → call.effect? s.shared ≠ some (.linked n) := by
    intro thread' call' n hne hat' hn heff
    exact hne (h.own hat' hat hn (Call.node?_of_effect? heff))
  rw [step_advance hrun]
  exact {
    coherent := hchange.coherent h.coherent
    knows := by
      intro thread' call' hat'
      rcases at_set hat' with ⟨-, rfl⟩ | ⟨-, hat'⟩
      · exact call.step_knows memory h.coherent hknows
      · -- What the others know stays true while the state only grows.
        exact (h.knows hat').grows hgrows
    apart := by
      intro thread' call' n hat' hn
      rcases at_set hat' with ⟨-, rfl⟩ | ⟨hne, hat'⟩
      · exact call.step_apart memory h.coherent hknows (fun n hn => h.apart hat hn) hn
      · exact hchange.apart h.coherent (h.apart hat' hn) (hother hne hat' hn)
    own := by
      -- A node that has just been allocated is nobody else's, since theirs are older.
      have hfresh : ∀ {thread' : Nat} {call' : Call α} {n : NodeId}, thread' ≠ thread →
          s.At thread' call' → call'.node? = some n →
            (call.step (.ofMemory memory) s.shared).2.node? ≠ some n := by
        intro thread' call' n hne hat' hn hn'
        rcases call.node?_step memory hknows hn' with ⟨hold, -⟩ | ⟨rfl, -, -⟩
        · exact hne (h.own hat' hat hn hold)
        · exact Nat.lt_irrefl _ (h.apart hat' hn).allocated
      intro thread₁ thread₂ call₁ call₂ n hat₁ hat₂ hn₁ hn₂
      -- Of two calls with one node at most one has taken the step.
      rcases at_set hat₁ with ⟨rfl, rfl⟩ | ⟨hne₁, hold₁⟩
      · rcases at_set hat₂ with ⟨rfl, -⟩ | ⟨hne₂, hold₂⟩
        · rfl
        · exact absurd hn₁ (hfresh hne₂ hold₂ hn₂)
      · rcases at_set hat₂ with ⟨rfl, rfl⟩ | ⟨hne₂, hold₂⟩
        · exact absurd hn₂ (hfresh hne₁ hold₁ hn₁)
        · exact h.own hold₁ hold₂ hn₁ hn₂ }

/-- Every move keeps the invariant. -/
theorem Inv.step (h : s.Inv) (move : Move α) : (s.step move).Inv := by
  cases move with
  | start thread request =>
    by_cases hidle : s.idle thread = true
    · rw [step_start hidle]
      exact h.start request
    · rwa [step_start_of_busy hidle]
  | advance thread memory =>
    cases hrun : s.running? thread with
    | none => rwa [step_advance_of_idle hrun]
    | some call => exact h.advance hrun

/-- The invariant holds of every reachable system. -/
theorem Reachable.inv (h : s.Reachable) : s.Inv := by
  induction h with
  | init threads => exact inv_init threads
  | step move _ ih => exact ih.step move

/-- Every run keeps the invariant. -/
theorem Inv.run (h : s.Inv) (moves : List (Move α)) : (s.run moves).Inv := by
  induction moves generalizing s with
  | nil => exact h
  | cons move moves ih => exact ih (h.step move)

/-- A move changes the shared state in one of the possible ways, if at all. -/
theorem Inv.exists_change (h : s.Inv) (move : Move α) :
    ∃ e, s.shared.Change e (s.step move).shared := by
  cases move with
  | start thread request =>
    refine ⟨none, ?_⟩
    by_cases hidle : s.idle thread = true
    · rw [step_start hidle]
      exact .rest
    · rw [step_start_of_busy hidle]
      exact .rest
  | advance thread memory =>
    cases hrun : s.running? thread with
    | none =>
      rw [step_advance_of_idle hrun]
      exact ⟨none, .rest⟩
    | some call => exact ⟨_, h.change hrun⟩

/-- Along a run the shared state only grows. -/
theorem Inv.grows (h : s.Inv) (moves : List (Move α)) : s.shared.Grows (s.run moves).shared := by
  induction moves generalizing s with
  | nil => exact .refl _
  | cons move moves ih =>
    obtain ⟨e, he⟩ := h.exists_change move
    exact (he.grows h.coherent).trans (ih (h.step move))

end System

end AtomicFifo

import AtomicFifo.Queue.Estate

/-!
# The nodes of a queue that is used alone

A call that runs by itself allocates a node only where it enqueues an item, and retires one only
where it dequeues an item: the sentinel, which the head has left. So all nodes of a queue are
those that it has retired and then those of its chain, in the order of their allocation.

* `Shared.turnover_enqueue`, `Linked.turnover_dequeue_cons`   one call
* `Watched.Settled`      the nodes retired and the nodes of the chain
* `Settled.enqueue?`, `Settled.takeUpTo`, `Settled.drain`, `Settled.takeNth`
-/

namespace AtomicFifo

universe u

variable {α : Type u}

/-! ### One call -/

namespace Call

/-- An enqueue that has its node, or a call that has returned. -/
def linking : Call α → Bool
  | .announce _ | .pin _ | .readTail _ | .readTailLink _ _ | .helpTail _ _ _ | .link _ _
  | .swingTail _ _ | .done _ => true
  | _ => false

/-- A call that links goes on linking until it has returned. -/
private theorem linking_step {c : Call α} (h : c.linking = true) (grant : Grant) (s : Shared α) :
    (c.step grant s).2.linking = true := by
  cases c with
  | readTailLink node tail =>
    simp only [step]
    split <;> rfl
  | link node tail =>
    simp only [step]
    split <;> rfl
  | announce node | pin node | readTail node | helpTail node tail next | swingTail node tail
  | done reply => rfl
  | _ => cases h

/-- Once an enqueue has its node it allocates and retires no other. -/
private theorem turnover_linking {c : Call α} (h : c.linking = true) (grant : Grant) (n : Nat)
    (s : Shared α) : c.turnover grant n s = ⟨[], []⟩ := by
  induction n generalizing s c with
  | zero => rfl
  | succ n ih =>
    -- A node is allocated at the first point of an enqueue and retired at one of a dequeue.
    have hself : c.allocates? grant s = none ∧ c.retires? = none := by
      cases c <;> first | exact ⟨rfl, rfl⟩ | cases h
    simp only [turnover, ih (linking_step h grant s), hself, Turnover.append]
    rfl

end Call

namespace Shared

variable {s : Shared α} {behind : List NodeId}

/-- An enqueue with memory allocates one node. -/
theorem turnover_enqueue (s : Shared α) (a : α) :
    s.turnover .fresh (.enqueue a) = ⟨[s.nodes.size], []⟩ := by
  -- After the first step the call has its node.
  have hrest := Call.turnover_linking (c := (.announce s.nodes.size : Call α)) rfl .fresh
    (3 * s.nodes.size + 9) { s with nodes := s.nodes.push ⟨some a, none⟩ }
  show Turnover.append ⟨[s.nodes.size], []⟩ (Call.turnover _ _ _ _) = _
  exact congrArg (Turnover.append ⟨[s.nodes.size], []⟩) hrest

/-- An enqueue without memory allocates none. -/
theorem turnover_refused (s : Shared α) (a : α) :
    s.turnover .refused (.enqueue a) = ⟨[], []⟩ := by
  have hrest := Call.turnover_linking (c := (.done (.refused a) : Call α)) rfl .refused
    (3 * s.nodes.size + 9) s
  exact congrArg (Turnover.append ⟨[], []⟩) hrest

/-- A dequeue that finds nothing retires nothing. -/
theorem Linked.turnover_dequeue_nil (h : s.Linked []) :
    s.turnover .fresh .dequeue = ⟨[], []⟩ := by
  have hnext := h.next_head_nil
  simp [turnover, Request.start, Call.turnover, Call.step, hnext, Call.allocates?, Call.retires?,
    Turnover.append, Call.turnover_linking (c := .done _) rfl]

/-- A dequeue that finds an item retires the sentinel. -/
theorem Linked.turnover_dequeue_cons {m : NodeId} (h : s.Linked (m :: behind)) :
    s.turnover .fresh .dequeue = ⟨[], [s.head]⟩ := by
  have hnext := h.next_head_cons
  have hne := h.head_ne
  by_cases ht : s.head = s.tail
  · -- The call helps the tail off the head before it moves the head.
    have hnext' : s.next s.tail = some m := ht ▸ hnext
    obtain ⟨nodes, head, tail, count⟩ := s
    simp only at ht
    subst ht
    simp only [next] at hnext
    simp [turnover, Request.start, Call.turnover, Call.step, hnext, hne, exchangeTail,
      exchangeHead, next, Call.allocates?, Call.retires?, Turnover.append,
      Call.turnover_linking (c := .done _) rfl]
  · simp [turnover, Request.start, Call.turnover, Call.step, hnext, ht, exchangeHead,
      Call.allocates?, Call.retires?, Turnover.append, Call.turnover_linking (c := .done _) rfl]

end Shared

/-! ### A watched queue -/

namespace Queue

variable {q : Queue α}

/-- An enqueue puts the node that it has allocated at the end of the chain. -/
theorem chain_enqueue (q : Queue α) (a : α) :
    (q.enqueue a).chain = q.chain ++ [q.shared.nodes.size] ∧
      (q.enqueue a).shared.nodes.size = q.shared.nodes.size + 1 := by
  obtain ⟨behind, last, h, hlast, hshared, h'⟩ := q.exists_enqueue a
  rw [chain_eq h'.linked, chain_eq h.linked, hshared]
  exact ⟨rfl, by simp [Shared.appended]⟩

/-- A dequeue retires the node that it takes from the chain. -/
private theorem chain_dequeue (q : Queue α) :
    q.chain = (q.shared.turnover .fresh .dequeue).retired ++ q.dequeue.1.chain ∧
      (q.shared.turnover .fresh .dequeue).allocated = [] ∧
      q.dequeue.1.shared.nodes.size = q.shared.nodes.size := by
  obtain ⟨h, hsame⟩ | ⟨m, behind, h, hshared, h', -⟩ := q.dequeue_cases
  · rw [h.linked.turnover_dequeue_nil, hsame]
    exact ⟨rfl, rfl, rfl⟩
  · -- The sentinel is retired, and the chain goes on from the next node.
    rw [h.linked.turnover_dequeue_cons, chain_eq h.linked, chain_eq h'.linked, hshared]
    exact ⟨rfl, rfl, rfl⟩

/-- The walk at the end of a queue frees its chain and drops the items of its list view. -/
theorem dismantle_eq (q : Queue α) : q.dismantle = ⟨q.chain, q.toList⟩ := by
  obtain ⟨behind, h⟩ := q.wellFormed
  simp [dismantle, h.linked.dismantle?_eq, chain_eq h.linked, toList_eq h.linked]

/-- An item that was taken out is still in the node that has become the sentinel. -/
theorem item_sentinel {a : α} (h : q.dequeue.2 = some a) :
    q.dequeue.1.shared.item q.dequeue.1.shared.head = some a := by
  obtain ⟨-, hsame⟩ | ⟨m, behind, -, hshared, -, hfound⟩ := q.dequeue_cases
  · rw [hsame] at h
    cases h
  · rw [hshared]
    exact hfound.symm.trans h

end Queue

namespace Watched

/-- The nodes that a queue has allocated, in their order, are those that it has retired and then
those of its chain. -/
structure Settled (w : Watched α) : Prop where
  allocated_eq : w.nodes.allocated = w.nodes.retired ++ w.queue.chain
  range_eq : w.nodes.allocated = List.range w.queue.shared.nodes.size

variable {w : Watched α}

/-- A new queue has allocated its sentinel, which is all of its chain. -/
theorem settled_init : (init : Watched α).Settled := ⟨rfl, rfl⟩

/-- No node is allocated twice. -/
theorem Settled.nodup (h : w.Settled) : w.nodes.allocated.Nodup :=
  h.range_eq ▸ List.nodup_range

/-- An enqueue keeps the nodes settled, with memory or without. -/
theorem Settled.enqueue? (h : w.Settled) (memory : Bool) (a : α) :
    (w.enqueue? memory a).1.Settled := by
  obtain ⟨hallocated, hrange⟩ := h
  cases memory with
  | true =>
    -- The new node is the last one allocated and the last one of the chain.
    obtain ⟨hchain, hsize⟩ := w.queue.chain_enqueue a
    simp only [Watched.enqueue?, Queue.enqueue?_true, if_true, Shared.turnover_enqueue]
    refine ⟨?_, ?_⟩
    · show w.nodes.allocated ++ [_] = (w.nodes.retired ++ []) ++ (w.queue.enqueue a).chain
      rw [hchain, hallocated, List.append_nil, List.append_assoc]
    · show w.nodes.allocated ++ [_] = List.range (w.queue.enqueue a).shared.nodes.size
      rw [hsize, List.range_succ, hrange]
  -- Without memory nothing is allocated, and nothing is linked.
  | false =>
    simp only [Watched.enqueue?, Queue.enqueue?_false, Bool.false_eq_true, if_false,
      Shared.turnover_refused, Turnover.append]
    exact ⟨by simpa using hallocated, by simpa using hrange⟩

/-- A dequeue keeps the nodes settled. -/
theorem Settled.dequeue (h : w.Settled) : w.dequeue.1.Settled := by
  obtain ⟨hallocated, hrange⟩ := h
  -- What is retired goes from the start of the chain to the end of those retired before.
  obtain ⟨hchain, hnone, hsize⟩ := w.queue.chain_dequeue
  refine ⟨?_, ?_⟩
  · show w.nodes.allocated ++ _ = (w.nodes.retired ++ _) ++ w.queue.dequeue.1.chain
    rw [hnone, List.append_nil, List.append_assoc, ← hchain, hallocated]
  · show w.nodes.allocated ++ _ = List.range w.queue.dequeue.1.shared.nodes.size
    rw [hnone, List.append_nil, hsize, hrange]

/-- What came of an operation on a watched queue is what comes of it on the queue. -/
structure Shows {β : Type u} (x : Watched α × β) (y : Queue α × β) : Prop where
  settled : x.1.Settled
  queue_eq : x.1.queue = y.1
  answer_eq : x.2 = y.2

/-- Taking items keeps the nodes settled, and takes what the queue by itself gives. -/
theorem Settled.takeUpTo (h : w.Settled) (k : Nat) :
    Shows (takeUpTo k w) (w.queue.takeUpTo k) := by
  induction k generalizing w with
  | zero => exact ⟨h, rfl, rfl⟩
  | succ k ih =>
    have hfirst := h.dequeue
    unfold Watched.takeUpTo Queue.takeUpTo
    cases hd : w.dequeue with
    | mk w' found =>
      rw [hd] at hfirst
      rw [next_of_dequeue hd]
      -- Both find the same item or none, and stop at the same time.
      cases found with
      | none => exact ⟨hfirst, rfl, rfl⟩
      | some a =>
        obtain ⟨hsettled, hqueue, hitems⟩ := ih hfirst
        exact ⟨hsettled, hqueue, congrArg (a :: ·) hitems⟩

/-- A drain keeps the nodes settled, and takes what the queue by itself gives. -/
theorem Settled.drain (h : w.Settled) : Shows w.drain w.queue.drain := by
  -- Both drains recur on the number of items.
  generalize hlen : w.queue.toList.length = n
  induction n using Nat.strongRecOn generalizing w with
  | ind n ih =>
    have hfirst := h.dequeue
    rw [Watched.drain]
    split
    · rename_i w' hd
      rw [hd] at hfirst
      rw [Queue.drain_of_none (next_of_dequeue hd)]
      exact ⟨hfirst, rfl, rfl⟩
    · rename_i w' a hd
      rw [hd] at hfirst
      rw [Queue.drain_of_some (next_of_dequeue hd)]
      obtain ⟨hsettled, hqueue, hitems⟩ := ih _ (hlen ▸ length_dequeue hd) hfirst rfl
      exact ⟨hsettled, hqueue, congrArg (a :: ·) hitems⟩

/-- All items that leave the queue are those that are skipped and the one behind them. -/
theorem Settled.takeNth (h : w.Settled) (n : Nat) : Shows (w.takeNth n)
    ((w.queue.takeNth n).1, (w.queue.takeNth n).2.1 ++ (w.queue.takeNth n).2.2.toList) := by
  obtain ⟨hsettled, hqueue, hitems⟩ := h.takeUpTo n
  unfold Watched.takeNth Queue.takeNth
  generalize Watched.takeUpTo n w = x at hsettled hqueue hitems
  generalize Queue.takeUpTo n w.queue = y at hqueue hitems
  obtain ⟨w', skipped⟩ := x
  obtain ⟨q', skipped'⟩ := y
  simp only at hsettled hqueue hitems ⊢
  subst hqueue hitems
  -- Both ask for one more item only if there were as many to skip.
  split
  · exact ⟨hsettled.dequeue, rfl, rfl⟩
  · exact ⟨hsettled, rfl, by simp⟩

end Watched

end AtomicFifo

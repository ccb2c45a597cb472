import AtomicFifo.Proofs.System.Invariant

/-!
# The counter

The counter is a word of its own and not part of the chain: an enqueue counts its node before
it links it, and a dequeue counts its item off after it has moved the head. So between two moves
the counter is ahead of the chain by the calls that are between these two steps of theirs.

* `count_run`     the counter, in every state that a run leads to
* `counter_run`   what this means for the calls that read it and for those that count off
-/

namespace AtomicFifo

universe u

variable {α : Type u}

namespace Call

/-- An enqueue that has counted its node and not linked it yet. -/
def announced : Call α → Bool
  | .pin _ | .readTail _ | .readTailLink _ _ | .helpTail _ _ _ | .link _ _ => true
  | _ => false

/-- A dequeue that has moved the head and not counted its item off yet. -/
def owes : Call α → Bool
  | .takeItem _ _ | .discount _ => true
  | _ => false

/-- By how much a call keeps the counter ahead of the chain. -/
def ahead (c : Call α) : Nat := c.announced.toNat + c.owes.toNat

/-- A call that has just begun is not ahead of the counter. -/
private theorem request_ahead (request : Request α) : request.start.ahead = 0 := by
  cases request <;> rfl

/-- What a step adds to the counter it adds to the items or to what the call is ahead by. -/
private theorem step_count {s : Shared α} {c : Call α} (memory : Bool) (hs : s.Coherent)
    (hk : c.Knows s) (hn : ∀ n, c.node? = some n → s.Apart n) :
    (c.step (.ofMemory memory) s).1.count + UInt64.ofNat (s.items.length + c.ahead) =
      s.count + UInt64.ofNat ((c.step (.ofMemory memory) s).1.items.length +
        (c.step (.ofMemory memory) s).2.ahead) := by
  have hitems := (c.step_change memory hk hn).items hs
  cases c with
  | allocate item =>
    cases memory with
    | false => rfl
    | true =>
      simp only [effect?, Shared.Effect.Turns] at hitems
      rw [hitems]
      rfl
  | announce node =>
    simp only [effect?, Shared.Effect.Turns] at hitems
    rw [hitems]
    -- Here the counter goes ahead of the chain.
    calc s.count + 1 + UInt64.ofNat s.items.length
        = s.count + (UInt64.ofNat s.items.length + 1) := by ac_rfl
      _ = s.count + UInt64.ofNat (s.items.length + 1) := by rw [UInt64.ofNat_add]; rfl
  | readTailLink node tail =>
    simp only [step]
    split <;> rfl
  | helpTail node tail next | swingTail node tail | helpHead head next =>
    simp only [effect?, Shared.Effect.Turns] at hitems
    rw [hitems]
    simp only [step, Shared.exchangeTail]
    split <;> rfl
  | link node tail =>
    rcases exchangeLink_cases hk node with ⟨-, -, h⟩ | ⟨-, h⟩
    · simp only [effect?, h, if_true, Shared.Effect.Turns] at hitems
      obtain ⟨a, -, hafter⟩ := hitems
      rw [hafter, List.length_append]
      -- The chain catches up with the counter.
      simp only [step, h, Shared.linkBehind_count]
      rfl
    · simp only [step, h]
      rfl
  | readHeadLink head tail =>
    simp only [step]
    split
    · rfl
    · split <;> rfl
  | unlink head next =>
    rcases exchangeHead_cases s head next with ⟨rfl, h⟩ | ⟨-, h⟩
    · simp only [effect?, h, if_true, Shared.Effect.Turns] at hitems
      obtain ⟨a, -, hbefore⟩ := hitems
      -- The chain loses an item that the counter still has.
      rw [hbefore, List.length_cons]
      simp only [step, h]
      rfl
    · simp only [step, h]
      rfl
  | discount item =>
    simp only [effect?, Shared.Effect.Turns] at hitems
    rw [hitems]
    -- Here the counter comes back to the chain.
    calc s.count - 1 + UInt64.ofNat (s.items.length + 1)
        = s.count - 1 + (UInt64.ofNat s.items.length + 1) := by rw [UInt64.ofNat_add]; rfl
      _ = (s.count - 1 + 1) + UInt64.ofNat s.items.length := by ac_rfl
      _ = s.count + UInt64.ofNat s.items.length := by rw [UInt64.sub_add_cancel]
  | _ => rfl

end Call

namespace System

variable {s : System α}

/-- The enqueues that have counted their nodes and not linked them yet. -/
def announcedCalls (s : System α) : Nat := s.calls.countP (·.any Call.announced)

/-- The dequeues that have moved the head and not counted their items off yet. -/
def owingCalls (s : System α) : Nat := s.calls.countP (·.any Call.owes)

/-- By how much the counter is ahead of the chain. -/
def ahead (s : System α) : Nat := s.announcedCalls + s.owingCalls

/-- An entry that is replaced counts as the new one instead of the old one. -/
private theorem countP_set_toNat {β : Type u} {p : β → Bool} {l : List β} {i : Nat} {a x : β}
    (hx : l[i]? = some x) :
    (l.set i a).countP p + (p x).toNat = l.countP p + (p a).toNat := by
  obtain ⟨hlt, rfl⟩ := List.getElem?_eq_some_iff.1 hx
  have hpos : p l[i] = true → 0 < l.countP p := fun h =>
    List.countP_pos_iff.2 ⟨_, List.getElem_mem hlt, h⟩
  rw [List.countP_set hlt]
  cases h : p l[i] <;> cases h' : p a <;> simp_all

/-- Where one thread has come to another point, only this thread counts differently. -/
private theorem ahead_set (shared : Shared α) (call : Call α) {thread : Nat} {o : Option (Call α)}
    (h : s.calls[thread]? = some o) :
    ahead ⟨shared, s.calls.set thread (some call)⟩ + o.elim 0 Call.ahead =
      s.ahead + call.ahead := by
  have hannounced := countP_set_toNat (p := fun o => o.any Call.announced) (a := some call) h
  have howes := countP_set_toNat (p := fun o => o.any Call.owes) (a := some call) h
  -- A thread that has not been in any call is not counted.
  cases o with
  | none =>
    simp only [Option.any_none, Option.any_some, Bool.toNat_false] at hannounced howes
    simp only [ahead, announcedCalls, owingCalls, Call.ahead, Option.elim]
    omega
  | some c =>
    simp only [Option.any_some] at hannounced howes
    simp only [ahead, announcedCalls, owingCalls, Call.ahead, Option.elim]
    omega

/-- Nothing is ahead while no call is in progress. -/
theorem ahead_eq_zero (h : ∀ thread, s.running? thread = none) : s.ahead = 0 := by
  have hnone : ∀ p : Call α → Bool, (∀ reply, p (.done reply) = false) →
      s.calls.countP (·.any p) = 0 := by
    intro p hp
    rw [List.countP_eq_zero]
    intro o ho
    obtain ⟨thread, hthread⟩ := List.getElem?_of_mem ho
    rcases (running?_eq_none_iff hthread).1 (h thread) with rfl | ⟨reply, rfl⟩
    · simp
    · simp [hp]
  have hannounced := hnone Call.announced fun _ => rfl
  have howes := hnone Call.owes fun _ => rfl
  simp only [ahead, announcedCalls, owingCalls, hannounced, howes]

/-- What the counter says. -/
def Counted (s : System α) : Prop :=
  s.shared.count = UInt64.ofNat (s.shared.items.length + s.ahead)

/-- Every move keeps the equation of the counter. -/
private theorem Inv.counted_step (h : s.Inv) (hc : s.Counted) (move : Move α) :
    (s.step move).Counted := by
  cases move with
  | start thread request =>
    by_cases hidle : s.idle thread = true
    · rw [step_start hidle]
      -- A thread that is in no call is not ahead, and neither is a call at its first point.
      have hahead : ahead ⟨s.shared, s.calls.set thread (some request.start)⟩ = s.ahead := by
        simp only [idle, Bool.and_eq_true, decide_eq_true_eq, Option.isNone_iff_eq_none] at hidle
        obtain ⟨hlt, hrun⟩ := hidle
        have hcall := List.getElem?_eq_getElem hlt
        have hset := ahead_set s.shared request.start hcall
        have hzero : s.calls[thread].elim 0 Call.ahead = 0 := by
          rcases (running?_eq_none_iff hcall).1 hrun with h | ⟨reply, h⟩ <;> rw [h] <;> rfl
        rw [hzero, Call.request_ahead] at hset
        exact hset
      unfold Counted
      rw [hahead]
      exact hc
    · rwa [step_start_of_busy hidle]
  | advance thread memory =>
    cases hrun : s.running? thread with
    | none => rwa [step_advance_of_idle hrun]
    | some call =>
      obtain ⟨hat, -⟩ := running?_eq_some_iff.1 hrun
      have hcall := call.step_count memory h.coherent (h.knows hat) fun n hn => h.apart hat hn
      have hset := ahead_set (call.step (.ofMemory memory) s.shared).1
        (call.step (.ofMemory memory) s.shared).2 hat
      rw [step_advance hrun]
      -- What the step adds to the counter is added to the items or to what is ahead.
      unfold Counted at hc ⊢
      rw [hc, ← UInt64.ofNat_add] at hcall
      simp only [Option.elim] at hset
      apply (UInt64.add_left_inj (UInt64.ofNat (s.shared.items.length + call.ahead))).1
      rw [hcall, ← UInt64.ofNat_add]
      congr 1
      simp only at hset ⊢
      omega

/-- In every state that a run leads to, the counter is the number of items, of enqueues that
have counted their nodes and not linked them yet, and of dequeues that have moved the head and
not counted their items off yet, all together. -/
theorem count_run (threads : Nat) (moves : List (Move α)) :
    ((init threads : System α).run moves).Counted := by
  have hrun : ∀ s : System α, s.Reachable → s.Counted := by
    intro s h
    induction h with
    | init threads =>
      have := ahead_eq_zero (running?_init (α := α) threads)
      unfold Counted
      rw [this]
      rfl
    | step move h ih => exact h.inv.counted_step ih move
  exact hrun _ ((Reachable.init threads).run moves)

/-- A thread that is about to count its item off keeps the counter ahead of the chain. -/
private theorem owingCalls_pos {thread : Nat} {item : Option α}
    (h : s.running? thread = some (.discount item)) : 0 < s.owingCalls := by
  obtain ⟨hat, -⟩ := running?_eq_some_iff.1 h
  exact List.countP_pos_iff.2 ⟨_, List.mem_of_getElem? hat, rfl⟩

/-- Counting an item off takes one from the counter, where there is one to take. -/
private theorem toNat_count_discount {thread : Nat} {item : Option α} (memory : Bool)
    (h : s.running? thread = some (.discount item)) (hpos : 0 < s.shared.count.toNat) :
    (s.step (.advance thread memory)).shared.count.toNat = s.shared.count.toNat - 1 := by
  rw [step_advance h]
  show (s.shared.count - 1).toNat = _
  exact UInt64.toNat_sub_of_le _ _ (UInt64.le_iff_toNat_le.2 hpos)

/-- In every state that a run leads to, the counter is the number of nodes behind the sentinel, of
enqueues that have counted their nodes and not linked them yet, and of dequeues that have moved
the head and not counted their items off yet, all together, in a word that wraps. While this sum
fits a word, no thread that counts an item off takes it from zero, whoever reads the counter finds
no fewer than there are items behind the sentinel, and the counter agrees with a walk over the
nodes whenever no call is in progress. -/
theorem counter_run (threads : Nat) (moves : List (Move α)) :
    let s := (init threads : System α).run moves
    ∃ nodes, s.shared.nodeCount? = some nodes ∧ s.shared.items.length = nodes ∧
      s.shared.count = UInt64.ofNat (nodes + s.announcedCalls + s.owingCalls) ∧
      (nodes + s.announcedCalls + s.owingCalls < UInt64.size →
        (∀ thread memory item, s.running? thread = some (.discount item) →
          0 < s.shared.count.toNat ∧
            (s.step (.advance thread memory)).shared.count.toNat = s.shared.count.toNat - 1) ∧
        nodes ≤ s.shared.count.toNat ∧
        ((∀ thread, s.running? thread = none) → s.shared.count.toNat = nodes)) := by
  intro s
  have hinv : s.Inv := ((Reachable.init threads).run moves).inv
  have hcount : s.shared.count =
      UInt64.ofNat (s.shared.items.length + s.announcedCalls + s.owingCalls) := by
    rw [Nat.add_assoc]
    exact count_run threads moves
  refine ⟨_, hinv.coherent.nodeCount?_eq, rfl, hcount, fun hfits => ?_⟩
  -- The sum fits a word, so the counter is the sum itself.
  have hsum : s.shared.count.toNat =
      s.shared.items.length + s.announcedCalls + s.owingCalls := by
    rw [hcount]
    exact UInt64.toNat_ofNat_of_lt hfits
  refine ⟨fun thread memory item hrun => ?_, ?_, fun hquiet => ?_⟩
  · have howes := owingCalls_pos hrun
    have hpos : 0 < s.shared.count.toNat := by omega
    exact ⟨hpos, toNat_count_discount memory hrun hpos⟩
  · omega
  · have hahead := ahead_eq_zero hquiet
    unfold ahead at hahead
    omega

end System

end AtomicFifo

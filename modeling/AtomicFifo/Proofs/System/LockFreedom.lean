import AtomicFifo.Proofs.System.Passage

/-!
# Lock freedom

No thread goes round a loop unless the queue gets on in the meantime: whatever makes an
iteration start over is an exchange that has succeeded while it lasted, its own or another
thread's. A run in which so many nodes are linked has at most three times as many exchanges that
succeed, one for each node that is linked and at most one to bring the tail and the head to it.
So this is how often a thread can go round its loops, whatever the other threads do.

* `retries_add_stale_le`   the retries of a thread are paid for by promotions
* `Iterates`               one iteration that does not return
* `lockFree_run`           what every iteration and every run come to
-/

namespace AtomicFifo

universe u

variable {α : Type u}

namespace System

/-- Whether a move leads the given thread back to where its loop begins. -/
def retries? (s : System α) (thread : Nat) : Move α → Bool
  | .start _ _ => false
  | .advance caller memory =>
    caller = thread && (s.running? thread).any (·.retries (.ofMemory memory) s.shared)

/-- How often a run leads a thread back to where its loop begins. -/
def retries (thread : Nat) : System α → List (Move α) → Nat
  | _, [] => 0
  | s, move :: moves => (s.retries? thread move).toNat + retries thread (s.step move) moves

/-- Whether what the present iteration of a thread has read is out of date. -/
def stale (s : System α) (thread : Nat) : Bool :=
  s.calls[thread]?.join.any (·.stale s.shared)

/-- The moves are one iteration of a thread that does not return. The first of them is the step
of the thread with which its loop begins, and the last one leads the thread back there; those in
between may be moves of any threads. -/
structure Iterates (s : System α) (thread : Nat) (moves : List (Move α)) : Prop where
  opens : ∃ call, s.running? thread = some call ∧ call.opensLoop = true
  first : ∃ memory rest, moves = .advance thread memory :: rest
  before_last : retries thread s moves.dropLast = 0
  last : retries thread s moves = 1

variable {s : System α} {thread : Nat}

/-- A thread in a call is stale if its call is. -/
private theorem stale_of_at {call : Call α} (h : s.At thread call) :
    s.stale thread = call.stale s.shared := by
  unfold stale
  rw [show s.calls[thread]? = _ from h]
  rfl

/-- At the start no thread is stale. -/
private theorem stale_init (threads thread : Nat) :
    (init threads : System α).stale thread = false := by
  unfold stale init
  rw [List.getElem?_replicate]
  split <;> rfl

/-- At the point where its loop begins a thread has read nothing. -/
private theorem stale_of_opensLoop {call : Call α} (hrun : s.running? thread = some call)
    (hopens : call.opensLoop = true) : s.stale thread = false := by
  rw [stale_of_at (running?_eq_some_iff.1 hrun).1]
  cases call with
  | readTail node | readHead => rfl
  | _ => cases hopens

/-- The moves of others take what a thread has read out of date by promotions only. -/
private theorem Inv.stale_other (h : s.Inv) {move : Move α} (hne : thread ≠ move.thread) :
    ((s.step move).stale thread).toNat ≤
      (s.promotes? move).toList.length + (s.stale thread).toNat := by
  unfold stale
  rw [calls_step_ne hne]
  cases s.calls[thread]?.join with
  | none => exact Nat.zero_le _
  | some call =>
    have := Call.stale_promoted (h.promoted move) call
    simp only [Option.any_some]
    omega

/-- A move that leads a thread back promotes a node, or what the thread had read was out of
date. -/
private theorem Inv.retries_add_stale_step (h : s.Inv) (thread : Nat) (move : Move α) :
    (s.retries? thread move).toNat + ((s.step move).stale thread).toNat ≤
      (s.promotes? move).toList.length + (s.stale thread).toNat := by
  by_cases hne : thread ≠ move.thread
  · have hnone : s.retries? thread move = false := by
      cases move with
      | start caller request => rfl
      | advance caller memory =>
        have : ¬ caller = thread := fun heq => hne heq.symm
        simp [retries?, this]
    rw [hnone, Bool.toNat_false, Nat.zero_add]
    exact h.stale_other hne
  obtain rfl : thread = move.thread := not_not.1 hne
  cases move with
  | start thread request =>
    simp only [Move.thread, retries?, promotes?]
    by_cases hidle : s.idle thread = true
    · -- No call has read anything at its first point.
      obtain ⟨hlt, -⟩ : thread < s.calls.length ∧ _ := by simpa [idle] using hidle
      have hat : At ⟨s.shared, s.calls.set thread (some request.start)⟩ thread request.start :=
        List.getElem?_set_self hlt
      rw [step_start hidle, stale_of_at hat]
      cases request <;> exact Nat.zero_le _
    · simp [step_start_of_busy hidle]
  | advance thread memory =>
    simp only [Move.thread]
    cases hrun : s.running? thread with
    | none => simp [step_advance_of_idle hrun, retries?, hrun, promotes?]
    | some call =>
      have hat := (running?_eq_some_iff.1 hrun).1
      have hstep := call.retries_step memory (h.knows hat)
      rw [step_advance hrun, stale_of_at hat, stale_of_at (at_set_self hat)]
      simpa [retries?, promotes?, hrun] using hstep

/-- Over any moves, the retries of a thread are paid for by what these moves promote, except for
one if what the thread has read is out of date at first. -/
theorem Inv.retries_add_stale_le (h : s.Inv) (thread : Nat) (moves : List (Move α)) :
    retries thread s moves + ((s.run moves).stale thread).toNat ≤
      (s.promotions moves).length + (s.stale thread).toNat := by
  induction moves generalizing s with
  | nil => simp [retries]
  | cons move moves ih =>
    have hstep := h.retries_add_stale_step thread move
    have hrest := ih (h.step move)
    simp only [retries, promotions, run_cons, List.length_append]
    omega

/-- While an iteration lasts that does not return, a node is promoted. -/
private theorem Inv.promotions_ne_nil (h : s.Inv) {moves : List (Move α)}
    (hit : s.Iterates thread moves) : s.promotions moves ≠ [] := by
  intro hnil
  obtain ⟨call, hrun, hopens⟩ := hit.opens
  have hle := h.retries_add_stale_le thread moves
  rw [hit.last, hnil, stale_of_opensLoop hrun hopens] at hle
  simp at hle

/-- Promotions show: the head, the tail and the links are not all as they were before. -/
private theorem promotions_eq_nil {threads : Nat} {before moves : List (Move α)}
    (hnext : ((init threads).run (before ++ moves)).shared.next =
      ((init threads).run before).shared.next)
    (htail : ((init threads).run (before ++ moves)).shared.tail =
      ((init threads).run before).shared.tail)
    (hhead : ((init threads).run (before ++ moves)).shared.head =
      ((init threads).run before).shared.head) :
    ((init threads).run before).promotions moves = [] := by
  have hbefore := passed_run threads before
  have hafter := passed_run threads (before ++ moves)
  -- What has been linked and passed is the same before and after these moves.
  obtain ⟨hlinked, htails, hheads⟩ := hbefore.unique hafter hnext htail hhead
  simp only [promotions_append, List.filterMap_append, List.append_right_eq_self]
    at hlinked htails hheads
  apply List.eq_nil_of_length_eq_zero
  rw [Promotion.length_eq, hlinked, htails, hheads]
  rfl

/-- The tail and the head are brought to linked nodes only, so no more often than nodes are
linked. -/
private theorem length_promotions_le (threads : Nat) (moves : List (Move α)) :
    ((init threads : System α).promotions moves).length ≤
      3 * (((init threads : System α).promotions moves).filterMap Promotion.linked?).length := by
  have hpassed := passed_run (α := α) threads moves
  have htails := hpassed.tails.within.length_le
  have hheads := hpassed.heads.within.length_le
  rw [Promotion.length_eq]
  omega

/-- In every run, from any moment on: while a thread goes once round a loop without returning, an
exchange of the head, of the tail or of a link succeeds, and the head, the tail and the links do
not all stand where they stood when it began. Over the whole run each node is linked once at most,
and the tail and the head come to linked nodes in the order of their links, to each of them once
at most. So no thread goes round its loops without returning more than three times as often as
nodes were linked. -/
theorem lockFree_run (threads : Nat) (moves : List (Move α)) :
    let s := (init threads : System α).run moves
    let promoted := (init threads : System α).promotions moves
    let linked := promoted.filterMap Promotion.linked?
    let tails := promoted.filterMap Promotion.tail?
    let heads := promoted.filterMap Promotion.head?
    (∀ thread later, s.Iterates thread later → s.promotions later ≠ [] ∧
        ¬ ((s.run later).shared.next = s.shared.next ∧ (s.run later).shared.tail = s.shared.tail ∧
          (s.run later).shared.head = s.shared.head)) ∧
      linked.Nodup ∧ tails.Nodup ∧ heads.Nodup ∧ tails <+: linked ∧ heads <+: linked ∧
      ∀ thread, retries thread (init threads) moves ≤ 3 * linked.length := by
  intro s promoted linked tails heads
  have hpassed : s.shared.Passed 0 linked tails heads := passed_run threads moves
  have hnodup := hpassed.nodup
  refine ⟨fun thread later hit => ?_, hnodup, hnodup.sublist hpassed.tails.within.sublist,
    hnodup.sublist hpassed.heads.within.sublist, hpassed.tails.within, hpassed.heads.within,
    fun thread => ?_⟩
  · have hne := ((Reachable.init threads).run moves).inv.promotions_ne_nil hit
    refine ⟨hne, fun ⟨hnext, htail, hhead⟩ => hne ?_⟩
    rw [← run_append] at hnext htail hhead
    exact promotions_eq_nil hnext htail hhead
  · -- Each retry is paid for by a promotion that came before it.
    have hpaid := (inv_init threads).retries_add_stale_le thread moves
    rw [stale_init, Bool.toNat_false, Nat.add_zero] at hpaid
    calc retries thread (init threads) moves
        ≤ retries thread (init threads) moves + (s.stale thread).toNat := Nat.le_add_right _ _
      _ ≤ promoted.length := hpaid
      _ ≤ 3 * linked.length := length_promotions_le threads moves

/-- A thread that is about to link its node is overtaken, and starts over. -/
example :
    let before : List (Move Nat) := .start 0 (.enqueue 7) :: List.replicate 5 (.advance 0 true) ++
      .start 1 (.enqueue 8) :: List.replicate 3 (.advance 1 true)
    let later : List (Move Nat) := [1, 1, 0, 1].map (.advance · true)
    let s := (init 2).run before
    retries 1 s later = 1 ∧ s.promotions later = [.linked 1] := by
  decide +kernel

end System

end AtomicFifo

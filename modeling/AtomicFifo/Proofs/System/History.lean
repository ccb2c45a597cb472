import AtomicFifo.Proofs.System.Invariant
import Mathlib.Data.List.Induction

/-!
# The history of a run

The history of a run lists what its threads do, in the order in which they do it: they are
called, their items enter the queue or leave it, and they return. An item enters where the
exchange of a link succeeds, and leaves where the exchange of the head succeeds.

Two readings of a history are defined here, one for each thread by itself and one for the queue
as a whole. `Course` says that the acts of one thread are those of calls, one after the
other: an accepted enqueue lets its own item enter once between its call and its return, a
dequeue that answers an item lets this very item leave once, and no other call lets anything
enter or leave. `Legal` says that the acts of all threads together are those of a list used
by one thread at a time, where items enter at the end and leave at the start, and where nothing
is found only if nothing is there.

* `course_run`    the history of every thread is a course of calls
* `legal_run`     the history of a run is legal, and leads to the items behind the sentinel
-/

namespace AtomicFifo

universe u

variable {α : Type u}

/-- What a thread does, as far as its caller or the queue can tell. -/
inductive Act (α : Type u)
  | called (request : Request α)
  /-- The item is in the queue from now on. -/
  | entered (item : α)
  /-- The item is in the queue no more. -/
  | left (item : α)
  | returned (reply : Reply α)
  deriving DecidableEq, Repr

/-- What a step does; the allocator's answer is asked for should it allocate. -/
def Call.act? (grant : Grant) (s : Shared α) : Call α → Option (Act α)
  | .link node tail =>
    if (s.exchangeLink tail node).2 then (s.item node).map .entered else none
  | .unlink head next =>
    if (s.exchangeHead head next).2 then (s.item next).map .left else none
  | c => (c.step grant s).2.reply?.map .returned

namespace System

/-- What a move does, and which thread does it. -/
def act? (s : System α) : Move α → Option (Nat × Act α)
  | .start thread request => if s.idle thread then some (thread, .called request) else none
  | .advance thread memory =>
    (s.running? thread).bind fun call =>
      (call.act? (.ofMemory memory) s.shared).map (thread, ·)

/-- The history of a run. -/
def history : System α → List (Move α) → List (Nat × Act α)
  | _, [] => []
  | s, move :: moves => (s.act? move).toList ++ history (s.step move) moves

/-- The history of a run and its continuation is that of both. -/
private theorem history_append (s : System α) (moves moves' : List (Move α)) :
    s.history (moves ++ moves') = s.history moves ++ (s.run moves).history moves' := by
  induction moves generalizing s with
  | nil => rfl
  | cons move moves ih => simp [history, ih]

/-- One more move adds what it does to the history. -/
theorem history_concat (s : System α) (moves : List (Move α)) (move : Move α) :
    s.history (moves ++ [move]) = s.history moves ++ ((s.run moves).act? move).toList := by
  simp [history_append, history]

end System

/-- The acts of one thread. -/
def History.of (thread : Nat) (history : List (Nat × Act α)) : List (Act α) :=
  history.filterMap fun (t, act) => if t = thread then some act else none

/-- What a thread does in a run and its continuation is what it does in both. -/
theorem History.of_append (thread : Nat) (h h' : List (Nat × Act α)) :
    of thread (h ++ h') = of thread h ++ of thread h' := by
  simp [of]

/-- What one act of a thread adds to the acts of that thread. -/
theorem History.filterMap_of_self {β : Type*} (g : Act α → Option β) (thread : Nat)
    (act? : Option (Act α)) :
    (of thread (act?.map (thread, ·)).toList).filterMap g = (act?.bind g).toList := by
  cases act? with
  | none => rfl
  | some act => cases hg : g act <;> simp [of, hg]

/-- What a move does its thread does. -/
theorem System.act?_thread {s : System α} {move : Move α} {x : Nat × Act α}
    (h : s.act? move = some x) : x.1 = move.thread := by
  cases move with
  | start thread request =>
    simp only [act?] at h
    split at h <;> cases h
    rfl
  | advance thread memory =>
    obtain ⟨call, -, hcall⟩ := Option.bind_eq_some_iff.1 h
    obtain ⟨act, -, rfl⟩ := Option.map_eq_some_iff.1 hcall
    rfl

/-- What a move does is no act of another thread. -/
theorem History.of_act?_ne {s : System α} {move : Move α} {thread : Nat}
    (hne : thread ≠ move.thread) : of thread (s.act? move).toList = [] := by
  cases hact : s.act? move with
  | none => rfl
  | some x =>
    have hx : ¬ x.1 = thread := fun heq => hne (heq.symm.trans (System.act?_thread hact))
    simp [of, hx]

/-! ### The course of one thread -/

/-- Where a thread stands, as far as its own acts tell. -/
inductive Standing (α : Type u)
  /-- In no call. -/
  | idle
  /-- In a call that has let nothing enter or leave. -/
  | asked (request : Request α)
  /-- In an enqueue whose item has entered. -/
  | entered
  /-- In a dequeue that has let this item leave. -/
  | left (item : α)

/-- What a thread may do next, and where it stands then. -/
inductive Standing.Goes : Standing α → Act α → Standing α → Prop
  | called (request : Request α) : Goes .idle (.called request) (.asked request)
  | entered (a : α) : Goes (.asked (.enqueue a)) (.entered a) .entered
  | enqueued : Goes .entered (.returned .enqueued) .idle
  | refused (a : α) : Goes (.asked (.enqueue a)) (.returned (.refused a)) .idle
  | left (a : α) : Goes (.asked .dequeue) (.left a) (.left a)
  | dequeued (a : α) : Goes (.left a) (.returned (.dequeued (some a))) .idle
  | missed : Goes (.asked .dequeue) (.returned (.dequeued none)) .idle
  | answered (empty : Bool) : Goes (.asked .isEmpty) (.returned (.emptiness empty)) .idle

/-- The acts of a thread are those of calls, one after the other, the last of them perhaps
unfinished. -/
inductive Course : List (Act α) → Standing α → Prop
  | nil : Course [] .idle
  | snoc {l : List (Act α)} {a : Act α} {st st' : Standing α} :
      Course l st → st.Goes a st' → Course (l ++ [a]) st'

/-- Where the thread at a point of a call stands. -/
def Call.standing? (s : Shared α) : Call α → Option (Standing α)
  | .allocate item => some (.asked (.enqueue item))
  | .announce node | .pin node | .readTail node | .readTailLink node _ | .helpTail node _ _
  | .link node _ => (s.item node).map fun item => .asked (.enqueue item)
  | .swingTail _ _ => some .entered
  | .readHead | .readHeadTail _ | .readHeadLink _ _ | .helpHead _ _ | .unlink _ _ =>
    some (.asked .dequeue)
  | .takeItem _ next => (s.item next).map .left
  | .discount item => item.map .left
  | .probeHead | .probeLink _ => some (.asked .isEmpty)
  | .done _ => some .idle

/-- Where a thread stands. -/
def System.standing? (s : System α) (thread : Nat) : Option (Standing α) :=
  match s.calls[thread]? with
  | some (some call) => call.standing? s.shared
  | _ => some .idle

/-! ### The queue as a whole -/

/-- What an act does to a list: items enter at the end and leave at the start, and nothing is
found only in an empty list. -/
def Act.Affects : Option (Nat × Act α) → List α → List α → Prop
  | some (_, .entered a), before, after => after = before ++ [a]
  | some (_, .left a), before, after => before = a :: after
  | some (_, .returned (.dequeued none)), before, after => before = [] ∧ after = before
  | _, before, after => after = before

/-- The acts are those of a list that is used by one thread at a time; it is empty at first
and holds these items at last. -/
inductive Legal : List (Nat × Act α) → List α → Prop
  | nil : Legal [] []
  | snoc {h : List (Nat × Act α)} {x : Nat × Act α} {l l' : List α} :
      Legal h l → Act.Affects (some x) l l' → Legal (h ++ [x]) l'

/-! ### Courses along a run -/

namespace Call

variable {s s' : Shared α} {c : Call α}

/-- A call that has not linked its node yet is an enqueue of the item in it. -/
theorem standing?_of_node? {n : NodeId} (h : c.node? = some n) :
    c.standing? s = (s.item n).map fun item => .asked (.enqueue item) := by
  cases c with
  | announce node | pin node | readTail node => cases h; rfl
  | readTailLink node tail | link node tail => cases h; rfl
  | helpTail node tail next => cases h; rfl
  | _ => cases h

/-- A call that has just begun stands at its request. -/
private theorem standing?_start (request : Request α) :
    request.start.standing? s = some (.asked request) := by
  cases request <;> rfl

/-- Where a thread stands does not depend on what others do. -/
private theorem standing?_grows {st : Standing α} (h : c.standing? s = some st) (hg : s.Grows s') :
    c.standing? s' = some st := by
  have hmap : ∀ {f : α → Standing α} {n : NodeId}, (s.item n).map f = some st →
      (s'.item n).map f = some st := by
    intro f n hn
    obtain ⟨a, ha, rfl⟩ := Option.map_eq_some_iff.1 hn
    simp [hg.item n a ha]
  -- Only the points at which the item is still in a node look at the shared state.
  cases hnode : c.node? with
  | some n =>
    rw [standing?_of_node? hnode] at h ⊢
    exact hmap h
  | none =>
    cases c with
    | takeItem head next => exact hmap h
    | announce node | pin node | readTail node => cases hnode
    | readTailLink node tail | link node tail => cases hnode
    | helpTail node tail next => cases hnode
    | _ => exact h

/-- A step goes on as its course may, and leaves the thread where it stands if it is no
act. -/
private theorem standing?_step (memory : Bool) (hs : s.Coherent) (hk : c.Knows s)
    (hn : ∀ n, c.node? = some n → s.Apart n) (hrun : c.reply? = none) :
    ∃ st st', c.standing? s = some st ∧
      (c.step (.ofMemory memory) s).2.standing? (c.step (.ofMemory memory) s).1 = some st' ∧
      (c.act? (.ofMemory memory) s).elim (st' = st) fun a => st.Goes a st' := by
  have hgrows := (c.step_change memory hk hn).grows hs
  -- A step that leaves the call its own node is no act.
  have hkeep : ∀ n, c.node? = some n → (c.step (.ofMemory memory) s).2.node? = some n →
      c.act? (.ofMemory memory) s = none →
      ∃ st st', c.standing? s = some st ∧
        (c.step (.ofMemory memory) s).2.standing? (c.step (.ofMemory memory) s).1 = some st' ∧
        (c.act? (.ofMemory memory) s).elim (st' = st) fun a => st.Goes a st' := by
    intro n hnode hnode' hact
    obtain ⟨a, ha⟩ := Option.isSome_iff_exists.1 (hn n hnode).occupied
    refine ⟨.asked (.enqueue a), .asked (.enqueue a), ?_, ?_, by simp [hact]⟩
    · simp [standing?_of_node? hnode, ha]
    · simp [standing?_of_node? hnode', hgrows.item n a ha]
  cases c with
  | allocate item =>
    cases memory with
    | false => exact ⟨_, _, rfl, rfl, .refused item⟩
    | true =>
      refine ⟨_, .asked (.enqueue item), rfl, ?_, rfl⟩
      simp [step, Shared.place, Grant.ofMemory, standing?, Shared.item_push]
  | announce node | pin node | readTail node => exact hkeep node rfl rfl rfl
  | helpTail node tail next => exact hkeep node rfl rfl rfl
  | readTailLink node tail =>
    cases hnext : s.next tail with
    | none =>
      exact hkeep node rfl (by simp [step, hnext, node?]) (by simp [act?, step, hnext, reply?])
    | some next =>
      exact hkeep node rfl (by simp [step, hnext, node?]) (by simp [act?, step, hnext, reply?])
  | link node tail =>
    rcases exchangeLink_cases hk node with ⟨-, -, h⟩ | ⟨-, h⟩
    · -- The item in the call's own node enters.
      obtain ⟨a, ha⟩ := Option.isSome_iff_exists.1 (hn node rfl).occupied
      refine ⟨.asked (.enqueue a), .entered, by simp [standing?, ha],
        by simp [step, h, standing?], ?_⟩
      simp only [act?, h, ha]
      exact .entered a
    · exact hkeep node rfl (by simp [step, h, node?]) (by simp [act?, h])
  | swingTail node tail => exact ⟨_, _, rfl, rfl, .enqueued⟩
  | readHead => exact ⟨_, _, rfl, rfl, rfl⟩
  | readHeadTail head => exact ⟨_, _, rfl, rfl, rfl⟩
  | readHeadLink head tail =>
    cases hnext : s.next head with
    | none =>
      -- The call returns here, and has let nothing leave.
      refine ⟨.asked .dequeue, .idle, rfl, by simp [step, hnext, standing?], ?_⟩
      simp only [act?, step, hnext, reply?]
      exact .missed
    | some next =>
      refine ⟨.asked .dequeue, .asked .dequeue, rfl, ?_, ?_⟩
      · simp only [step, hnext]
        split <;> rfl
      · simp only [act?, step, hnext]
        split <;> simp [reply?]
  | helpHead head next => exact ⟨_, _, rfl, rfl, rfl⟩
  | unlink head next =>
    rcases exchangeHead_cases s head next with ⟨rfl, h⟩ | ⟨-, h⟩
    · -- The node behind the sentinel holds an item, which leaves.
      obtain ⟨behind, hl⟩ := hs.linked
      obtain ⟨behind', rfl, -⟩ := hl.moveHead hk.1 hk.2
      obtain ⟨a, ha⟩ := Option.isSome_iff_exists.1 (hl.occupied next (by simp))
      refine ⟨.asked .dequeue, .left a, rfl, ?_, ?_⟩
      · simp only [step, h, standing?]
        simp [ha]
      · simp only [act?, h, ha]
        exact .left a
    · exact ⟨_, .asked .dequeue, rfl, by simp [step, h, standing?], by simp [act?, h]⟩
  | takeItem head next =>
    obtain ⟨a, ha⟩ := Option.isSome_iff_exists.1 hk.2.2
    exact ⟨.left a, .left a, by simp [standing?, ha], by simp [step, standing?, ha], rfl⟩
  | discount item =>
    obtain ⟨a, rfl⟩ := Option.isSome_iff_exists.1 hk
    exact ⟨.left a, .idle, rfl, rfl, .dequeued a⟩
  | probeHead => exact ⟨_, _, rfl, rfl, rfl⟩
  | probeLink head => exact ⟨_, _, rfl, rfl, .answered _⟩
  | done reply => cases hrun

end Call

namespace System

variable {s : System α}

/-- A thread that has taken a step stands where its call does. -/
private theorem standing?_set {shared : Shared α} {thread : Nat} {call : Call α}
    (hlt : thread < s.calls.length) :
    standing? ⟨shared, s.calls.set thread (some call)⟩ thread = call.standing? shared := by
  simp [standing?, hlt]

/-- A thread in a call stands where its call does. -/
theorem standing?_of_at {thread : Nat} {call : Call α} (h : s.At thread call) :
    s.standing? thread = call.standing? s.shared := by
  unfold standing? At at *
  simp [h]

/-- A thread in no call is idle. -/
theorem standing?_of_not_running {thread : Nat} (h : s.running? thread = none) :
    s.standing? thread = some .idle := by
  unfold standing?
  cases hcall : s.calls[thread]? with
  | none => rfl
  | some o => rcases (running?_eq_none_iff hcall).1 h with rfl | ⟨reply, rfl⟩ <;> rfl

/-- A thread that may begin a call exists and is idle. -/
theorem standing?_of_idle {thread : Nat} (h : s.idle thread = true) :
    thread < s.calls.length ∧ s.standing? thread = some .idle := by
  simp only [idle, Bool.and_eq_true, decide_eq_true_eq, Option.isNone_iff_eq_none] at h
  exact ⟨h.1, standing?_of_not_running h.2⟩

/-- A thread stands where it stood while others make their moves. -/
private theorem Inv.standing?_other (h : s.Inv) {move : Move α} {thread : Nat}
    (hne : thread ≠ move.thread) {st : Standing α} (hst : s.standing? thread = some st) :
    (s.step move).standing? thread = some st := by
  have hgrows : s.shared.Grows (s.step move).shared := h.grows [move]
  unfold standing? at hst ⊢
  -- The thread has not moved, and what its call knows stays true.
  rw [calls_step_ne hne]
  split
  · rename_i call heq
    simp only [heq] at hst
    exact call.standing?_grows hst hgrows
  · rename_i hnone
    split at hst
    · rename_i call heq
      exact absurd heq (hnone call)
    · exact hst

/-- A move goes on as the courses of all threads may. -/
private theorem Inv.standing?_step (h : s.Inv) (move : Move α) {thread : Nat} {st : Standing α}
    (hst : s.standing? thread = some st) :
    ∃ st', (s.step move).standing? thread = some st' ∧
      ∀ l, Course l st → Course (l ++ History.of thread (s.act? move).toList) st' := by
  by_cases hne : thread ≠ move.thread
  · refine ⟨st, h.standing?_other hne hst, fun l hl => ?_⟩
    rw [History.of_act?_ne hne, List.append_nil]
    exact hl
  obtain rfl : thread = move.thread := not_not.1 hne
  cases move with
  | start thread request =>
    simp only [Move.thread] at hst ⊢
    by_cases hidle : s.idle thread = true
    · -- The thread has been idle and is in a call now.
      obtain ⟨hlt, hstand⟩ := standing?_of_idle hidle
      cases hst.symm.trans hstand
      refine ⟨.asked request, ?_, fun l hl => ?_⟩
      · rw [step_start hidle, standing?_set hlt, Call.standing?_start]
      · simpa [act?, hidle, History.of] using hl.snoc (.called request)
    · rw [step_start_of_busy hidle]
      exact ⟨st, hst, fun l hl => by simpa [act?, hidle, History.of] using hl⟩
  | advance thread memory =>
    simp only [Move.thread] at hst ⊢
    cases hrun : s.running? thread with
    | none =>
      rw [step_advance_of_idle hrun]
      exact ⟨st, hst, fun l hl => by simpa [act?, hrun, History.of] using hl⟩
    | some call =>
      -- The step leads the thread on, and its act, if any, is the next one of the course.
      obtain ⟨hat, hreply⟩ := running?_eq_some_iff.1 hrun
      obtain ⟨hlt, -⟩ := List.getElem?_eq_some_iff.1 hat
      obtain ⟨old, st', hold, hnew, hgoes⟩ := call.standing?_step memory h.coherent
        (h.knows hat) (fun n hn => h.apart hat hn) hreply
      cases hold.symm.trans ((standing?_of_at hat).symm.trans hst)
      refine ⟨st', by rw [step_advance hrun, standing?_set hlt, hnew], fun l hl => ?_⟩
      have hact : s.act? (.advance thread memory) =
          (call.act? (.ofMemory memory) s.shared).map (thread, ·) := by
        simp [act?, hrun]
      rw [hact]
      cases ha : call.act? (.ofMemory memory) s.shared with
      | none =>
        obtain rfl : st' = st := by simpa [ha] using hgoes
        simpa [History.of] using hl
      | some a =>
        have hgo : st.Goes a st' := by simpa [ha] using hgoes
        simpa [History.of] using hl.snoc hgo

/-- In every run the acts of each thread are a course of calls, and it leads to where the
thread stands. -/
theorem course_run (threads : Nat) (moves : List (Move α)) (thread : Nat) :
    ∃ st, ((init threads : System α).run moves).standing? thread = some st ∧
      Course (History.of thread ((init threads).history moves)) st := by
  -- By induction on the moves, the last one taken off: it leads from one standing to the next.
  induction moves using List.reverseRecOn with
  | nil =>
    refine ⟨.idle, ?_, .nil⟩
    unfold standing?
    split
    · rename_i call heq
      simp [init, List.getElem?_replicate] at heq
    · rfl
  | append_singleton moves move ih =>
    obtain ⟨st, hst, hcourse⟩ := ih
    obtain ⟨st', hst', hgo⟩ :=
      ((Reachable.init threads).run moves).inv.standing?_step move hst
    refine ⟨st', by simpa [run_append] using hst', ?_⟩
    rw [history_concat, History.of_append]
    exact hgo _ hcourse

end System

/-! ### Legal histories -/

/-- What a step does to the items is what its act does to a list. -/
private theorem Call.affects {s : Shared α} {c : Call α} (thread : Nat) (memory : Bool)
    (hs : s.Coherent) (hk : c.Knows s) (hn : ∀ n, c.node? = some n → s.Apart n)
    (hrun : c.reply? = none) :
    Act.Affects ((c.act? (.ofMemory memory) s).map (thread, ·)) s.items
      (c.step (.ofMemory memory) s).1.items := by
  have hitems := (c.step_change memory hk hn).items hs
  cases c with
  | link node tail =>
    rcases exchangeLink_cases hk node with ⟨-, -, h⟩ | ⟨-, h⟩
    · simp only [effect?, h, if_true, Shared.Effect.Turns] at hitems
      obtain ⟨a, ha, hafter⟩ := hitems
      -- The item at the end is the one in the node that is linked.
      simp only [act?, h, ha]
      exact hafter
    · simp only [effect?, h] at hitems
      simp only [act?, h]
      exact hitems
  | unlink head next =>
    rcases exchangeHead_cases s head next with ⟨rfl, h⟩ | ⟨-, h⟩
    · simp only [effect?, h, if_true, Shared.Effect.Turns] at hitems
      obtain ⟨a, ha, hbefore⟩ := hitems
      -- The item at the start is the one in the node that becomes the sentinel.
      simp only [act?, h, ha]
      exact hbefore
    · simp only [effect?, h] at hitems
      simp only [act?, h]
      exact hitems
  | allocate item => cases memory <;> exact hitems
  | readTailLink node tail =>
    cases hnext : s.next tail <;> simp [act?, step, hnext, reply?, Act.Affects]
  | readHeadLink head tail =>
    cases hnext : s.next head with
    | none =>
      -- The link of the sentinel is read here, and it is null.
      simp only [act?, step, hnext, reply?]
      exact ⟨hs.items_eq_nil hk.1 hnext, rfl⟩
    | some next =>
      simp only [act?, step, hnext]
      split <;> rfl
  | discount item =>
    obtain ⟨a, rfl⟩ := Option.isSome_iff_exists.1 hk
    exact hitems
  | done reply => cases hrun
  | _ => exact hitems

namespace System

variable {s : System α}

/-- What a move does to the items is what its act does to a list. -/
theorem Inv.affects (h : s.Inv) (move : Move α) :
    Act.Affects (s.act? move) s.shared.items (s.step move).shared.items := by
  -- A call that begins affects nothing; a step affects what its call says.
  cases move with
  | start thread request =>
    by_cases hidle : s.idle thread = true
    · rw [step_start hidle]
      simp only [act?, hidle, if_true]
      rfl
    · rw [step_start_of_busy hidle]
      simp only [act?, hidle]
      rfl
  | advance thread memory =>
    cases hrun : s.running? thread with
    | none =>
      rw [step_advance_of_idle hrun]
      simp only [act?, hrun]
      rfl
    | some call =>
      obtain ⟨hat, hreply⟩ := running?_eq_some_iff.1 hrun
      rw [step_advance hrun]
      simp only [act?, hrun, Option.bind_some]
      exact call.affects thread memory h.coherent (h.knows hat) (fun n hn => h.apart hat hn) hreply

/-- The history of every run is legal, and leads to the items behind the sentinel. -/
theorem legal_run (threads : Nat) (moves : List (Move α)) :
    Legal ((init threads).history moves) ((init threads).run moves).shared.items := by
  induction moves using List.reverseRecOn with
  | nil => exact .nil
  | append_singleton moves move ih =>
    have haffects := ((Reachable.init threads).run moves).inv.affects move
    rw [history_concat, run_append]
    simp only [run_cons, run_nil]
    cases ha : ((init threads).run moves).act? move with
    | none =>
      -- No act, so the history and the items stay as they are.
      rw [ha] at haffects
      simp only [Act.Affects] at haffects
      simpa [haffects] using ih
    | some x =>
      rw [ha] at haffects
      exact ih.snoc haffects

end System

end AtomicFifo

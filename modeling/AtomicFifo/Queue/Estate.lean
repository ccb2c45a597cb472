import AtomicFifo.Queue.Drain
import AtomicFifo.Queue.Life

/-!
# Queues from their birth to their end

An estate is all queues that a user has ever created. Each of them lives until it is dropped or
released, and leaves a record of what was asked of it and what it reported. Its nodes are watched:
those that the steps of its calls allocate and retire, and those that the walk at its end frees.

* `Call.turnover`       the nodes that a call allocates and retires
* `Shared.dismantle?`   the walk at the end of a queue, which frees nodes and drops items
* `Watched`             a queue whose nodes are watched, and the operations on it
* `Estate.run`          any uses of any queues
-/

namespace AtomicFifo

universe u

variable {α : Type u}

/-! ### Nodes of a call -/

/-- Some nodes that are allocated, and some that are retired. -/
structure Turnover where
  allocated : List NodeId
  retired : List NodeId
  deriving DecidableEq, Repr

namespace Turnover

/-- One after the other. -/
def append (t t' : Turnover) : Turnover := ⟨t.allocated ++ t'.allocated, t.retired ++ t'.retired⟩

end Turnover

/-- The node that a step allocates. -/
def Call.allocates? (grant : Grant) (s : Shared α) : Call α → Option NodeId
  | .allocate item => (s.place grant item).2
  | _ => none

/-- The nodes that a call allocates and retires while it runs by itself, for at most so many
steps. -/
def Call.turnover (grant : Grant) : Nat → Shared α → Call α → Turnover
  | 0, _, _ => ⟨[], []⟩
  | n + 1, s, c =>
    let (s', c') := c.step grant s
    .append ⟨(c.allocates? grant s).toList, c.retires?.toList⟩ (turnover grant n s' c')

namespace Shared

/-- The nodes that a request allocates and retires while nobody else uses the queue. -/
def turnover (s : Shared α) (grant : Grant) (r : Request α) : Turnover :=
  r.start.turnover grant (3 * s.nodes.size + 10) s

/-- The walk at the end of a queue, over at most so many nodes: every node is freed, and its item
is dropped unless the node is vacant. Nobody looks at what a vacant node holds. -/
def dismantle? (s : Shared α) : Nat → (vacant : Bool) → Option NodeId → Option (Queue.Remains α)
  | _, _, none => some ⟨[], []⟩
  | 0, _, some _ => none
  | bound + 1, vacant, some node =>
    (s.dismantle? bound false (s.next node)).map fun rest =>
      ⟨node :: rest.nodes, (if vacant then [] else (s.item node).toList) ++ rest.items⟩

/-- The walk frees the nodes of its path, and drops the items of all of them but a vacant first. -/
theorem dismantle?_of_path {s : Shared α} {bound : Nat} {vacant : Bool} {start : Option NodeId}
    {l : List NodeId} (h : Links.Path s.next start l) (hbound : l.length ≤ bound) :
    s.dismantle? bound vacant start =
      some ⟨l, (if vacant then l.tail else l).filterMap s.item⟩ := by
  induction h generalizing bound vacant with
  | nil => cases bound <;> cases vacant <;> rfl
  -- By induction on the path; only its first node can be vacant.
  | @cons node l _ ih =>
    obtain ⟨bound, rfl⟩ : ∃ n, bound = n + 1 := ⟨bound - 1, by simp at hbound; omega⟩
    have hrest := @ih bound false (Nat.le_of_succ_le_succ hbound)
    simp only [dismantle?, hrest, Option.map_some]
    cases vacant with
    | true => rfl
    | false => cases hitem : s.item node <;> simp [hitem]

/-- On a chain it comes to its end. -/
theorem Linked.dismantle?_eq {s : Shared α} {behind : List NodeId} (h : s.Linked behind) :
    s.dismantle? s.nodes.size true (some s.head) =
      some ⟨s.head :: behind, behind.filterMap s.item⟩ :=
  dismantle?_of_path h.path h.length_le

end Shared

/-- What the walk at the end of a queue leaves. The sentinel is vacant. -/
def Queue.dismantle (q : Queue α) : Queue.Remains α :=
  (q.shared.dismantle? q.shared.nodes.size true (some q.shared.head)).get (by
    obtain ⟨behind, h⟩ := q.wellFormed
    simp [h.linked.dismantle?_eq])

/-! ### A queue that is watched -/

/-- A queue with the nodes that it has allocated and retired so far. -/
structure Watched (α : Type u) where
  queue : Queue α
  nodes : Turnover

namespace Watched

/-- A new queue has allocated its sentinel. -/
def init : Watched α := ⟨.init, ⟨[(Queue.init : Queue α).shared.head], []⟩⟩

/-- Enqueues an item, with or without memory for its node. -/
def enqueue? (memory : Bool) (w : Watched α) (a : α) : Watched α × Except (AllocError α) Unit :=
  let (q, answer) := w.queue.enqueue? memory a
  let grant := if memory then .fresh else .refused
  (⟨q, w.nodes.append (w.queue.shared.turnover grant (.enqueue a))⟩, answer)

/-- Dequeues an item. -/
def dequeue (w : Watched α) : Watched α × Option α :=
  let (q, found) := w.queue.dequeue
  (⟨q, w.nodes.append (w.queue.shared.turnover .fresh .dequeue)⟩, found)

/-- What a dequeue of a watched queue finds is the next item of the queue. -/
theorem next_of_dequeue {w w' : Watched α} {found : Option α} (h : w.dequeue = (w', found)) :
    w.queue.next = (w'.queue, found) := by
  cases h
  rfl

/-- A dequeue that finds an item shortens the queue. -/
theorem length_dequeue {w w' : Watched α} {a : α} (h : w.dequeue = (w', some a)) :
    w'.queue.toList.length < w.queue.toList.length :=
  Queue.length_next (next_of_dequeue h)

/-- Dequeues until there are no items. -/
def drain (w : Watched α) : Watched α × List α :=
  match _h : w.dequeue with
  | (w, none) => (w, [])
  | (w', some a) =>
    let rest := w'.drain
    (rest.1, a :: rest.2)
termination_by w.queue.toList.length
decreasing_by exact length_dequeue _h

/-- Dequeues at most so many items. -/
def takeUpTo : Nat → Watched α → Watched α × List α
  | 0, w => (w, [])
  | k + 1, w =>
    match w.dequeue with
    | (w, none) => (w, [])
    | (w, some a) =>
      let rest := takeUpTo k w
      (rest.1, a :: rest.2)

/-- Skips so many items and takes the one behind them. All of them have left the queue. -/
def takeNth (n : Nat) (w : Watched α) : Watched α × List α :=
  match w.takeUpTo n with
  | (w, skipped) =>
    if skipped.length = n then
      let found := w.dequeue
      (found.1, skipped ++ found.2.toList)
    else (w, skipped)

end Watched

/-! ### Lives -/

/-- What a user does with a queue. -/
inductive Use (α : Type u)
  /-- Enqueue an item, with or without memory for its node. -/
  | enqueue (memory : Bool) (item : α)
  | dequeue
  /-- Drain all items, or at most so many. -/
  | drain (limit : Option Nat)
  /-- Skip so many items in a drain, then take one. -/
  | skip (count : Nat)
  | drop
  | release
  deriving DecidableEq, Repr

/-- What a user learns. -/
inductive Report (α : Type u)
  /-- How an enqueue went. -/
  | enqueued (answer : Except (AllocError α) Unit)
  /-- The items that came out. -/
  | items (items : List α)
  | dropped
  /-- How a release went. -/
  | released (outcome : Except Panic Unit)

/-- A use and what came of it. -/
abbrev Entry (α : Type u) := Use α × Report α

namespace Entry

/-- The item passed to an enqueue. -/
def passed? : Entry α → Option α
  | (.enqueue _ a, _) => some a
  | _ => none

/-- The item of an enqueue that was accepted. -/
def accepted? : Entry α → Option α
  | (.enqueue _ a, .enqueued (.ok ())) => some a
  | _ => none

/-- The item that an enqueue handed back. -/
def handedBack? : Entry α → Option α
  | (_, .enqueued (.error e)) => some e.item
  | _ => none

/-- The items that came out of the queue. -/
def returned : Entry α → List α
  | (_, .items items) => items
  | _ => []

end Entry

/-- A queue that was created, with the record of its uses. -/
inductive Life (α : Type u)
  | live (queue : Watched α) (record : List (Entry α))
  /-- It has ended, and left the nodes that it freed and the items that it dropped. -/
  | ended (nodes : Turnover) (record : List (Entry α)) (remains : Queue.Remains α)

/-- Uses a queue: the life that it goes on with, what the user learns, and the events emitted. The
end of a released queue is the same whether the release panics or not. -/
def Watched.serve (w : Watched α) (record : List (Entry α)) (use : Use α) :
    Life α × Report α × List Event :=
  match use with
  | .enqueue memory a =>
    let (w, answer) := w.enqueue? memory a
    let grant := if memory then .fresh else .refused
    let event := (Request.enqueue a).start.event? grant Queue.nodeSize
    (.live w (record ++ [(use, .enqueued answer)]), .enqueued answer, event.toList)
  | .dequeue =>
    let (w, found) := w.dequeue
    (.live w (record ++ [(use, .items found.toList)]), .items found.toList, [])
  -- A drain that is left early has taken what it was asked for, and the rest stays in the queue.
  | .drain limit =>
    let (w, items) := limit.elim w.drain (w.takeUpTo ·)
    (.live w (record ++ [(use, .items items)]), .items items, [])
  | .skip count =>
    let (w, items) := w.takeNth count
    (.live w (record ++ [(use, .items items)]), .items items, [])
  | .drop => (.ended w.nodes (record ++ [(use, .dropped)]) w.queue.dismantle, .dropped, [])
  | .release =>
    let report := .released w.queue.release.outcome
    (.ended w.nodes (record ++ [(use, report)]) w.queue.dismantle, report, w.queue.release.events)

namespace Life

/-- What was asked and reported, in its order. -/
def record : Life α → List (Entry α)
  | live _ record | ended _ record _ => record

/-- The nodes that calls have allocated and retired. -/
def nodes : Life α → Turnover
  | live w _ => w.nodes
  | ended nodes _ _ => nodes

/-- The items in the queue, the oldest first. -/
def held : Life α → List α
  | live w _ => w.queue.toList
  | ended _ _ _ => []

/-- The nodes of the queue, the sentinel first. -/
def chain : Life α → List NodeId
  | live w _ => w.queue.chain
  | ended _ _ _ => []

/-- The items that the end of the queue has dropped. -/
def dropped : Life α → List α
  | live _ _ => []
  | ended _ _ remains => remains.items

/-- The nodes that the end of the queue has freed. -/
def freed : Life α → List NodeId
  | live _ _ => []
  | ended _ _ remains => remains.nodes

/-- The items passed to enqueues. -/
def passed (l : Life α) : List α := l.record.filterMap Entry.passed?

/-- The items of the enqueues that were accepted. -/
def accepted (l : Life α) : List α := l.record.filterMap Entry.accepted?

/-- The items that enqueues have handed back. -/
def handedBack (l : Life α) : List α := l.record.filterMap Entry.handedBack?

/-- The items that dequeues and drains have returned. -/
def returned (l : Life α) : List α := l.record.flatMap Entry.returned

end Life

/-- All queues that were ever created, in the order of their creation. -/
structure Estate (α : Type u) where
  lives : List (Life α)

namespace Estate

/-- What a user does. -/
inductive Act (α : Type u)
  | create
  /-- Use one of the queues. -/
  | use (queue : Nat) (use : Use α)
  deriving DecidableEq, Repr

/-- One act, with what the user learns and the events emitted. Nothing can be done with a queue
that has ended. -/
def step (e : Estate α) : Act α → Estate α × Option (Report α) × List Event
  | .create => (⟨e.lives ++ [.live .init []]⟩, none, [Queue.birth])
  | .use queue use =>
    match e.lives[queue]? with
    -- Only a queue that has not ended yet can be used.
    | some (.live w record) =>
      let (life, report, events) := w.serve record use
      (⟨e.lives.set queue life⟩, some report, events)
    | _ => (e, none, [])

/-- Any acts, one after the other. -/
def run (e : Estate α) (acts : List (Act α)) : Estate α :=
  acts.foldl (fun e act => (e.step act).1) e

end Estate

end AtomicFifo

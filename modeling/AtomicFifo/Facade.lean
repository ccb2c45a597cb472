import AtomicFifo.Flavor
import AtomicFifo.Queue.Drain
import AtomicFifo.Queue.Life
import AtomicFifo.Word.Hex

/-!
# Facades

A queue of counted handles and a queue of bare addresses are linked queues whose items are
seen through a *facade*: an item is wrapped on its way in and unwrapped on its way out, and
nothing else happens to it. There are three of them.

* `Facade.plain`      the items themselves
* `Facade.handles`    objects, each behind a counted handle
* `Facade.addresses`  addresses, which the queue never follows; the null address is one of them

The queues of a stress round carry words: `Flavor.facade` says how those of a flavor do it.
-/

namespace AtomicFifo

universe u v

/-- A counted handle, seen as the object that it leads to. -/
structure Handle (ι : Type u) where
  object : ι
  deriving DecidableEq, Repr

/-- An address that is carried and never followed. -/
structure RawItem (ι : Type u) where
  address : ι
  deriving DecidableEq, Repr

namespace RawItem

/-- The address on one line. -/
def text (r : RawItem Word) : String := "RawItem(" ++ r.address.toHex ++ ")"

/-- The address with all its digits, on a line of its own. -/
def prettyText (r : RawItem Word) : String := "RawItem(\n    " ++ r.address.toFullHex ++ ",\n)"

end RawItem

/-- How items are carried through a queue. -/
structure Facade (ι : Type u) (α : Type v) where
  wrap : ι → α
  unwrap : α → ι
  /-- What comes out is what went in. -/
  unwrap_wrap : ∀ i, unwrap (wrap i) = i
  /-- The name that is put around the text of the queue. -/
  name? : Option String

namespace Facade

variable {ι : Type u} {α : Type v}

/-- The items themselves. -/
def plain (ι : Type u) : Facade ι ι where
  wrap := id
  unwrap := id
  unwrap_wrap _ := rfl
  name? := none

/-- Objects behind counted handles. -/
def handles (ι : Type u) : Facade ι (Handle ι) where
  wrap := Handle.mk
  unwrap := Handle.object
  unwrap_wrap _ := rfl
  name? := some "RefQueue"

/-- Bare addresses. -/
def addresses (ι : Type u) : Facade ι (RawItem ι) where
  wrap := RawItem.mk
  unwrap := RawItem.address
  unwrap_wrap _ := rfl
  name? := some "PtrQueue"

variable (f : Facade ι α)

/-- Appends an item. -/
def enqueue (q : Queue α) (i : ι) : Queue α := q.enqueue (f.wrap i)

/-- Appends an item if there is memory for its node, else hands it back. -/
def enqueue? (memory : Bool) (q : Queue α) (i : ι) : Queue α × Except (AllocError ι) Unit :=
  let (q, accepted) := q.enqueue? memory (f.wrap i)
  (q, accepted.mapError (·.map f.unwrap))

/-- Without memory the queue stays as it is and the item comes back. -/
theorem enqueue?_false (q : Queue α) (i : ι) : f.enqueue? false q i = (q, .error ⟨i⟩) := by
  unfold enqueue?
  rw [Queue.enqueue?_false]
  show (q, Except.error (AllocError.map f.unwrap ⟨f.wrap i⟩)) = _
  rw [AllocError.map, f.unwrap_wrap]

/-- Removes the oldest item. -/
def dequeue (q : Queue α) : Queue α × Option ι :=
  let (q, a) := q.dequeue
  (q, a.map f.unwrap)

/-- The next item of a drain. -/
def next (q : Queue α) : Queue α × Option ι :=
  let (q, a) := q.next
  (q, a.map f.unwrap)

/-- Takes items until there are none. -/
def drain (q : Queue α) : Queue α × List ι :=
  let (q, l) := q.drain
  (q, l.map f.unwrap)

/-- Takes at most so many items. -/
def takeUpTo (k : Nat) (q : Queue α) : Queue α × List ι :=
  let (q, l) := q.takeUpTo k
  (q, l.map f.unwrap)

/-- Skips so many items and takes the one behind them. -/
def takeNth (n : Nat) (q : Queue α) : Queue α × List ι × Option ι :=
  let (q, skipped, a) := q.takeNth n
  (q, skipped.map f.unwrap, a.map f.unwrap)

/-- The items that the end of a queue drops. -/
def remains (q : Queue α) : List ι := q.destroy.items.map f.unwrap

/-- A queue on one line: its size and nothing of its items. -/
def text (q : Queue α) : String :=
  let queue := "QueueHead \x7b len: " ++ q.len.toDecimal ++ ", .. \x7d"
  match f.name? with
  | none => queue
  | some name => name ++ "(" ++ queue ++ ")"

/-- The lines of a queue with one field a line. -/
def prettyLines (q : Queue α) : List String :=
  let queue := ["QueueHead \x7b", "    len: " ++ q.len.toDecimal ++ ",", "    ..", "\x7d"]
  match f.name? with
  | none => queue
  -- The queue is one more level in, and closed with a comma.
  | some name =>
    let inner := queue.map ("    " ++ ·)
    (name ++ "(") :: (inner.dropLast ++ [inner.getLast?.getD "" ++ ","] ++ [")"])

/-- A queue with one field a line. -/
def prettyText (q : Queue α) : String := "\n".intercalate (f.prettyLines q)

end Facade

namespace Flavor

/-- The items of a queue of this flavor. -/
def item : Flavor → Type
  | .ref => Handle Word
  | .ptr => RawItem Word

/-- How a queue of this flavor carries words. -/
def facade : (flavor : Flavor) → Facade Word flavor.item
  | .ref => .handles Word
  | .ptr => .addresses Word

end Flavor

end AtomicFifo

import AtomicFifo.Node.Table
import AtomicFifo.Panic

/-!
# A walk over nodes, step by step

The loop of a walk knows no bound. It counts the node at which it stands, reads the link of this
node, and goes on to where the link leads; at null it returns. So it goes on for as long as the
links do, or until the counter is full.

A `Walker` has the buffer with it, as everything that a walk could write to, and notes down which
addresses it has read. `Buffer.Returns` says what the loop returns, and `Buffer.countNodes?` gives
the same with a bound.

* `Walker.step`       one iteration of the loop
* `Walker.run`        so many iterations
* `Buffer.Returns`    the loop comes to its end
* `NodeTable.LaidIn`  a buffer that has the nodes of a table, wherever the links are in a node
-/

namespace AtomicFifo

/-- Where a walk has come to. -/
inductive Walk
  /-- It has counted so many nodes, and stands at an address or at null. -/
  | standing (count : Word) (place : Option Nat)
  | returned (count : Word)
  | panicked (p : Panic)
  /-- It has read where the buffer has no word. -/
  | astray
  deriving DecidableEq, Repr

/-- A walk over a buffer. -/
structure Walker where
  buffer : Buffer
  /-- The addresses that were read, the latest first. -/
  reads : List Nat
  walk : Walk

namespace Walker

/-- One iteration. A walk that has come to its end stays there. -/
def step (linkOffset : Nat) (w : Walker) : Walker :=
  match w.walk with
  | .standing count none => { w with walk := .returned count }
  | .standing count (some address) =>
    match Word.ofNat? (count.toNat + 1) with
    | none => { w with walk := .panicked .addOverflow }
    | some count =>
      let reads := (address + linkOffset) :: w.reads
      match w.buffer.load? (address + linkOffset) with
      | none => { w with reads := reads, walk := .astray }
      | some link => { w with reads := reads, walk := .standing count (Buffer.ofLink link) }
  | _ => w

/-- So many iterations. -/
def run (linkOffset : Nat) : Nat → Walker → Walker
  | 0, w => w
  | n + 1, w => run linkOffset n (w.step linkOffset)

end Walker

namespace Buffer

/-- A walk before its first iteration. -/
def walker (b : Buffer) (first : Option Nat) : Walker := ⟨b, [], .standing 0 first⟩

/-- A walk from the node at an address returns this count. -/
def Returns (b : Buffer) (linkOffset : Nat) (first : Option Nat) (count : Word) : Prop :=
  ∃ n, ((b.walker first).run linkOffset n).walk = .returned count

end Buffer

namespace NodeTable

/-- The successor of a node. -/
def next (t : NodeTable) (i : Nat) : Option Nat := (t.links[i]?).join

/-- The address of a node in a buffer. -/
def addressIn (t : NodeTable) (b : Buffer) (i : Nat) : Nat := b.base + 8 * (t.nodeWords * i)

/-- The link to a node in a buffer, or null. -/
def linkIn (t : NodeTable) (b : Buffer) : Option Nat → Word
  | none => 0
  | some i => UInt64.ofNat (t.addressIn b i)

/-- The nodes of a table lie side by side in a buffer. Of a node only its link is told, which is
null or leads to a node of the table; all other words may hold anything. -/
structure LaidIn (t : NodeTable) (b : Buffer) : Prop where
  /-- No node has the null address. -/
  base_pos : 0 < b.base
  size_eq : b.words.size = t.nodeWords * t.links.size
  /-- The buffer ends where the addresses do, if not before. -/
  fits : b.base + 8 * b.words.size ≤ UInt64.size
  closed : ∀ i, (h : i < t.links.size) → ∀ j ∈ t.links[i], j < t.links.size
  link_eq : ∀ i, (h : i < t.links.size) →
    b.words[t.nodeWords * i + t.leading]? = some (t.linkIn b t.links[i])

end NodeTable

end AtomicFifo

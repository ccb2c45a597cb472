import AtomicFifo.Links
import AtomicFifo.Node.Layout

/-!
# Walking nodes in memory

A walk over nodes knows the address of the first node and the offset of the link inside a node,
and nothing of the items. It reads one word of memory per node; the null address ends it.

A `NodeTable` describes nodes by their successors alone. `NodeTable.buffer` lays it out in
memory, and `NodeTable.count?` counts along its links without any memory, to compare with.
-/

namespace AtomicFifo

/-- A stretch of memory that starts at address `base`. -/
structure Buffer where
  base : Nat
  words : Array Word

namespace Buffer

/-- The word at an address, if it lies in the buffer on a word boundary. -/
def load? (b : Buffer) (address : Nat) : Option Word :=
  if b.base ≤ address ∧ (address - b.base) % 8 = 0 then b.words[(address - b.base) / 8]? else none

/-- The address that a link holds; null is none. -/
def ofLink (w : Word) : Option Nat :=
  if w = 0 then none else some w.toNat

/-- The node that follows the one at an address. -/
def next (b : Buffer) (linkOffset address : Nat) : Option Nat :=
  (b.load? (address + linkOffset)).bind ofLink

/-- Counts the nodes from the one at address `first` on. No chain that ends has more nodes than
the buffer has words, so a walk beyond that never returns: `none`. -/
def countNodes? (b : Buffer) (linkOffset : Nat) (first : Option Nat) : Option Nat :=
  Links.count? (b.next linkOffset) b.words.size first

end Buffer

/-- Nodes side by side, given by the successor of each. -/
structure NodeTable where
  /-- Words of a node before its link. -/
  leading : Nat
  /-- Words of a node behind its link. -/
  trailing : Nat
  /-- The index of each node's successor. -/
  links : Array (Option Nat)

namespace NodeTable

/-- Where the first node lies. -/
def base : Nat := 4096

/-- The content of every word that is no link. -/
def filler : Word := 0xAAAAAAAAAAAAAAAA

/-- The words of one node. -/
def nodeWords (t : NodeTable) : Nat :=
  t.leading + 1 + t.trailing

/-- The offset of the link in bytes. -/
def linkOffset (t : NodeTable) : Nat :=
  8 * t.leading

/-- The address of a node. -/
def address (t : NodeTable) (i : Nat) : Nat :=
  base + 8 * t.nodeWords * i

/-- The link to a node, or null. -/
def link (t : NodeTable) : Option Nat → Word
  | none => 0
  | some i => UInt64.ofNat (t.address i)

/-- The table in memory. -/
def buffer (t : NodeTable) : Buffer where
  base := base
  words := t.links.flatMap fun l =>
    Array.replicate t.leading filler ++ #[t.link l] ++ Array.replicate t.trailing filler

/-- Every word of `b` that is no link still has its content. -/
def intact (t : NodeTable) (b : Buffer) : Bool :=
  b.words.size == t.nodeWords * t.links.size &&
    (List.range b.words.size).all fun k =>
      k % t.nodeWords == t.leading || b.words[k]? == some filler

/-- Counts the nodes from `start` on along the links of the table. -/
def count? (t : NodeTable) (start : Option Nat) : Option Nat :=
  Links.count? (fun i => (t.links[i]?).join) t.links.size start

/-- Counts the nodes from `start` on by a walk over `b`. -/
def walk? (t : NodeTable) (b : Buffer) (start : Option Nat) : Option Nat :=
  b.countNodes? t.linkOffset (start.map t.address)

end NodeTable

end AtomicFifo

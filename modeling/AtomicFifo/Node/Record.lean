import AtomicFifo.Node.Walk
import Mathlib.Data.Set.Pairwise.Basic

/-!
# Records and nodes in memory

The fields of a record lie in the order in which they are declared, each at the first offset behind
the one before that its alignment allows. A record is aligned as its strictest field is, and its
size is rounded up to that alignment. A node is such a record, of a link and an item.

* `Layout.place`, `Layout.record`   where the fields of a record lie, and what it takes
* `Layout.allocate`                 a request for the memory of a value
* `Layout.linkSpan`, `itemSpan`, `nodeSpan`  the bytes of a node at an address
* `Buffer.HoldsNodes`               nodes of one item type in a stretch of memory
-/

namespace AtomicFifo

/-- A stretch of bytes. -/
structure Span where
  start : Nat
  size : Nat
  deriving DecidableEq, Repr

namespace Span

/-- One of them ends before the other begins. -/
def Apart (s t : Span) : Prop := s.start + s.size ≤ t.start ∨ t.start + t.size ≤ s.start

def Within (s t : Span) : Prop := t.start ≤ s.start ∧ s.start + s.size ≤ t.start + t.size

instance (s t : Span) : Decidable (s.Apart t) := inferInstanceAs (Decidable (_ ∨ _))

instance (s t : Span) : Decidable (s.Within t) := inferInstanceAs (Decidable (_ ∧ _))

end Span

/-- A field at its offset in a record. -/
structure Field where
  offset : Nat
  layout : Layout
  deriving DecidableEq, Repr

/-- The bytes of a field, counted from the start of the record. -/
def Field.span (f : Field) : Span := ⟨f.offset, f.layout.size⟩

namespace Layout

/-- What the layouts of all types have in common: the alignment is a power of two, and the size is
a multiple of it. -/
structure WellFormed (l : Layout) : Prop where
  isPowerOfTwo : l.align.isPowerOfTwo
  dvd : l.align ∣ l.size

/-- The fields of a record, and where the last one ends, if the first `start` bytes are taken. -/
def place (start : Nat) : List Layout → List Field × Nat
  | [] => ([], start)
  | l :: ls =>
    let offset := roundUp start l.align
    let (fields, stop) := place (offset + l.size) ls
    (⟨offset, l⟩ :: fields, stop)

/-- The fields of a record. -/
def fields (ls : List Layout) : List Field := (place 0 ls).1

/-- The alignment of a record. -/
def recordAlign (ls : List Layout) : Nat := (ls.map align).foldr max 1

/-- Size and alignment of a record. -/
def record (ls : List Layout) : Layout :=
  ⟨roundUp (place 0 ls).2 (recordAlign ls), recordAlign ls⟩

/-- A node as a record. -/
def node (item : Layout) : Layout := record [link, item]

/-- Asks for the memory of a value. The allocator answers with an address, or not. -/
def allocate (allocator : Layout → Option Nat) (l : Layout) : Except Panic (Option Nat) :=
  if 0 < l.size then .ok (allocator l) else .error .emptyBlock

/-- The bytes of the link of the node at an address. -/
def linkSpan (node : Nat) : Span := ⟨node + linkOffset, link.size⟩

/-- The bytes of the item of the node at an address. -/
def itemSpan (item : Layout) (node : Nat) : Span := ⟨node + item.itemOffset, item.size⟩

/-- All bytes of the node at an address. -/
def nodeSpan (item : Layout) (node : Nat) : Span := ⟨node, item.nodeSize⟩

end Layout

namespace Buffer

/-- The bytes of a buffer. -/
def span (b : Buffer) : Span := ⟨b.base, 8 * b.words.size⟩

/-- Nodes of one item type at these addresses. They lie anywhere in the buffer, but where nodes may
lie and apart from each other, and their links lead from one to another. -/
structure HoldsNodes (b : Buffer) (item : Layout) (nodes : Set Nat) : Prop where
  base_aligned : Layout.link.align ∣ b.base
  aligned : ∀ p ∈ nodes, item.nodeAlign ∣ p
  within : ∀ p ∈ nodes, (item.nodeSpan p).Within b.span
  apart : nodes.Pairwise fun p q => (item.nodeSpan p).Apart (item.nodeSpan q)
  linked : ∀ p ∈ nodes, ∀ q ∈ b.next Layout.linkOffset p, q ∈ nodes

end Buffer

end AtomicFifo

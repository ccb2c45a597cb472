import AtomicFifo.Word.Decimal

/-!
# Node layout

A node is a link of one machine word followed by an item. The item starts at the first offset
behind the link that its alignment allows, and the size of the node is rounded up to its own
alignment, so that nodes can lie side by side.

* `NodeShape.text`, `NodeShape.prettyText`   the two written forms of a shape
* `ItemType.layout`                          size and alignment of the supported item types
-/

namespace AtomicFifo

/-- The least multiple of `step` that is at least `n`; `n` itself if `step` is zero. -/
def roundUp (n step : Nat) : Nat :=
  if step = 0 then n else (n + step - 1) / step * step

/-- Size and alignment of a value in bytes. -/
structure Layout where
  size : Nat
  align : Nat
  deriving DecidableEq, Repr

/-- Size of a node and offset of the link inside it, all that a walk over nodes has to know. -/
structure NodeShape where
  size : Word
  linkOffset : Word
  deriving DecidableEq, Repr

namespace Layout

/-- The link of a node: one word. -/
def link : Layout := ⟨8, 8⟩

/-- The offset of the link, the first field of a node. -/
def linkOffset : Nat := 0

/-- The offset of the item in a node. -/
def itemOffset (item : Layout) : Nat :=
  roundUp (linkOffset + link.size) item.align

/-- The alignment of a node: the stricter one of its two fields. -/
def nodeAlign (item : Layout) : Nat :=
  max link.align item.align

/-- The size of a node. -/
def nodeSize (item : Layout) : Nat :=
  roundUp (item.itemOffset + item.size) item.nodeAlign

/-- The shape of a node. -/
def nodeShape (item : Layout) : NodeShape :=
  ⟨UInt64.ofNat item.nodeSize, UInt64.ofNat linkOffset⟩

/-- One machine word: every handle, every address. -/
def word : Layout := ⟨8, 8⟩

/-- An array of `count` values. -/
def array (elem : Layout) (count : Nat) : Layout :=
  ⟨elem.size * count, elem.align⟩

/-- A record of `bytes` bytes that is aligned to `align`. -/
def alignedBytes (align bytes : Nat) : Layout :=
  ⟨roundUp bytes align, align⟩

end Layout

/-- The item types whose layout is known. -/
inductive ItemType
  /-- An array of unsigned integers of `2 ^ log` bytes each, at most sixteen. -/
  | integers (log : Fin 5) (count : Nat)
  /-- A record of so many bytes, aligned to 32. -/
  | aligned32 (bytes : Nat)
  /-- A record of so many bytes, aligned to 64. -/
  | aligned64 (bytes : Nat)
  /-- A truth value. -/
  | bool
  /-- A character, four bytes. -/
  | char
  /-- A growable text: address, length and capacity. -/
  | text
  /-- A borrowed text: address and length. -/
  | slice
  /-- A counted handle. -/
  | handle
  /-- An optional 64-bit integer, with a word for the mark. -/
  | optionalWord
  /-- An optional handle: the null address marks absence. -/
  | optionalHandle
  /-- A bare address. -/
  | address
  deriving DecidableEq, Repr

/-- Size and alignment of an item type. -/
def ItemType.layout : ItemType → Layout
  | .integers log count => .array ⟨1 <<< log.val, 1 <<< log.val⟩ count
  | .aligned32 bytes => .alignedBytes 32 bytes
  | .aligned64 bytes => .alignedBytes 64 bytes
  | .bool => ⟨1, 1⟩
  | .char => ⟨4, 4⟩
  | .text => .array .word 3
  | .slice => .array .word 2
  | .handle => .word
  | .optionalWord => .array .word 2
  | .optionalHandle => .word
  | .address => .word

namespace NodeShape

/-- The shape on one line. -/
def text (s : NodeShape) : String :=
  "NodeShape \x7b size: " ++ s.size.toDecimal ++ ", link_offset: " ++ s.linkOffset.toDecimal
    ++ " \x7d"

/-- The shape with one field a line. -/
def prettyText (s : NodeShape) : String :=
  "NodeShape \x7b\n    size: " ++ s.size.toDecimal ++ ",\n    link_offset: "
    ++ s.linkOffset.toDecimal ++ ",\n\x7d"

end NodeShape

end AtomicFifo

import AtomicFifo.Session

/-!
# Sessions on addresses

The user owns an arena of cells and enqueues their addresses, or any other addresses. Nothing
that happens to an address touches the cell that it leads to.
-/

namespace AtomicFifo

universe u

/-- The cells of the user. -/
structure Arena (β : Type u) where
  cells : Array β

/-- An address. Where the cells lie is unknown, so the address of a cell is known by the cell, and
no number is one. -/
inductive Address
  /-- A number that is no address of a cell. -/
  | bare (word : Word)
  | cell (index : Nat)
  deriving DecidableEq, Repr

/-- A request for an address. -/
inductive AddressRequest
  /-- The address of a cell. -/
  | cell (index : Nat)
  /-- An address in hexadecimal. -/
  | hex (text : String)
  /-- Nothing that names an address. -/
  | missing

namespace Arena

variable {β : Type u}

/-- Finds the address that is asked for. -/
def locate (a : Arena β) : AddressRequest → Option Address
  | .cell index => if index < a.cells.size then some (.cell index) else none
  | .hex text => (Word.ofHex? text).map .bare
  | .missing => none

/-- The custody of addresses: there is nothing to keep. -/
def custody : Custody (Arena β) AddressRequest Address where
  fetch a request := (a.locate request).map (·, a)
  generate a n := some (.bare n, a)
  release a _ := a
  keep a _ := a
  drop a _ := a

end Arena

end AtomicFifo

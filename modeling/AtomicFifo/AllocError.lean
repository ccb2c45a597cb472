/-!
# Refused items

An enqueue that finds no memory hands its item back inside an `AllocError`. Its texts do not
show the item, so they exist for items of every type.
-/

namespace AtomicFifo

universe u v

/-- An item that found no memory for its node. -/
structure AllocError (α : Type u) where
  item : α
  deriving DecidableEq, Repr

namespace AllocError

variable {α : Type u} {β : Type v}

/-- The same refusal, with the item seen as something else. -/
def map (f : α → β) (e : AllocError α) : AllocError β := ⟨f e.item⟩

/-- What the refusal says; it pays no regard to a width. -/
def message (_ : AllocError α) : String := "failed to allocate a queue node"

/-- The refusal as a value, the same on one line as on several. -/
def text (_ : AllocError α) : String := "AllocError(..)"

/-- The error that caused the refusal: there is none. -/
def source? (_ : AllocError α) : Option String := none

end AllocError

end AtomicFifo

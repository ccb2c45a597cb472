import AtomicFifo.Text.Cut
import AtomicFifo.Word.Decimal

/-!
# Panics

A panic reports a mistake of the caller or a resource that ran out where nobody was asked to
deal with it. It ends what the thread was doing.
-/

namespace AtomicFifo

/-- Why a call panicked. -/
inductive Panic
  /-- A product needs more than 64 bits. -/
  | multiplyOverflow
  /-- A list of results, or the room of a channel, would not fit the address space. -/
  | capacityOverflow
  /-- A sum needs more than 64 bits. -/
  | addOverflow
  /-- A queue was released with this many nodes still linked. -/
  | releasedNonEmpty (left : Nat)
  /-- A channel's item found no memory. -/
  | outOfMemory
  /-- A channel's item found no receiver. -/
  | receiverDropped
  /-- A batch was asked for with room for no item. -/
  | emptyBatch
  /-- Memory of no bytes was asked for. -/
  | emptyBlock
  /-- A thread that nobody joined had panicked. -/
  | scopedThread
  /-- A text was cut within a character. -/
  | partedChar (p : Text.PartedChar)
  deriving DecidableEq, Repr

/-- The text of a panic. -/
def Panic.message : Panic → String
  | .multiplyOverflow => "attempt to multiply with overflow"
  | .capacityOverflow => "capacity overflow"
  | .addOverflow => "attempt to add with overflow"
  | .releasedNonEmpty left =>
    "assertion `left == right` failed: released a non-empty queue\n  left: "
      ++ toString left ++ "\n right: 0"
  | .outOfMemory => "out of memory: AllocError(..)"
  | .receiverDropped => "receiver dropped: SendError \x7b .. \x7d"
  | .emptyBatch => "assertion failed: buflen > 0"
  | .emptyBlock => "assertion failed: layout.size() > 0"
  | .scopedThread => "a scoped thread panicked"
  | .partedChar p => p.message

end AtomicFifo

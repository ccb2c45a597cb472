import AtomicFifo.Panic

/-!
# Bounded buffers

A bounded buffer holds at most as many items as its capacity, and hands them out in the order in
which they came in. A sender waits while the buffer is full. An item that nobody can receive any
more makes its sender panic.

Its view is the list of the items that it holds:

* `toList_create`    a fresh buffer holds nothing
* `length_toList`    the room taken up is the number of items held
* `send_of_room`     with room left, a send appends its item
* `receive_of_cons`, `receive_of_nil`  a receive takes the oldest item, if there is one
-/

namespace AtomicFifo

/-- How a send goes. -/
inductive Sent
  | ok
  /-- The buffer is full: the sender waits. -/
  | blocked
  | panicked (panic : Panic)
  deriving DecidableEq, Repr

/-- A bounded buffer: the items that came in, and how many of them went out. -/
structure Bounded where
  capacity : Word
  /-- The items that came in, the oldest first. -/
  arrived : Array Word
  /-- How many of them went out. -/
  left : Nat
  /-- Whether there is a receiver. -/
  receiving : Bool
  left_le : left ≤ arrived.size
  deriving DecidableEq, Repr

namespace Bounded

/-- An empty buffer. -/
def create (capacity : Word) : Bounded := ⟨capacity, #[], 0, true, Nat.le_refl 0⟩

/-- The panic that the creation of a buffer ends in. The slots are two words each and must fit
the address space; the laps around the buffer are counted by the least power of two that is not
below the number after the capacity, where the number after the last word is zero, and this
power must be a word. -/
def refusal? (capacity : Word) : Option Panic :=
  if 1 <<< 63 < (capacity + 1).toNat then some .addOverflow
  else if 1 <<< 63 ≤ 16 * capacity.toNat then some .capacityOverflow
  else none

/-- The number of items held. -/
def size (b : Bounded) : Nat := b.arrived.size - b.left

/-- Whether there is room for an item. -/
def hasRoom (b : Bounded) : Bool := b.size < b.capacity.toNat

/-- Appends an item. -/
def push (b : Bounded) (v : Word) : Bounded :=
  match b with
  | ⟨capacity, arrived, left, receiving, h⟩ =>
    ⟨capacity, arrived.push v, left, receiving, by
      simp only [Array.size_push]
      exact Nat.le_succ_of_le h⟩

/-- Appends an item, unless the receiver is gone or the buffer is full. -/
def send (b : Bounded) (v : Word) : Bounded × Sent :=
  if !b.receiving then (b, .panicked .receiverDropped)
  else if b.hasRoom then (b.push v, .ok)
  else (b, .blocked)

/-- Removes the oldest item. -/
def receive (b : Bounded) : Bounded × Option Word :=
  if h : b.left < b.arrived.size then
    let v := b.arrived[b.left]
    ({ b with left := b.left + 1, left_le := h }, some v)
  else (b, none)

/-- Drops the receiver, and with it the items held. -/
def closeReceiver (b : Bounded) : Bounded := ⟨b.capacity, #[], 0, false, Nat.le_refl 0⟩

/-! ### The items held -/

/-- The items held, the oldest first. -/
def toList (b : Bounded) : List Word := b.arrived.toList.drop b.left

/-- A fresh buffer holds nothing. -/
@[simp] theorem toList_create (capacity : Word) : (create capacity).toList = [] := rfl

/-- Without a receiver the buffer holds nothing. -/
@[simp] theorem toList_closeReceiver (b : Bounded) : b.closeReceiver.toList = [] := rfl

/-- The room taken up is the number of items held. -/
theorem length_toList (b : Bounded) : b.toList.length = b.size := by
  simp [toList, size]

/-- A push appends its item. -/
@[simp] theorem toList_push (b : Bounded) (v : Word) : (b.push v).toList = b.toList ++ [v] := by
  have h := b.left_le
  simp only [toList, push, Array.toList_push]
  exact List.drop_append_of_le_length (by simpa using h)

/-- With a receiver and room left, a send appends its item. -/
theorem send_of_room {b : Bounded} (hr : b.receiving = true) (h : b.hasRoom = true) (v : Word) :
    b.send v = (b.push v, .ok) := by
  simp [send, hr, h]

/-- Nothing is received from an empty buffer. -/
theorem receive_of_nil {b : Bounded} (h : b.toList = []) : b.receive = (b, none) := by
  have hs : ¬ b.left < b.arrived.size := by
    simpa [toList] using h
  simp [receive, hs]

/-- The oldest item is received, and the others stay. -/
theorem receive_of_cons {b : Bounded} {v : Word} {l : List Word} (h : b.toList = v :: l) :
    b.receive.2 = some v ∧ b.receive.1.toList = l := by
  have hs : b.left < b.arrived.size := by
    have := b.length_toList
    simp only [h, size, List.length_cons] at this
    omega
  -- The oldest item is the first one that has not gone out.
  have hd : b.toList = b.arrived[b.left] :: b.arrived.toList.drop (b.left + 1) := by
    simp only [toList]
    rw [List.drop_eq_getElem_cons (by simpa using hs)]
    simp
  rw [h, List.cons.injEq] at hd
  simp only [receive, hs, ↓reduceDIte, toList]
  exact ⟨congrArg some hd.1.symm, hd.2.symm⟩

end Bounded

end AtomicFifo

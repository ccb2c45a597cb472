import AtomicFifo.Facade

/-!
# Queues as their threads see them

A `Fifo` is a queue of tags that several threads use at once: calls begin, advance by atomic
steps in any order, and return or panic. It says nothing about what the calls do, so a faulty
implementation is a `Fifo` as well.

`Fifo.linked` is the linked queue behind a facade, with the atomic steps of `Call.step`.
-/

namespace AtomicFifo

universe u v

/-- What has become of a call after one of its steps. -/
inductive Progress (κ : Type u)
  | running (call : κ)
  | returned (reply : Reply Word)
  | panicked

/-- The outcome of one step of a call. -/
structure Turn (σ : Type u) (κ : Type v) where
  state : σ
  progress : Progress κ
  event : Option Event

/-- A queue of tags, by the steps of its calls. -/
structure Fifo (σ : Type u) (κ : Type v) where
  /-- Begins a call. -/
  start : Request Word → κ
  /-- Advances a call by one atomic step. -/
  step : σ → κ → Turn σ κ

namespace Fifo

/-- Runs a call by itself, for at most so many steps. -/
def runAlone {σ : Type u} {κ : Type v} (f : Fifo σ κ) : Nat → σ → κ → Option (σ × Reply Word)
  | 0, _, _ => none
  | n + 1, s, c =>
    match f.step s c with
    | ⟨s, .running c, _⟩ => f.runAlone n s c
    | ⟨s, .returned reply, _⟩ => some (s, reply)
    | ⟨_, .panicked, _⟩ => none

variable {α : Type u}

/-- A call of a linked queue as progress; its items are unwrapped. -/
def progress (unwrap : α → Word) : Call α → Progress (Call α)
  | .done reply => .returned (reply.map unwrap)
  | c => .running c

/-- A linked queue of tags behind a facade. -/
def linked (f : Facade Word α) : Fifo (Shared α) (Call α) where
  start
    | .enqueue tag => .allocate (f.wrap tag)
    | .dequeue => .readHead
    | .isEmpty => .probeHead
  step s c :=
    match c.step .fresh s with
    | (s, c) => ⟨s, progress f.unwrap c, none⟩

end Fifo

end AtomicFifo

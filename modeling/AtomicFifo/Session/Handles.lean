import AtomicFifo.Session

/-!
# Sessions on counted handles

An object lives as long as there is a handle of it. The books count the handles of every
object: one more where a handle is cloned, one less where a handle goes, and the object is
freed when none is left. Handles move between the user and the queues without being counted.

The user has a table with a place for one handle of each object, and a list of handles kept. It
goes by one of two customs: it takes handles from the table and lets go what comes back, or it
takes them from those kept and keeps what comes back. Four commands work on these besides the
queues.
-/

namespace AtomicFifo

/-- The user's handles, and the number of handles of every object. -/
structure Handles where
  /-- Whether the table has a handle of the object. -/
  table : Array Bool
  /-- The objects of the handles kept. -/
  held : List Nat
  /-- The number of handles of every object, wherever they are. -/
  strong : Array Nat
  /-- The objects freed, the latest first. -/
  freed : List Nat

/-- A request for a handle of an object: a clone of one that the user has, or that one itself. -/
structure HandleRequest where
  object : Nat
  give : Bool

namespace Handles

/-- One handle in the table for every object. -/
def create (objects : Nat) : Handles where
  table := Array.replicate objects true
  held := []
  strong := Array.replicate objects 1
  freed := []

/-- A handle goes, and the object with it if this was the last one. -/
def release (h : Handles) (object : Nat) : Handles :=
  let strong := h.strong.modify object (· - 1)
  { h with
    strong := strong
    -- The count of an object that is freed is zero already, so it is freed once.
    freed := if strong[object]? = some 0 then object :: h.freed else h.freed }

/-- A handle is cloned. -/
def clone (h : Handles) (object : Nat) : Handles :=
  { h with strong := h.strong.modify object (· + 1) }

/-- Whether the table has a handle of an object. -/
def inTable (h : Handles) (object : Nat) : Bool := h.table[object]?.getD false

/-- Obtains a handle from the table. -/
def fetch (h : Handles) (r : HandleRequest) : Option (Nat × Handles) :=
  -- A clone needs the handle in the table as well.
  if !h.inTable r.object then none
  else if r.give then
    some (r.object, { h with table := h.table.setIfInBounds r.object false })
  else some (r.object, h.clone r.object)

/-- Keeps a handle. -/
def keep (h : Handles) (object : Nat) : Handles := { h with held := object :: h.held }

/-- The custody of the handles in the table. -/
def custody : Custody Handles HandleRequest Nat where
  fetch := fetch
  -- The numbers go round the table, with a clone of each handle.
  generate h n :=
    if h.table.isEmpty then none else h.fetch ⟨n.toNat % h.table.size, false⟩
  release := release
  keep := keep
  drop := release

/-- Obtains a handle from those kept. -/
def fetchHeld (h : Handles) (r : HandleRequest) : Option (Nat × Handles) :=
  if r.object ∉ h.held then none
  else if r.give then some (r.object, { h with held := h.held.erase r.object })
  else some (r.object, h.clone r.object)

/-- The custody of the handles kept. -/
def hoard : Custody Handles HandleRequest Nat where
  fetch := fetchHeld
  -- Kept handles have no numbers to be generated by.
  generate _ _ := none
  release := keep
  keep := keep
  drop := release

/-- Puts a handle into the table; the one that it replaces goes. -/
def restore (h : Handles) (object : Nat) : Handles :=
  -- A handle that stood there before is let go.
  let h := if h.inTable object then h.release object else h
  { h with table := h.table.setIfInBounds object true }

/-- What is done with the handles of a session. -/
inductive Action
  /-- What any session can do. -/
  | common (action : AtomicFifo.Action HandleRequest)
  /-- The same with the handles kept. -/
  | hoarding (action : AtomicFifo.Action HandleRequest)
  /-- Dequeue a handle and put it into the table. -/
  | restore
  /-- Let the table's handle of an object go. -/
  | forget (object : Nat)
  /-- Let all handles that were kept go. -/
  | dropHeld
  /-- Dequeue a handle and ask for the object itself. -/
  | unwrap

/-- An action with the places of its queues. -/
structure Command where
  action : Action
  queue : Nat
  other : Option Nat

/-- A session on handles. -/
abbrev Session := AtomicFifo.Session Handles (Handle Nat)

/-- The facade of handles of numbered objects. -/
abbrev facade : Facade Nat (Handle Nat) := .handles Nat

/-- An action of handles alone, on a queue that goes on existing. -/
def act (q : Queue (Handle Nat)) (h : Handles) : Action → Queue (Handle Nat) × Handles × Answer Nat
  -- These are run by the session with a custody.
  | .common _ | .hoarding _ => (q, h, .ok)
  | .restore =>
    match facade.dequeue q with
    | (q, i) => (q, i.elim h h.restore, .item i)
  | .forget object =>
    -- An object that does not exist is told from one whose handle is gone.
    if h.table.size ≤ object then (q, h, .noObject)
    else if h.inTable object then
      (q, { h with table := h.table.setIfInBounds object false }.release object, .flag true)
    else (q, h, .flag false)
  | .dropHeld => (q, { h.held.foldl release h with held := [] }, .count h.held.length)
  | .unwrap =>
    match facade.dequeue q with
    | (q, none) => (q, h, .item none)
    | (q, some i) =>
      -- The count is read before the handle goes: one handle gives the object itself.
      let strong := h.strong[i]?.getD 0
      (q, h.release i, if strong = 1 then .owned i else .shared i strong)

/-- Runs one command. -/
def run (s : Session) (cmd : Command) : Session × Answer Nat × List Event :=
  match cmd.action with
  | .common action => s.run facade custody ⟨action, cmd.queue, cmd.other⟩
  | .hoarding action => s.run facade hoard ⟨action, cmd.queue, cmd.other⟩
  | action =>
    if !(cmd.other.all s.present) then (s, .noQueue, [])
    else
      match s.queue? cmd.queue with
      | none => (s, .noQueue, [])
      | some q =>
        match act q s.books action with
        | (q, books, answer) => ({ s.setQueue cmd.queue q with books := books }, answer, [])

end Handles

end AtomicFifo

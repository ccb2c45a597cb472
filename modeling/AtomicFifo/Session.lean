import AtomicFifo.Facade

/-!
# Sessions on several queues

A session is what one user does with a table of queues, command by command. The items pass
between the queues and the user; what it means that the user obtains one, looks at one and lets
it go, keeps one, or that a queue drops one, is the business of a `Custody`, which keeps its
own books. Plain values, counted handles and addresses have one each.

A command names a queue by its place in the table, and some name a second one. A place is
empty once its queue has ended.

* `Session.run`      one command: the session afterwards, the answer, and the events emitted
* `Session.finish`   the end: the remaining queues are dropped in the order of their places
-/

namespace AtomicFifo

universe u v w x

/-- What happens to items outside the queues. `ε` is the state of the user's books, `σ` the way
to ask for an item. -/
structure Custody (ε : Type u) (σ : Type v) (ι : Type w) where
  /-- Obtains an item, if there is one. -/
  fetch : ε → σ → Option (ι × ε)
  /-- Obtains the item of a number, if there is one. -/
  generate : ε → Word → Option (ι × ε)
  /-- Looks at an item that came back, and lets it go. -/
  release : ε → ι → ε
  /-- Keeps an item that came back. -/
  keep : ε → ι → ε
  /-- Takes notice of an item that was dropped unseen. -/
  drop : ε → ι → ε

/-- What is done while a drain stays alive. -/
inductive LiveStep (σ : Type v)
  /-- Ask the drain for its next item. -/
  | next
  /-- Dequeue from the queue itself. -/
  | dequeue
  | len
  | isEmpty
  /-- Ask the drain how many items it will give. -/
  | sizeHint
  /-- Enqueue an item. -/
  | enqueue (item : σ)
  /-- A word without meaning. -/
  | unknown

/-- What is done with one queue, or with two. -/
inductive Action (σ : Type v)
  /-- Add a queue to the table. -/
  | create
  /-- Release the queue. -/
  | release
  /-- Drop the queue. -/
  | drop
  /-- Exchange the two places. -/
  | swap
  /-- Enqueue an item, with or without memory for its node. -/
  | enqueue (memory : Bool) (item : σ)
  /-- Enqueue the items of the numbers from `first` on, so many of them. -/
  | fill (first : Word) (count : Nat)
  /-- Dequeue an item and let it go. -/
  | dequeue
  /-- Dequeue an item and keep it. -/
  | take
  /-- Drain all items, or at most so many. -/
  | drain (limit : Option Nat)
  /-- Skip so many items in a drain, then take one. -/
  | skip (count : Nat)
  /-- Drop every item of a drain. -/
  | discard
  /-- Do all this while one drain stays alive; nothing is to be done without a script. -/
  | live (script : Option (List (LiveStep σ)))
  /-- Dequeue at most so many items and enqueue them to the other queue. -/
  | move (count : Nat)
  | len
  | isEmpty
  | nodeCount
  /-- Write the queue on one line, or with one field a line. -/
  | write (pretty : Bool)

/-- An action with the places of its queues. -/
structure Command (σ : Type v) where
  action : Action σ
  queue : Nat
  other : Option Nat

/-- The answer to a step of a script. -/
inductive LiveAnswer (ι : Type w)
  | item (item : Option ι)
  | count (n : Nat)
  | flag (b : Bool)
  | bounds (lower : Nat) (upper : Option Nat)
  | enqueued
  | noItem

/-- The answer to a command. -/
inductive Answer (ι : Type w)
  | ok
  /-- A place named by the command holds no queue. -/
  | noQueue
  /-- There is no item to enqueue. -/
  | noItem
  /-- There is no object of this number. -/
  | noObject
  /-- A step of a script has no meaning, or the script is missing. -/
  | badStep
  | count (n : Nat)
  | flag (b : Bool)
  | item (item : Option ι)
  | items (items : List ι)
  | refused (error : AllocError ι)
  | text (text : String)
  | panicked (panic : Panic)
  | live (answers : List (LiveAnswer ι))
  /-- The only handle of an object gave the object itself. -/
  | owned (object : ι)
  /-- One of so many handles of an object. -/
  | shared (object : ι) (handles : Nat)

/-- A table of queues and the books of their user. -/
structure Session (ε : Type u) (α : Type x) where
  queues : Array (Option (Queue α))
  books : ε

namespace Session

variable {ε : Type u} {σ : Type v} {ι : Type w} {α : Type x}

/-- A session with so many empty queues, and the events of their creation. -/
def create (count : Nat) (books : ε) : Session ε α × List Event :=
  (⟨Array.replicate count (some .init), books⟩, List.replicate count Queue.birth)

/-- The queue at a place. -/
def queue? (s : Session ε α) (place : Nat) : Option (Queue α) := (s.queues[place]?).join

/-- Puts a queue back at its place. -/
def setQueue (s : Session ε α) (place : Nat) (q : Queue α) : Session ε α :=
  { s with queues := s.queues.setIfInBounds place (some q) }

/-- Leaves a place empty. -/
def clear (s : Session ε α) (place : Nat) : Session ε α :=
  { s with queues := s.queues.setIfInBounds place none }

variable (f : Facade ι α) (c : Custody ε σ ι)

/-- Enqueues the items of so many numbers, as long as there are items. -/
def fill (first : Word) : Nat → Nat → Queue α → ε → Queue α × ε × Nat
  | 0, done, q, books => (q, books, done)
  | n + 1, done, q, books =>
    match c.generate books (first + UInt64.ofNat done) with
    -- The books may run out of items before the count does.
    | none => (q, books, done)
    | some (i, books) => fill first n (done + 1) (f.enqueue q i) books

/-- Dequeues at most so many items from one queue and enqueues them to another. -/
def transfer : Nat → Nat → Queue α → Queue α → Queue α × Queue α × Nat
  | 0, done, source, target => (source, target, done)
  | n + 1, done, source, target =>
    match f.dequeue source with
    -- An empty source ends the transfer early.
    | (source, none) => (source, target, done)
    | (source, some i) => transfer n (done + 1) source (f.enqueue target i)

/-- Dequeues at most so many items and enqueues them to the same queue again. -/
def rotate : Nat → Nat → Queue α → Queue α × Nat
  | 0, done, q => (q, done)
  | n + 1, done, q =>
    match f.dequeue q with
    | (q, none) => (q, done)
    | (q, some i) => rotate n (done + 1) (f.enqueue q i)

/-- One step while a drain stays alive; a word without meaning has no answer. -/
def liveStep (q : Queue α) (books : ε) : LiveStep σ → Option (Queue α × ε × LiveAnswer ι)
  | .next =>
    match f.next q with
    | (q, i) => some (q, (i.elim books (c.release books)), .item i)
  | .dequeue =>
    match f.dequeue q with
    | (q, i) => some (q, (i.elim books (c.release books)), .item i)
  | .len => some (q, books, .count q.len.toNat)
  | .isEmpty => some (q, books, .flag q.isEmpty)
  -- A drain keeps no account of what is left.
  | .sizeHint => some (q, books, .bounds Queue.sizeHint.1 Queue.sizeHint.2)
  | .enqueue item =>
    match c.fetch books item with
    | none => some (q, books, .noItem)
    | some (i, books) => some (f.enqueue q i, books, .enqueued)
  | .unknown => none

/-- All steps of a script, up to one without meaning. -/
def liveScript : List (LiveStep σ) → Queue α → ε → Queue α × ε × Option (List (LiveAnswer ι))
  | [], q, books => (q, books, some [])
  | step :: script, q, books =>
    match liveStep f c q books step with
    -- What was done before stays done, but nothing is answered.
    | none => (q, books, none)
    | some (q, books, answer) =>
      match liveScript script q books with
      | (q, books, answers) => (q, books, answers.map (answer :: ·))

/-- An action on one queue that goes on existing. -/
def act (q : Queue α) (books : ε) : Action σ → Queue α × ε × Answer ι × List Event
  | .enqueue memory item =>
    match c.fetch books item with
    | none => (q, books, .noItem, [])
    | some (i, books) =>
      match f.enqueue? memory q i with
      | (q, .ok ()) => (q, books, .ok, [])
      | (q, .error e) =>
        -- Only a refused allocation is told of.
        let event := (Request.enqueue i).start.event? .refused Queue.nodeSize
        (q, c.release books e.item, .refused e, event.toList)
  | .fill first count =>
    match fill f c first count 0 q books with
    | (q, books, done) => (q, books, .count done, [])
  | .dequeue =>
    match f.dequeue q with
    | (q, i) => (q, i.elim books (c.release books), .item i, [])
  | .take =>
    match f.dequeue q with
    | (q, i) => (q, i.elim books (c.keep books), .item i, [])
  | .drain limit =>
    match limit.elim (f.drain q) (f.takeUpTo · q) with
    | (q, items) => (q, items.foldl c.release books, .items items, [])
  | .skip count =>
    match f.takeNth count q with
    | (q, skipped, i) =>
      -- What was skipped is dropped before the item is handed over.
      let books := skipped.foldl c.drop books
      (q, i.elim books (c.release books), .item i, [])
  | .discard =>
    match f.drain q with
    | (q, items) => (q, items.foldl c.drop books, .count items.length, [])
  | .live none => (q, books, .badStep, [])
  | .live (some script) =>
    match liveScript f c script q books with
    | (q, books, answers) => (q, books, answers.elim .badStep .live, [])
  | .len => (q, books, .count q.len.toNat, [])
  | .isEmpty => (q, books, .flag q.isEmpty, [])
  | .nodeCount => (q, books, .count q.nodeCount, [])
  | .write pretty => (q, books, .text (if pretty then f.prettyText q else f.text q), [])
  -- These are no actions on one queue; a session runs them itself.
  | .create | .release | .drop | .swap | .move _ => (q, books, .ok, [])

/-- Ends the queue at a place; its items are dropped. -/
def dispose (s : Session ε α) (place : Nat) (q : Queue α) : Session ε α :=
  { s.clear place with books := (f.remains q).foldl c.drop s.books }

/-- Whether a place has a queue. -/
def present (s : Session ε α) (place : Nat) : Bool := (s.queue? place).isSome

/-- Runs one command. -/
def run (s : Session ε α) (cmd : Command σ) : Session ε α × Answer ι × List Event :=
  let place := cmd.queue
  match cmd.action with
  | .create =>
    ({ s with queues := s.queues.push (some .init) }, .count s.queues.size, [Queue.birth])
  | .swap =>
    let other := cmd.other.getD 0
    match s.queues[place]?, s.queues[other]? with
    | some a, some b =>
      ({ s with
          queues := (s.queues.setIfInBounds place b).setIfInBounds other a }, .ok, [])
    | _, _ => (s, .noQueue, [])
  -- The queue is gone whether the release panics or not.
  | .release =>
    match s.queue? place with
    | none => (s, .noQueue, [])
    | some q =>
      let r := q.release
      let answer := match r.outcome with
        | .ok () => .ok
        | .error p => .panicked p
      (dispose f c s place q, answer, r.events)
  | .drop =>
    match s.queue? place with
    | none => (s, .noQueue, [])
    | some q => (dispose f c s place q, .ok, [])
  | action =>
    -- A second queue that is named must exist, even where it is not used.
    if !(cmd.other.all s.present) then (s, .noQueue, [])
    else
      match s.queue? place with
      | none => (s, .noQueue, [])
      | some q =>
        match action with
        | .move count =>
          let other := cmd.other.getD 0
          -- From a queue to itself, items go from the front to the end.
          if other = place then
            match rotate f count 0 q with
            | (q, done) => (s.setQueue place q, .count done, [])
          else
            match s.queue? other with
            | none => (s, .noQueue, [])
            | some target =>
              match transfer f count 0 q target with
              | (q, target, done) =>
                ((s.setQueue place q).setQueue other target, .count done, [])
        | action =>
          match act f c q s.books action with
          | (q, books, answer, events) =>
            ({ s.setQueue place q with books := books }, answer, events)

/-- Drops the remaining queues, in the order of their places. -/
def finish (s : Session ε α) : Session ε α :=
  (List.range s.queues.size).foldl
    (fun s place => (s.queue? place).elim s (dispose f c s place)) s

end Session

end AtomicFifo

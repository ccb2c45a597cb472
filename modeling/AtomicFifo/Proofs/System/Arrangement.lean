import AtomicFifo.Collector
import AtomicFifo.Proofs.System.Invariant

/-!
# How the nodes of a queue are arranged

However many threads enqueue and dequeue at the same time, the links from the head form a chain
that ends, the tail stands on its last node or on the one before, and nothing ever moves
backwards: a link is written once, and each exchange of the head or of the tail that succeeds
moves it over exactly one link, no matter how old the values are that the thread had read.

* `arranged_run`   all of this, for every run of any number of threads
-/

namespace AtomicFifo

universe u

open Links

variable {α : Type u}

namespace Shared

/-- The chain from the head, and where the tail stands on it. -/
structure Arranged (s : Shared α) (chain : List NodeId) : Prop where
  path : Path s.next (some s.head) chain
  nodup : chain.Nodup
  tail_mem : s.tail ∈ chain
  /-- The tail is the last node or the one before. -/
  near_end : ∃ l, chain = l ++ [s.tail] ∨ ∃ last, chain = l ++ [s.tail, last]
  /-- Without a node behind the sentinel the tail stands on the sentinel. -/
  alone : chain = [s.head] → s.head = s.tail

/-- What one step may change of the links, the head and the tail. -/
structure Advanced (s s' : Shared α) : Prop where
  /-- A link that is not null stays as it is. -/
  links : ∀ n, s'.next n = s.next n ∨ (s.next n = none ∧ (s'.next n).isSome)
  /-- At most one of the head and the tail moves, and it moves over one link. -/
  pointers : (s'.head = s.head ∧ s'.tail = s.tail) ∨
    (s.next s.head = some s'.head ∧ s'.tail = s.tail) ∨
    (s'.head = s.head ∧ s.next s.tail = some s'.tail)

variable {s s' : Shared α}

/-- The nodes of a coherent state are arranged in a chain. -/
private theorem Coherent.arranged (h : s.Coherent) : ∃ chain, s.Arranged chain := by
  obtain ⟨behind, hl⟩ := h.linked
  obtain ⟨l, r, hlr⟩ := List.append_of_mem hl.tail_mem
  have hpath := hl.path
  rw [hlr] at hpath
  refine ⟨s.head :: behind, hl.path, hl.nodup, hl.tail_mem, ⟨l, ?_⟩, fun halone => ?_⟩
  · -- What the chain holds beyond the tail is what the links of the tail lead to.
    rw [hlr]
    cases r with
    | nil => exact .inl rfl
    | cons m r =>
      have hm : s.next s.tail = some m := path_next hpath
      have hlast : s.next m = none := by simpa [hm] using h.lag
      have hpath' : Path s.next (some s.head) ((l ++ [s.tail]) ++ m :: r) := by simpa using hpath
      have hr := path_next hpath'
      rw [hlast] at hr
      cases r with
      | nil => exact .inr ⟨m, rfl⟩
      | cons k r => simp at hr
  · -- The chain holds the tail, so it is the sentinel.
    have := hl.tail_mem
    rw [halone] at this
    exact (List.mem_singleton.1 this).symm

/-- A change writes a link that was null, or moves the head or the tail over one link. -/
theorem Change.advanced {e : Option Effect} (h : s.Change e s') (hs : s.Coherent) :
    s.Advanced s' := by
  cases h with
  | rest => exact ⟨fun _ => .inl rfl, .inl ⟨rfl, rfl⟩⟩
  | place a => exact ⟨fun n => .inl (next_push s a n), .inl ⟨rfl, rfl⟩⟩
  | count c => exact ⟨fun _ => .inl rfl, .inl ⟨rfl, rfl⟩⟩
  | tail hm => exact ⟨fun _ => .inl rfl, .inr (.inr ⟨rfl, hm⟩)⟩
  | @link n ht hn =>
    refine ⟨fun k => ?_, .inl ⟨rfl, rfl⟩⟩
    rw [linkBehind_next hs]
    split
    · -- This is the link of the tail, which was null.
      rename_i hk
      exact .inr ⟨hk ▸ ht, rfl⟩
    · exact .inl rfl
  | head hm ht => exact ⟨fun _ => .inl rfl, .inr (.inl ⟨hm, rfl⟩)⟩

end Shared

namespace Call

variable {s : Shared α} {c : Call α}

/-- An exchange of the tail over its link moves it if it succeeds, and only then. -/
private theorem exchangeTail_moves {old new : NodeId} (hs : s.Coherent)
    (hnext : s.next old = some new) :
    s.tail ≠ old ↔
      (s.exchangeTail old new).1.head = s.head ∧ (s.exchangeTail old new).1.tail = s.tail := by
  rcases exchangeTail_cases s old new with ⟨rfl, h⟩ | ⟨hne, h⟩
  · rw [h]
    exact ⟨fun hne => absurd rfl hne,
      fun hsame => absurd hsame.2 (hs.next_ne hs.reaches_tail hnext)⟩
  · rw [h]
    exact ⟨fun _ => ⟨rfl, rfl⟩, fun _ => hne⟩

/-- The head and the tail stay where they are unless the exchange of the step succeeds, and
then one of them moves. -/
private theorem exchanges_eq_false_iff (memory : Bool) (hs : s.Coherent) (hk : c.Knows s) :
    c.exchanges s = false ↔ (c.step (.ofMemory memory) s).1.head = s.head ∧
      (c.step (.ofMemory memory) s).1.tail = s.tail := by
  -- Only four points of a call exchange the head or the tail.
  cases c with
  | helpTail node tail next => simpa [exchanges, step] using exchangeTail_moves hs hk
  | swingTail node tail => simpa [exchanges, step] using exchangeTail_moves hs hk
  | helpHead head next => simpa [exchanges, step] using exchangeTail_moves hs hk
  | unlink head next =>
    rcases exchangeHead_cases s head next with ⟨rfl, h⟩ | ⟨hne, h⟩
    · have := hs.next_ne .refl hk.1
      simp [exchanges, step, h, this]
    · simp [exchanges, step, h, hne]
  | allocate item => cases memory <;> simp [exchanges, step, Shared.place, Grant.ofMemory]
  | readTailLink node tail =>
    simp only [exchanges, step]
    split <;> simp
  | link node tail =>
    rcases exchangeLink_cases hk node with ⟨-, -, h⟩ | ⟨-, h⟩ <;> simp [exchanges, step, h]
  | readHeadLink head tail =>
    simp only [exchanges, step]
    split <;> simp
  | _ => simp [exchanges, step]

end Call

namespace System

variable {s : System α}

/-- A node that a call is about to retire is on the chain at no time from then on. -/
private theorem Inv.retired {thread : Nat} {call : Call α} {n : NodeId} (h : s.Inv)
    (hat : s.At thread call) (hn : call.retires? = some n) (moves : List (Move α)) :
    ¬ Reaches (s.run moves).shared.next (s.run moves).shared.head n := by
  cases call with
  | takeItem head next =>
    cases hn
    -- Its link leads to the head, and goes on to do so.
    obtain ⟨hnext, hhead, -⟩ := h.knows hat
    have hgrows := h.grows moves
    exact (h.run moves).coherent.not_reached (hgrows.next _ _ hnext)
      ((hhead.mono hgrows.next).trans hgrows.head)
  | _ => cases hn

/-- In every state that a run leads to, the nodes are arranged as `Shared.Arranged` says; no
link that is written is ever written again; every step moves the head and the tail as
`Shared.Advanced` says, which is over one link where an exchange of the head or the tail
succeeds and not at all elsewhere; and no node that a call retires comes back to the chain, so
neither head nor tail ever stands on one. -/
theorem arranged_run (threads : Nat) (moves : List (Move α)) :
    let s := (init threads : System α).run moves
    (∃ chain, s.shared.Arranged chain) ∧
      (∀ later n m, s.shared.next n = some m → (s.run later).shared.next n = some m) ∧
      (∀ move, s.shared.Advanced (s.step move).shared) ∧
      (∀ thread memory call, s.running? thread = some call →
        (call.exchanges s.shared = false ↔
          (s.step (.advance thread memory)).shared.head = s.shared.head ∧
            (s.step (.advance thread memory)).shared.tail = s.shared.tail)) ∧
      (∀ thread call n, s.running? thread = some call → call.retires? = some n →
        ∀ later chain, (s.run later).shared.Arranged chain → n ∉ chain) := by
  intro s
  -- All parts rest on the invariant of the state that the run leads to.
  have hinv : s.Inv := ((Reachable.init threads).run moves).inv
  refine ⟨hinv.coherent.arranged, fun later => (hinv.grows later).next, fun move => ?_,
    fun thread memory call hrun => ?_, fun thread call n hrun hn later chain harr => ?_⟩
  · obtain ⟨e, he⟩ := hinv.exists_change move
    exact he.advanced hinv.coherent
  · have hat := (running?_eq_some_iff.1 hrun).1
    rw [step_advance hrun]
    exact Call.exchanges_eq_false_iff memory hinv.coherent (hinv.knows hat)
  · have hat := (running?_eq_some_iff.1 hrun).1
    rw [harr.path.mem_iff_reaches]
    exact hinv.retired hat hn later

end System

end AtomicFifo

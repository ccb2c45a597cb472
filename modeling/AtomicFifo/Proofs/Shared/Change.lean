import AtomicFifo.Proofs.Links.Reaches
import AtomicFifo.Shared.Chain
import AtomicFifo.System
import Mathlib.Data.List.Basic

/-!
# What one atomic access can do to a queue

Whatever a thread does to the shared state of a queue, it is one of six changes, and each of
them comes with the reason why it was possible: the tail moves only over the link that it
stands in front of, a node is linked only behind a tail that is the last node, and the head
moves only over a link that does not lie beyond the tail. `Change` lists them.

A state is `Coherent` if the links from its head run through a chain that ends, the tail
stands on this chain, and at most one link lies beyond the tail. From `Change` alone follow

* `Change.coherent`   a change of a coherent state leads to a coherent state
* `Change.grows`      links and items stay, and head and tail move forward
* `Change.apart`      nodes that are not linked yet stay so, except for the one that is linked
* `Change.items`      what becomes of the items behind the sentinel
-/

namespace AtomicFifo.Shared

universe u

open Links

variable {α : Type u} {s s' : Shared α} {behind : List NodeId}

/-- The chain ends, the tail stands on it, and it lags by at most one link. -/
structure Coherent (s : Shared α) : Prop where
  linked : ∃ behind, s.Linked behind
  lag : (s.next s.tail).bind s.next = none

/-- A node that holds an item and is not linked yet. -/
structure Apart (s : Shared α) (n : NodeId) : Prop where
  allocated : n < s.nodes.size
  next_eq : s.next n = none
  not_reached : ¬ Reaches s.next s.head n
  occupied : (s.item n).isSome

/-- What a change does to the items: a node comes to the end of the chain, or a node loses its
item by becoming the sentinel. -/
inductive Effect
  | linked (node : NodeId)
  | unlinked (node : NodeId)
  deriving DecidableEq, Repr

/-- The state after a node has been linked behind the tail. -/
def linkBehind (s : Shared α) (n : NodeId) : Shared α :=
  { s with nodes := s.nodes.modify s.tail fun x => { x with link := some n } }

/-- The changes that one access can make. -/
inductive Change (s : Shared α) : Option Effect → Shared α → Prop
  | rest : Change s none s
  | place (a : α) : Change s none { s with nodes := s.nodes.push ⟨some a, none⟩ }
  | count (c : Word) : Change s none { s with count := c }
  /-- The tail moves over one link. -/
  | tail {m : NodeId} (hm : s.next s.tail = some m) : Change s none { s with tail := m }
  /-- A node is linked behind the tail. -/
  | link {n : NodeId} (ht : s.next s.tail = none) (hn : s.Apart n) :
      Change s (some (.linked n)) (s.linkBehind n)
  /-- The head moves over one link. -/
  | head {m : NodeId} (hm : s.next s.head = some m) (ht : Reaches s.next m s.tail) :
      Change s (some (.unlinked m)) { s with head := m }

/-- How the shared state can only go on: links and items stay, head and tail move forward. -/
structure Grows (s s' : Shared α) : Prop where
  size : s.nodes.size ≤ s'.nodes.size
  next : ∀ n m, s.next n = some m → s'.next n = some m
  item : ∀ n a, s.item n = some a → s'.item n = some a
  head : Reaches s'.next s.head s'.head
  tail : Reaches s'.next s.tail s'.tail

/-- Going on without a change is growth. -/
theorem Grows.refl (s : Shared α) : s.Grows s :=
  ⟨Nat.le_refl _, fun _ _ h => h, fun _ _ h => h, .refl, .refl⟩

/-- One growth after another is growth. -/
theorem Grows.trans {s'' : Shared α} (h : s.Grows s') (h' : s'.Grows s'') : s.Grows s'' where
  size := Nat.le_trans h.size h'.size
  next n m hn := h'.next n m (h.next n m hn)
  item n a hn := h'.item n a (h.item n a hn)
  -- What has been reached with fewer links is reached with more.
  head := (h.head.mono h'.next).trans h'.head
  tail := (h.tail.mono h'.next).trans h'.tail

/-! ### Chains and the nodes that are reached -/

/-- The chain has the nodes that the head reaches. -/
theorem Linked.mem_iff (h : s.Linked behind) {n : NodeId} :
    n ∈ s.head :: behind ↔ Reaches s.next s.head n :=
  h.path.mem_iff_reaches

/-- The tail is reached from the head. -/
theorem Coherent.reaches_tail (h : s.Coherent) : Reaches s.next s.head s.tail := by
  obtain ⟨behind, hl⟩ := h.linked
  exact hl.mem_iff.1 hl.tail_mem

/-- A node that the tail is reached from and that has no link is the tail. -/
theorem eq_tail_of_none {t : NodeId} (h : Reaches s.next t s.tail) (ht : s.next t = none) :
    t = s.tail :=
  (h.eq_of_none ht).symm

/-- On a chain a node is not its own successor. -/
theorem Coherent.next_ne (h : s.Coherent) {n m : NodeId} (hn : Reaches s.next s.head n)
    (hm : s.next n = some m) : m ≠ n := by
  rintro rfl
  obtain ⟨behind, hl⟩ := h.linked
  -- The path from the head to `m` would go on with `m` for ever.
  obtain ⟨l, r, hlr⟩ := List.append_of_mem (hl.mem_iff.2 hn)
  have hpath := hl.path
  rw [hlr] at hpath
  have hhead := path_next hpath
  have hnodup := hpath.suffix.nodup
  cases r with
  | nil => simp [hm] at hhead
  | cons b r => simp_all

/-- A node whose successor leads to the head has left the chain. -/
theorem Coherent.not_reached (h : s.Coherent) {n m : NodeId} (hm : s.next n = some m)
    (hhead : Reaches s.next m s.head) : ¬ Reaches s.next s.head n := by
  intro hn
  obtain ⟨behind, hl⟩ := h.linked
  -- Head and node would reach each other, and so would the node and its successor.
  obtain rfl := hl.path.antisymm hn (.head hm hhead)
  exact h.next_ne .refl hm (hl.path.antisymm (.single hm) hhead).symm

/-- A node that is not linked yet is not on the chain. -/
theorem Apart.not_mem {n : NodeId} (hn : s.Apart n) (h : s.Linked behind) :
    n ∉ s.head :: behind :=
  fun hmem => hn.not_reached (h.mem_iff.1 hmem)

/-- A node that is not linked yet is not the tail. -/
theorem Apart.ne_tail {n : NodeId} (hn : s.Apart n) (h : s.Coherent) : n ≠ s.tail := by
  rintro rfl
  exact hn.not_reached h.reaches_tail

/-! ### Linking a node -/

/-- Linking leaves the head where it is. -/
@[simp] theorem linkBehind_head (s : Shared α) (n : NodeId) : (s.linkBehind n).head = s.head := rfl

/-- Linking leaves the tail where it is. -/
@[simp] theorem linkBehind_tail (s : Shared α) (n : NodeId) : (s.linkBehind n).tail = s.tail := rfl

/-- Linking leaves the counter as it is. -/
@[simp] theorem linkBehind_count (s : Shared α) (n : NodeId) :
    (s.linkBehind n).count = s.count := rfl

/-- Linking allocates nothing. -/
@[simp] theorem linkBehind_size (s : Shared α) (n : NodeId) :
    (s.linkBehind n).nodes.size = s.nodes.size := by
  simp [linkBehind]

/-- Linking leaves every node its item. -/
@[simp] theorem linkBehind_item (s : Shared α) (n k : NodeId) :
    (s.linkBehind n).item k = s.item k :=
  item_modify s s.tail n k

/-- Linking changes the link of the tail alone. -/
theorem linkBehind_next (h : s.Coherent) (n k : NodeId) :
    (s.linkBehind n).next k = if k = s.tail then some n else s.next k := by
  obtain ⟨behind, hl⟩ := h.linked
  have hlt := hl.allocated _ hl.tail_mem
  have := next_modify s s.tail n k
  simpa [linkBehind, hlt] using this

/-- The linked node has no link itself. -/
theorem linkBehind_next_self {n : NodeId} (h : s.Coherent) (hn : s.Apart n) :
    (s.linkBehind n).next n = none := by
  rw [linkBehind_next h, if_neg (hn.ne_tail h), hn.next_eq]

/-- A node linked behind the last one is the new last one. -/
theorem Linked.linkBehind {n : NodeId} (h : s.Linked behind) (hs : s.Coherent)
    (ht : s.next s.tail = none) (hn : s.Apart n) : (s.linkBehind n).Linked (behind ++ [n]) where
  -- The chain ends with the tail, and goes on with the new node now.
  path := path_concat h.path (path_getLast? h.path h.tail_mem ht) (linkBehind_next hs n)
    (linkBehind_next_self hs hn)
  allocated := by
    intro k hk
    rw [linkBehind_size]
    have hk' : k ∈ s.head :: behind ∨ k = n := by simpa [or_assoc] using hk
    -- Each node is one of the chain so far or the linked one.
    rcases hk' with hk' | rfl
    · exact h.allocated k hk'
    · exact hn.allocated
  occupied := by
    intro k hk
    rw [linkBehind_item]
    rcases List.mem_append.1 hk with hk | hk
    · exact h.occupied k hk
    · rw [List.mem_singleton.1 hk]
      exact hn.occupied
  tail_mem := by
    have := h.tail_mem
    simp only [linkBehind_head, linkBehind_tail]
    rw [← List.cons_append]
    exact List.mem_append_left _ this

/-! ### What every change keeps -/

/-- A chain loses its sentinel when the head moves on. -/
theorem Linked.moveHead {m : NodeId} (h : s.Linked behind) (hm : s.next s.head = some m)
    (ht : Reaches s.next m s.tail) :
    ∃ behind', behind = m :: behind' ∧ ({ s with head := m } : Shared α).Linked behind' := by
  -- Only a sentinel with a node behind it has a link to move over.
  cases behind with
  | nil => simp [h.next_head_nil] at hm
  | cons b behind' =>
    rw [h.next_head_cons] at hm
    cases hm
    refine ⟨behind', rfl, ?_⟩
    have hpath : Path s.next (some m) (m :: behind') := by
      have := @Path.suffix _ s.next (some s.head) [s.head] behind' m h.path
      exact this
    exact {
      path := hpath
      allocated := fun n hn => h.allocated n (List.mem_cons_of_mem _ hn)
      occupied := fun n hn => h.occupied n (List.mem_cons_of_mem _ hn)
      tail_mem := hpath.mem_iff_reaches.2 ht }

/-- A new node is on no chain. -/
theorem Linked.push (h : s.Linked behind) (a : α) :
    ({ s with nodes := s.nodes.push ⟨some a, none⟩ } : Shared α).Linked behind where
  path := path_congr h.path fun n _ => next_push s a n
  allocated n hn := by
    have := h.allocated n hn
    simp only [Array.size_push]
    omega
  occupied n hn := by
    rw [item_push]
    split
    · rfl
    · exact h.occupied n hn
  tail_mem := h.tail_mem

/-- A change of a coherent state leads to a coherent state. -/
theorem Change.coherent {e : Option Effect} (h : s.Change e s') (hs : s.Coherent) :
    s'.Coherent := by
  obtain ⟨behind, hl⟩ := hs.linked
  cases h with
  | rest => exact hs
  | place a =>
    -- Nothing leads to the new node, so no link changes.
    refine ⟨⟨behind, hl.push a⟩, ?_⟩
    have hnext : ({ s with nodes := s.nodes.push ⟨some a, none⟩ } : Shared α).next = s.next :=
      funext (next_push s a)
    rw [hnext]
    exact hs.lag
  | count c => exact ⟨⟨behind, hl.of_count⟩, hs.lag⟩
  | @tail m hm =>
    refine ⟨⟨behind, hl.of_tail (hl.mem_iff.2 (hs.reaches_tail.tail hm))⟩, ?_⟩
    -- Only one link was beyond the tail, so none is beyond the new one.
    have hnone : s.next m = none := by simpa [hm] using hs.lag
    simp [hnone]
  | @link n ht hn =>
    -- No link was beyond the tail, and the new one leads to a node without a link.
    refine ⟨⟨behind ++ [n], hl.linkBehind hs ht hn⟩, ?_⟩
    simp [linkBehind_next hs, hn.next_eq, hn.ne_tail hs]
  | @head m hm ht =>
    -- The tail is not left behind, since the new head still reaches it.
    obtain ⟨behind', -, hl'⟩ := hl.moveHead hm ht
    exact ⟨⟨behind', hl'⟩, hs.lag⟩

/-- Under a change links and items stay, and head and tail move forward. -/
theorem Change.grows {e : Option Effect} (h : s.Change e s') (hs : s.Coherent) : s.Grows s' := by
  cases h with
  | rest => exact .refl s
  | place a =>
    exact {
      size := by simp
      next := fun n m hn => by rwa [next_push]
      item := fun n b hn => by
        rw [item_push]
        split
        · -- No node has stood in the new place, so no item has either.
          rename_i heq
          simp [heq, item] at hn
        · exact hn
      head := .refl
      tail := .refl }
  | count c => exact ⟨Nat.le_refl _, fun _ _ h => h, fun _ _ h => h, .refl, .refl⟩
  | tail hm => exact ⟨Nat.le_refl _, fun _ _ h => h, fun _ _ h => h, .refl, .single hm⟩
  | @link n ht hn =>
    refine ⟨by simp, fun k m hk => ?_, fun k b hk => by simpa using hk, .refl, .refl⟩
    rw [linkBehind_next hs]
    split
    · -- The link that is written was null before.
      rename_i heq
      simp [heq, ht] at hk
    · exact hk
  | head hm ht => exact ⟨Nat.le_refl _, fun _ _ h => h, fun _ _ h => h, .single hm, .refl⟩

/-- A node that is not linked yet stays so unless it is the one that is linked. -/
theorem Change.apart {e : Option Effect} {k : NodeId} (h : s.Change e s') (hs : s.Coherent)
    (hk : s.Apart k) (hne : e ≠ some (.linked k)) : s'.Apart k := by
  have hgrows := h.grows hs
  have hocc : (s'.item k).isSome := by
    obtain ⟨a, ha⟩ := Option.isSome_iff_exists.1 hk.occupied
    simp [hgrows.item k a ha]
  have hsize := Nat.lt_of_lt_of_le hk.allocated hgrows.size
  cases h with
  | rest => exact hk
  | place a =>
    have hnext : ({ s with nodes := s.nodes.push ⟨some a, none⟩ } : Shared α).next = s.next :=
      funext (next_push s a)
    exact ⟨hsize, by rw [hnext]; exact hk.next_eq, by rw [hnext]; exact hk.not_reached, hocc⟩
  | count c => exact ⟨hsize, hk.next_eq, hk.not_reached, hocc⟩
  | tail hm => exact ⟨hsize, hk.next_eq, hk.not_reached, hocc⟩
  | @link n ht hn =>
    have hkn : k ≠ n := by
      rintro rfl
      exact hne rfl
    exact {
      allocated := hsize
      next_eq := by
        rw [linkBehind_next hs, if_neg (hk.ne_tail hs)]
        exact hk.next_eq
      not_reached := by
        -- The chain has got longer by another node.
        obtain ⟨behind, hl⟩ := hs.linked
        have hmem := hk.not_mem hl
        rw [← (hl.linkBehind hs ht hn).mem_iff]
        simpa [hkn] using hmem
      occupied := hocc }
  | @head m hm ht =>
    -- What the new head reaches the old one has reached.
    refine ⟨hsize, hk.next_eq, fun hreach => hk.not_reached ?_, hocc⟩
    exact .head hm hreach

/-- A change leads to no node that was not reached before, except for the one that it links. -/
theorem Change.reaches_back {e : Option Effect} {a b : NodeId} (h : s.Change e s')
    (hs : s.Coherent) (hab : Reaches s'.next a b) :
    Reaches s.next a b ∨ e = some (.linked b) := by
  cases h with
  | place x =>
    have hnext : ({ s with nodes := s.nodes.push ⟨some x, none⟩ } : Shared α).next = s.next :=
      funext (next_push s x)
    rw [hnext] at hab
    exact .inl hab
  | @link n ht hn =>
    -- Along the new links; the only one that is new leads from the tail to the linked node.
    induction hab with
    | refl => exact .inl .refl
    | @tail b d _ hbd ih =>
      rw [linkBehind_next hs] at hbd
      rcases ih with hab | heq
      · split at hbd
        · cases hbd
          exact .inr rfl
        · exact .inl (hab.tail hbd)
      · -- Behind the linked node there is nothing.
        cases heq
        rw [if_neg (hn.ne_tail hs), hn.next_eq] at hbd
        cases hbd
  | _ => exact .inl hab

/-- Links lead to nodes that there are. -/
def Closed (s : Shared α) : Prop :=
  ∀ {n m : NodeId}, s.next n = some m → m < s.nodes.size

/-- Links that lead to allocated nodes go on doing so. -/
theorem Change.closed {e : Option Effect} (h : s.Change e s') (hs : s.Coherent)
    (hclosed : s.Closed) : s'.Closed := by
  have hsize := (h.grows hs).size
  intro n m hm
  cases h with
  | place a =>
    rw [next_push] at hm
    exact Nat.lt_of_lt_of_le (hclosed hm) hsize
  -- The one link that is new leads to an allocated node.
  | @link k ht hk =>
    rw [linkBehind_next hs] at hm
    split at hm
    · cases hm
      exact Nat.lt_of_lt_of_le hk.allocated hsize
    · exact Nat.lt_of_lt_of_le (hclosed hm) hsize
  | _ => exact hclosed hm

/-- A node that has just been allocated is not linked yet. -/
theorem Coherent.apart_push (hs : s.Coherent) (a : α) :
    ({ s with nodes := s.nodes.push ⟨some a, none⟩ } : Shared α).Apart s.nodes.size := by
  obtain ⟨behind, hl⟩ := hs.linked
  refine ⟨by simp, ?_, ?_, ?_⟩
  · rw [next_push]
    simp [next]
  · -- All nodes of the chain have been there before.
    rw [← (hl.push a).mem_iff]
    intro hmem
    exact Nat.lt_irrefl _ (hl.allocated _ hmem)
  · rw [item_push]
    simp

/-! ### The items behind the sentinel -/

/-- The items are those of the nodes behind the sentinel. -/
theorem Linked.items_eq (h : s.Linked behind) : s.items = behind.filterMap s.item := by
  simp [items, h.chain?_eq]

/-- Where a node has no link that the head was once, it is still the head, and nothing is behind
it. -/
theorem Coherent.items_eq_nil (h : s.Coherent) {n : NodeId} (hn : Reaches s.next n s.head)
    (hnone : s.next n = none) : s.items = [] := by
  obtain ⟨behind, hl⟩ := h.linked
  obtain rfl := hn.eq_of_none hnone
  cases behind with
  | nil => exact hl.items_eq
  | cons m behind => simp [hl.next_head_cons] at hnone

/-- The nodes behind the sentinel are those that a walk from the head finds, and each of them
holds an item. -/
theorem Coherent.chain_items (h : s.Coherent) :
    ∃ behind, s.chain? = some (s.head :: behind) ∧ behind.map s.item = s.items.map some := by
  obtain ⟨behind, hl⟩ := h.linked
  exact ⟨behind, hl.chain?_eq, hl.items_eq ▸ hl.map_item⟩

/-- A walk over the nodes behind the sentinel counts the items. -/
theorem Coherent.nodeCount?_eq (h : s.Coherent) : s.nodeCount? = some s.items.length := by
  obtain ⟨behind, hl⟩ := h.linked
  obtain ⟨behind', hchain, hmap⟩ := h.chain_items
  rw [hl.chain?_eq] at hchain
  cases hchain
  have := congrArg List.length hmap
  rw [hl.nodeCount?_eq]
  simpa using this

/-- What becomes of a list of items: nothing, one more at the end, or one less at the start. -/
def Effect.Turns (item : NodeId → Option α) : Option Effect → List α → List α → Prop
  | none, before, after => after = before
  | some (.linked n), before, after => ∃ a, item n = some a ∧ after = before ++ [a]
  | some (.unlinked n), before, after => ∃ a, item n = some a ∧ before = a :: after

/-- A linked node brings its item to the end, and an unlinked one takes the first item away. -/
theorem Change.items {e : Option Effect} (h : s.Change e s') (hs : s.Coherent) :
    Effect.Turns s.item e s.items s'.items := by
  obtain ⟨behind, hl⟩ := hs.linked
  have heq := hl.items_eq
  cases h with
  | rest => rfl
  | place a =>
    rw [Effect.Turns, heq, (hl.push a).items_eq]
    -- The new place is none of those that the chain runs through.
    refine List.filterMap_congr fun n hn => ?_
    have := hl.allocated n (List.mem_cons_of_mem _ hn)
    rw [item_push, if_neg (Nat.ne_of_lt this)]
  | count c =>
    rw [Effect.Turns, heq, (hl.of_count).items_eq]
    rfl
  | @tail m hm =>
    rw [Effect.Turns, heq, (hl.of_tail (hl.mem_iff.2 (hs.reaches_tail.tail hm))).items_eq]
    rfl
  -- The node keeps the item that it was allocated with.
  | @link n ht hn =>
    obtain ⟨a, ha⟩ := Option.isSome_iff_exists.1 hn.occupied
    refine ⟨a, ha, ?_⟩
    have hitem : (s.linkBehind n).item = s.item := funext (linkBehind_item s n)
    rw [heq, (hl.linkBehind hs ht hn).items_eq, hitem, List.filterMap_append]
    simp [ha]
  -- The node that becomes the sentinel was the first one behind it.
  | @head m hm ht =>
    obtain ⟨behind', rfl, hl'⟩ := hl.moveHead hm ht
    obtain ⟨a, ha⟩ := Option.isSome_iff_exists.1 (hl.occupied m (by simp))
    refine ⟨a, ha, ?_⟩
    rw [heq, hl'.items_eq, List.filterMap_cons_some ha]
    rfl

end AtomicFifo.Shared

import AtomicFifo.Queue.Drain

/-!
# What a call writes to

An operation on a queue writes to the nodes of its own chain and to places that were never used
before, and the chain that it leaves runs through such nodes only. Everything else in the
memory stays as it is, and so does any chain that keeps clear of these nodes.

* `Confined.enqueue`, `Confined.dequeue`, `Confined.drain`, `Confined.takeUpTo`, `Confined.takeNth`
* `Confined.exists_tail`  the tail moved to any node of the chain
* `Chain.of_nodes`     a chain whose nodes have not changed
-/

namespace AtomicFifo

universe u

variable {α : Type u}

namespace Queue

/-- What is done to `q` to make it `q'` writes to nodes of its chain and to new places only. -/
structure Confined (q q' : Queue α) : Prop where
  size_le : q.shared.nodes.size ≤ q'.shared.nodes.size
  kept : ∀ n < q.shared.nodes.size, n ∉ q.chain → q'.shared.nodes[n]? = q.shared.nodes[n]?
  own : ∀ n ∈ q'.chain, n ∈ q.chain ∨ q.shared.nodes.size ≤ n

namespace Confined

variable {q q' q'' : Queue α}

/-- What does nothing is confined. -/
theorem refl (q : Queue α) : q.Confined q where
  size_le := Nat.le_refl _
  kept _ _ _ := rfl
  own _ hn := .inl hn

/-- What is confined and goes on confined is confined. -/
theorem trans (h : q.Confined q') (h' : q'.Confined q'') : q.Confined q'' where
  size_le := Nat.le_trans h.size_le h'.size_le
  kept n hlt hn := by
    have hn' : n ∉ q'.chain := by
      intro hmem
      -- A node of the chain in between is one of the first chain or a new one.
      rcases h.own n hmem with hmem | hle
      · exact hn hmem
      · exact absurd hlt (Nat.not_lt.2 hle)
    rw [h'.kept n (Nat.lt_of_lt_of_le hlt h.size_le) hn', h.kept n hlt hn]
  own n hn := by
    rcases h'.own n hn with hn | hle
    · exact h.own n hn
    · exact .inr (Nat.le_trans h.size_le hle)

/-- A change that leaves the nodes alone, and the chain within what it was. -/
private theorem of_nodes_eq (hnodes : q'.shared.nodes = q.shared.nodes)
    (hchain : ∀ n ∈ q'.chain, n ∈ q.chain) : q.Confined q' where
  size_le := Nat.le_of_eq (congrArg Array.size hnodes.symm)
  kept n _ _ := by rw [hnodes]
  own n hn := .inl (hchain n hn)

/-- An enqueue writes to a new place, and to the link of the last node. -/
theorem enqueue (q : Queue α) (a : α) : q.Confined (q.enqueue a) := by
  obtain ⟨behind, last, h, hlast, hshared, h'⟩ := q.exists_enqueue a
  have hchain := chain_eq h.linked
  have hchain' := chain_eq h'.linked
  rw [hshared] at hchain'
  exact {
    size_le := by simp [hshared, Shared.appended]
    kept := fun n hlt hn => by
      -- The only old node that changes is the last one of the chain.
      have hne : last ≠ n := by
        rintro rfl
        exact hn (hchain ▸ List.mem_of_getLast? hlast)
      rw [hshared]
      simp [Shared.appended, Array.getElem?_modify, hne, Array.getElem?_push, Nat.ne_of_lt hlt]
    own := fun n hn => by
      have hmem : n ∈ q.shared.head :: behind ∨ n = q.shared.nodes.size := by
        rw [hchain'] at hn
        simpa [Shared.appended, or_assoc] using hn
      rcases hmem with hmem | rfl
      · exact .inl (hchain ▸ hmem)
      · exact .inr (Nat.le_refl _) }

/-- A dequeue writes to no node. -/
theorem dequeue (q : Queue α) : q.Confined q.dequeue.1 := by
  obtain ⟨-, hsame⟩ | ⟨m, behind, h, hshared, h', -⟩ := q.dequeue_cases
  · rw [hsame]
    exact .refl q
  · -- A dequeue changes no node; its chain is the rest of the old one.
    refine .of_nodes_eq (by rw [hshared]; rfl) fun n hn => ?_
    rw [chain_eq h'.linked, hshared] at hn
    rw [chain_eq h.linked]
    exact List.mem_cons_of_mem _ hn

/-- Nor does a drain, however many dequeues it is. -/
theorem drain (q : Queue α) : q.Confined q.drain.1 := by
  generalize hlen : q.toList.length = n
  induction n using Nat.strongRecOn generalizing q with
  | ind n ih =>
    obtain ⟨-, hnext⟩ | ⟨q', a, hnext, -⟩ := q.next_cases
    · rw [drain_of_none hnext]
      exact .refl q
    · have hfirst : q.Confined q.next.1 := dequeue q
      rw [hnext] at hfirst
      rw [drain_of_some hnext]
      exact hfirst.trans (ih _ (hlen ▸ length_next hnext) q' rfl)

/-- A drain that is cut off writes to no node either. -/
theorem takeUpTo (k : Nat) (q : Queue α) : q.Confined (q.takeUpTo k).1 := by
  induction k generalizing q with
  | zero => exact refl q
  | succ k ih =>
    have hfirst : q.Confined q.next.1 := dequeue q
    unfold Queue.takeUpTo
    cases hnext : q.next with
    | mk q' item =>
      rw [hnext] at hfirst
      cases item with
      | none => exact hfirst
      | some a => exact hfirst.trans (ih q')

/-- Looking for an item writes to no node either. -/
theorem takeNth (n : Nat) (q : Queue α) : q.Confined (q.takeNth n).1 := by
  have hskipped := takeUpTo n q
  unfold Queue.takeNth
  cases hq : q.takeUpTo n with
  | mk q' skipped =>
    rw [hq] at hskipped
    show q.Confined (if skipped.length = n then _ else _ : Queue α × List α × Option α).1
    split
    · exact hskipped.trans (dequeue q')
    · exact hskipped

/-- The tail can stand on any node of the chain, and nothing else depends on where it does. -/
theorem exists_tail {t : NodeId} (ht : t ∈ q.chain) :
    ∃ q' : Queue α, q'.shared = { q.shared with tail := t } ∧ q.Confined q' ∧
      q'.toList = q.toList := by
  obtain ⟨behind, h⟩ := q.wellFormed
  have hchain := chain_eq h.linked
  have h' := h.setTail (hchain ▸ ht)
  let q' : Queue α := ⟨{ q.shared with tail := t }, behind, h'⟩
  have hchain' : q'.chain = q.chain := (chain_eq h'.linked).trans hchain.symm
  refine ⟨q', rfl, .of_nodes_eq rfl fun n hn => hchain' ▸ hn, ?_⟩
  rw [toList_eq h.linked]
  exact toList_eq (q := q') h'.linked

end Confined

end Queue

/-- A chain none of whose nodes has changed is still a chain, whatever else has. -/
theorem Shared.Chain.of_nodes {s : Shared α} {behind : List NodeId} {nodes : Array (Node α)}
    (h : s.Chain behind) (hsize : s.nodes.size ≤ nodes.size)
    (hkept : ∀ n ∈ s.head :: behind, nodes[n]? = s.nodes[n]?) :
    ({ s with nodes := nodes } : Shared α).Chain behind where
  path := Shared.path_congr h.path fun n hn => by simp only [Shared.next, hkept n hn]
  allocated n hn := Nat.lt_of_lt_of_le (h.allocated n hn) hsize
  occupied n hn := by
    have hoccupied := h.occupied n hn
    simpa only [Shared.item, hkept n (List.mem_cons_of_mem _ hn)] using hoccupied
  tail_mem := h.tail_mem
  count_eq := h.count_eq

end AtomicFifo

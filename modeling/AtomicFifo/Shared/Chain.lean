import AtomicFifo.Call

/-!
# Well-formed states and calls that run alone

`Shared.Chain s behind` says that the links from the head of `s` run through the sentinel and
then through the nodes `behind`, each of them with an item, and end; that the tail stands on
any one of these nodes, however far it lags; and that the counter agrees. A state is
*well formed* if it has such a chain.

A call that runs alone on a well-formed state returns, and this is where it leaves the chain:

* `Linked.perform?_enqueue`, `Chain.enqueue`   one more node at the end, and the tail on it
* `Linked.perform?_dequeue_nil`               an empty chain stays as it is
* `Linked.perform?_dequeue_cons`, `Chain.dequeue_cons`
  the first node behind the sentinel becomes the sentinel
* `Linked.perform?_isEmpty`                   nothing changes
-/

namespace AtomicFifo.Shared

universe u

variable {α : Type u} {s : Shared α} {behind : List NodeId}

/-- The links from the head run through `behind` and end, whatever the counter says. -/
structure Linked (s : Shared α) (behind : List NodeId) : Prop where
  path : Links.Path s.next (some s.head) (s.head :: behind)
  allocated : ∀ n : Nat, n ∈ s.head :: behind → n < s.nodes.size
  occupied : ∀ n ∈ behind, (s.item n).isSome
  tail_mem : s.tail ∈ s.head :: behind

/-- The links from the head run through `behind`, and the counter agrees. -/
structure Chain (s : Shared α) (behind : List NodeId) : Prop extends Linked s behind where
  count_eq : s.count = UInt64.ofNat behind.length

/-- A state that no call is in progress on, with a tail that may lag by any number of links. -/
def WellFormed (s : Shared α) : Prop :=
  ∃ behind, s.Chain behind

/-- A chain with a true counter is a chain. -/
theorem Chain.linked (h : s.Chain behind) : s.Linked behind := h.toLinked

/-- A new queue has nothing behind its sentinel. -/
theorem init_chain : (init : Shared α).Chain [] where
  path := .cons .nil
  allocated := by simp [init]
  occupied := by simp
  tail_mem := by simp [init]
  count_eq := rfl

namespace Linked

/-- No node stands on the chain twice. -/
theorem nodup (h : s.Linked behind) : (s.head :: behind).Nodup :=
  h.path.nodup

/-- The chain has no more nodes than there are. -/
theorem length_le (h : s.Linked behind) : behind.length + 1 ≤ s.nodes.size := by
  have : (s.head :: behind).length ≤ (List.range s.nodes.size).length :=
    h.nodup.length_le_of_subset fun n hn => List.mem_range.2 (h.allocated n hn)
  simpa using this

/-- Each node behind the sentinel holds one item. -/
theorem map_item (h : s.Linked behind) :
    behind.map s.item = (behind.filterMap s.item).map some := by
  rw [List.map_filterMap_some_eq_filter_map_isSome,
    List.filter_eq_self.2 (List.forall_mem_map.2 h.occupied)]

/-- A sentinel with nothing behind it has no link. -/
theorem next_head_nil (h : s.Linked []) : s.next s.head = none := by
  cases h.path with
  | cons h => generalize s.next s.head = o at h; cases h; rfl

/-- The sentinel is linked to the first node behind it. -/
theorem next_head_cons {m : NodeId} (h : s.Linked (m :: behind)) : s.next s.head = some m := by
  cases h.path with
  | cons h => generalize s.next s.head = o at h; cases h; rfl

/-- The node behind the sentinel is another one. -/
theorem head_ne {m : NodeId} (h : s.Linked (m :: behind)) : s.head ≠ m := by
  have := h.nodup
  simp at this
  exact this.1.1

/-- Whatever state the same nodes and head belong to, the chain is the same. -/
theorem of_tail {t : NodeId} (h : s.Linked behind) (ht : t ∈ s.head :: behind) :
    ({ s with tail := t } : Shared α).Linked behind :=
  { path := h.path, allocated := h.allocated, occupied := h.occupied, tail_mem := ht }

/-- The chain does not depend on the counter. -/
theorem of_count {c : Word} (h : s.Linked behind) :
    ({ s with count := c } : Shared α).Linked behind :=
  { path := h.path, allocated := h.allocated, occupied := h.occupied, tail_mem := h.tail_mem }

end Linked

/-- On a chain that is cut in two, the link of the node before the cut leads to the one behind
it. -/
theorem path_next {next : NodeId → Option NodeId} {start : Option NodeId} {l r : List NodeId}
    {a : NodeId} (h : Links.Path next start (l ++ a :: r)) : next a = r.head? := by
  cases h.suffix with
  | cons h => cases r with
    | nil => generalize next a = o at h; cases h; rfl
    | cons b r => generalize next a = o at h; cases h; rfl

/-- A path is the same for two successor functions that agree on its nodes. -/
theorem path_congr {next next' : NodeId → Option NodeId} {start : Option NodeId}
    {l : List NodeId} (h : Links.Path next start l) (heq : ∀ n ∈ l, next' n = next n) :
    Links.Path next' start l := by
  induction h with
  | nil => exact .nil
  | @cons a l _ ih =>
    refine .cons ?_
    rw [heq a (by simp)]
    exact ih fun n hn => heq n (by simp [hn])

/-- A path ends at a node without a link. -/
theorem path_getLast? {next : NodeId → Option NodeId} {start : Option NodeId} {l : List NodeId}
    {a : NodeId} (h : Links.Path next start l) (hmem : a ∈ l) (ha : next a = none) :
    l.getLast? = some a := by
  obtain ⟨l, r, rfl⟩ := List.append_of_mem hmem
  -- A node beyond this one would be its successor, and it has none.
  have hr := path_next h
  rw [ha] at hr
  obtain rfl := List.head?_eq_none_iff.1 hr.symm
  exact List.getLast?_concat

/-- A path grows by one node where its last node gets a link, and no other node does. -/
theorem path_concat {next next' : NodeId → Option NodeId} {start : Option NodeId}
    {l : List NodeId} {a b : NodeId} (h : Links.Path next start l) (hlast : l.getLast? = some a)
    (heq : ∀ n, next' n = if n = a then some b else next n) (hb : next' b = none) :
    Links.Path next' start (l ++ [b]) := by
  have hnodup := h.nodup
  -- By induction on the path; its last node stands on it once.
  induction h with
  | nil => cases hlast
  | @cons c l _ ih =>
    refine .cons ?_
    cases l with
    | nil =>
      obtain rfl : c = a := by simpa using hlast
      rw [heq c, if_pos rfl]
      refine .cons ?_
      rw [hb]
      exact .nil
    | cons d l =>
      have hlast : (d :: l).getLast? = some a := hlast
      have hne : c ≠ a := by
        rintro rfl
        exact (List.nodup_cons.1 hnodup).1 (List.mem_of_getLast? hlast)
      rw [heq c, if_neg hne]
      exact ih hlast (List.nodup_cons.1 hnodup).2

/-! ### Running a call alone -/

/-- A call that has returned stays as it is. -/
theorem runAlone_done (g : Grant) (n : Nat) (s : Shared α) (r : Reply α) :
    Call.runAlone g n s (.done r) = (s, .done r) := by
  cases n <;> rfl

/-- Helping the tail over the rest `r` of the chain and then linking behind its last node. -/
theorem runAlone_link {g : Grant} {node : NodeId} {l r : List NodeId} {t last : NodeId} {n : Nat}
    (hpath : Links.Path s.next (some s.head) (l ++ t :: r)) (htail : s.tail = t)
    (hlast : (t :: r).getLast? = some last) (hn : 3 * r.length + 4 ≤ n) :
    Call.runAlone g n s (.readTail node) =
      ({ s with
          nodes := s.nodes.modify last fun n => { n with link := some node }
          tail := node }, .done .enqueued) := by
  -- By induction on the nodes beyond the tail: each of them takes the call one round.
  induction r generalizing s l t n with
  | nil =>
    -- The tail stands on the last node: read it, read its link, link, swing the tail.
    obtain ⟨n, rfl⟩ : ∃ m, n = m + 4 := ⟨n - 4, by simp at hn; omega⟩
    have hnext := path_next hpath
    simp at hlast
    subst htail hlast
    simp [Call.runAlone, Call.step, hnext, exchangeLink, exchangeTail, runAlone_done]
  | cons m r ih =>
    -- The tail lags: three steps help it over one link.
    obtain ⟨n, rfl⟩ : ∃ k, n = k + 3 := ⟨n - 3, by simp at hn; omega⟩
    have hnext := path_next hpath
    simp at hnext
    have := @ih { s with tail := m } (l ++ [t]) m n (by simpa using hpath) rfl
      (by simpa using hlast) (by simp at hn; omega)
    subst htail
    simp [Call.runAlone, Call.step, hnext, exchangeTail, this]

/-- A chain has a last node: the sentinel, if nothing is behind it. -/
theorem exists_last (s : Shared α) (behind : List NodeId) :
    ∃ last, (s.head :: behind).getLast? = some last :=
  ⟨_, List.getLast?_eq_some_getLast (by simp)⟩

/-- What an enqueue leaves behind when it runs alone. -/
def appended (s : Shared α) (a : α) (last : NodeId) : Shared α where
  nodes := (s.nodes.push ⟨some a, none⟩).modify last fun n => { n with link := some s.nodes.size }
  head := s.head
  tail := s.nodes.size
  count := s.count + 1

/-- Appending links the last node to the new one, and changes no other link. -/
theorem next_appended {last : NodeId} (hlt : last < s.nodes.size) (a : α) (n : NodeId) :
    (s.appended a last).next n = if n = last then some s.nodes.size else s.next n := by
  have := next_modify { s with nodes := s.nodes.push ⟨some a, none⟩ } last s.nodes.size n
  rw [next_push] at this
  have hlt' : last < s.nodes.size + 1 := Nat.lt_succ_of_lt hlt
  simpa [appended, next, hlt'] using this

/-- Appending gives the new node its item and leaves the others theirs. -/
theorem item_appended (s : Shared α) (a : α) (last n : NodeId) :
    (s.appended a last).item n = if n = s.nodes.size then some a else s.item n := by
  have := item_modify { s with nodes := s.nodes.push ⟨some a, none⟩ } last s.nodes.size n
  rw [item_push] at this
  simp only [appended, item] at this ⊢
  rw [this]

/-- An enqueue that runs alone returns, and appends its item, wherever the tail stands. -/
theorem Linked.perform?_enqueue {last : NodeId} (h : s.Linked behind) (a : α)
    (hlast : (s.head :: behind).getLast? = some last) :
    s.perform? .fresh (.enqueue a) = some (s.appended a last, .enqueued) := by
  -- Cut the chain at the tail: what lies behind it is what the call has to help over.
  obtain ⟨l, r, hlr⟩ := List.append_of_mem h.tail_mem
  have hlen := h.length_le
  let s₁ : Shared α :=
    { s with nodes := s.nodes.push ⟨some a, none⟩, count := s.count + 1 }
  have hnext : ∀ n, s₁.next n = s.next n := fun n => next_push s a n
  have hpath : Links.Path s₁.next (some s₁.head) (l ++ s.tail :: r) := by
    rw [← hlr]
    exact path_congr h.path fun n _ => hnext n
  have hr : r.length ≤ behind.length := by
    have := congrArg List.length hlr
    simp at this
    omega
  have hrun := @runAlone_link α s₁ .fresh s.nodes.size l r s.tail last (3 * s.nodes.size + 7)
    hpath rfl (by rw [hlr] at hlast; simpa using hlast) (by omega)
  -- Two steps allocate and count, and the rest is the loop that links the node.
  have hsteps : Call.runAlone .fresh (3 * s.nodes.size + 10) s (.allocate a) =
      Call.runAlone .fresh (3 * s.nodes.size + 7) s₁ (.readTail s.nodes.size) := by
    simp [Call.runAlone, Call.step, place, s₁]
  simp only [perform?, Request.start, hsteps, hrun]
  rfl

/-- Without memory an enqueue returns at once and changes nothing. -/
theorem perform?_enqueue_refused (s : Shared α) (a : α) :
    s.perform? .refused (.enqueue a) = some (s, .refused a) := by
  simp [perform?, Request.start, Call.runAlone, Call.step, place, runAlone_done, Call.reply?]

/-- The node of an enqueue that ran alone is the last one of the chain. -/
theorem Chain.enqueue {last : NodeId} (h : s.Chain behind) (a : α)
    (hlast : (s.head :: behind).getLast? = some last) :
    (s.appended a last).Chain (behind ++ [s.nodes.size]) := by
  have hlt := h.allocated last (List.mem_of_getLast? hlast)
  have hnext := next_appended hlt a
  have hnone : (s.appended a last).next s.nodes.size = none := by
    rw [hnext, if_neg (Nat.ne_of_gt hlt)]
    simp [next]
  exact {
    path := path_concat h.path hlast hnext hnone
    allocated := by
      intro n hn
      have : n ∈ s.head :: behind ∨ n = s.nodes.size := by
        simpa [appended, or_assoc] using hn
      -- The places of the chain were allocated before, and the new one is the last.
      rcases this with hn | rfl
      · have := h.allocated n hn
        simp [appended]
        omega
      · simp [appended]
    occupied := by
      intro n hn
      rw [item_appended]
      split
      · rfl
      · refine h.occupied n ?_
        simp_all
    tail_mem := by
      simp [appended]
    count_eq := by
      simp [appended, h.count_eq, UInt64.ofNat_add] }

/-- A dequeue that runs alone finds nothing behind a sentinel that is alone. -/
theorem Linked.perform?_dequeue_nil (g : Grant) (h : s.Linked []) :
    s.perform? g .dequeue = some (s, .dequeued none) := by
  have hnext := h.next_head_nil
  simp [perform?, Request.start, Call.runAlone, Call.step, hnext, runAlone_done, Call.reply?]

/-- What a dequeue leaves behind when it runs alone: the head stands on the next node, and so
does a tail that stood on the head. -/
def removed (s : Shared α) (next : NodeId) : Shared α where
  nodes := s.nodes
  head := next
  tail := if s.head = s.tail then next else s.tail
  count := s.count - 1

/-- A dequeue that runs alone answers the item of the first node behind the sentinel. -/
theorem Linked.perform?_dequeue_cons {m : NodeId} (g : Grant) (h : s.Linked (m :: behind)) :
    s.perform? g .dequeue = some (s.removed m, .dequeued (s.item m)) := by
  have hnext := h.next_head_cons
  have hne := h.head_ne
  by_cases ht : s.head = s.tail
  · -- The call helps the tail off the head before it moves the head.
    have hnext' : s.next s.tail = some m := ht ▸ hnext
    have hne' : s.tail ≠ m := ht ▸ hne
    obtain ⟨nodes, head, tail, count⟩ := s
    simp only at ht
    subst ht
    simp only [next] at hnext
    simp [perform?, Request.start, Call.runAlone, Call.step, hnext, hne, exchangeTail,
      exchangeHead, removed, runAlone_done, Call.reply?, item, next]
  · -- The tail is further on already, so nothing is to be helped.
    simp [perform?, Request.start, Call.runAlone, Call.step, hnext, ht, exchangeHead, removed,
      runAlone_done, Call.reply?]

/-- The chain that a dequeue leaves begins with the node whose item it took. -/
theorem Chain.dequeue_cons {m : NodeId} (h : s.Chain (m :: behind)) :
    (s.removed m).Chain behind where
  path := by
    cases h.path with
    | cons hp =>
      rw [h.linked.next_head_cons] at hp
      exact hp
  allocated := fun n hn => h.allocated n (List.mem_cons_of_mem _ hn)
  occupied := fun n hn => h.occupied n (by simp [hn])
  tail_mem := by
    have := h.tail_mem
    simp only [removed]
    -- A tail on the old sentinel has moved along with the head.
    split
    · simp
    · simp_all [eq_comm]
  count_eq := by
    simp [removed, h.count_eq, UInt64.ofNat_add]

/-- The question for emptiness is answered by whether there is a node behind the sentinel. -/
theorem Linked.perform?_isEmpty (g : Grant) (h : s.Linked behind) :
    s.perform? g .isEmpty = some (s, .emptiness behind.isEmpty) := by
  cases behind with
  | nil =>
    simp [perform?, Request.start, Call.runAlone, Call.step, h.next_head_nil, runAlone_done,
      Call.reply?]
  | cons m behind =>
    simp [perform?, Request.start, Call.runAlone, Call.step, h.next_head_cons, runAlone_done,
      Call.reply?]

/-- The walk over a well-formed chain finds the nodes behind the sentinel. -/
theorem Linked.chain?_eq (h : s.Linked behind) : s.chain? = some (s.head :: behind) :=
  Links.path?_eq_some_iff.2 ⟨h.path, h.length_le⟩

/-- A walk over the chain counts the nodes behind the sentinel. -/
theorem Linked.nodeCount?_eq (h : s.Linked behind) : s.nodeCount? = some behind.length := by
  refine Links.count?_eq_some_iff.2 ⟨behind, ?_, rfl, ?_⟩
  · cases h.path with
    | cons hp => exact hp
  · have := h.length_le
    omega

/-- Setting the tail to any node of the chain keeps the chain. -/
theorem Chain.setTail {t : NodeId} (h : s.Chain behind) (ht : t ∈ s.head :: behind) :
    ({ s with tail := t } : Shared α).Chain behind :=
  { h.linked.of_tail ht with count_eq := h.count_eq }

end AtomicFifo.Shared

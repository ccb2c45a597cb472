import AtomicFifo.Memory
import AtomicFifo.Proofs.Memory.Footprint
import Mathlib.Algebra.Order.Ring.Nat
import Mathlib.Data.List.Basic

/-!
# Queues in one memory are lists

A list of items is all that a caller can tell of a queue: not where its tail stands, and not what
other queues there are. Whatever is called on the queues of a memory, and wherever their tails
come to stand in between, each call returns and answers what it would on the list, and the three
ways to ask for the size agree with the list afterwards.

* `Operation.onList`   what an operation does to a list
* `Shared.Holds`       a queue that cannot be told from a list
* `Memory.Untouched`   a queue that nobody has used
* `run?_refines`       the calls on a memory, and those on lists
-/

namespace AtomicFifo

universe u v

variable {α : Type u}

/-! ### Lists -/

/-- What an operation does to a list of items, the oldest first. -/
def Operation.onList : Operation α → List α → List α × Response α
  | .enqueue true item, l => (l ++ [item], .reply .enqueued)
  | .enqueue false item, l => (l, .reply (.refused item))
  | .dequeue, l => (l.tail, .reply (.dequeued l.head?))
  | .drain, l => ([], .items l)
  | .len, l => (l, .count (UInt64.ofNat l.length))
  | .isEmpty, l => (l, .reply (.emptiness l.isEmpty))
  | .nodeCount, l => (l, .nodes l.length)

/-- What calls do to lists, one call after the other, with their answers. -/
def onLists {ι : Type v} [DecidableEq ι] (lists : ι → List α) :
    List (ι × Operation α) → (ι → List α) × List (Response α)
  | [] => (lists, [])
  | (i, operation) :: calls =>
    let (l, response) := operation.onList (lists i)
    let (lists, responses) := onLists (Function.update lists i l) calls
    (lists, response :: responses)

/-- A queue that says of itself what the list does: its items, its counter, the walk over its
nodes and the question for emptiness. -/
structure Shared.Holds (s : Shared α) (l : List α) : Prop where
  items : s.items = l
  count : s.count = UInt64.ofNat l.length
  /-- The counter is exact as long as the list is no longer than it can count. -/
  len : l.length < 2 ^ 64 → s.count.toNat = l.length
  nodeCount : s.nodeCount? = some l.length
  isEmpty : s.perform? .fresh .isEmpty = some (s, .emptiness (l.length == 0))

namespace Queue

/-- The items of the shared state are those of the queue. -/
private theorem items_eq_toList (q : Queue α) : q.shared.items = q.toList := by
  rw [Shared.items, q.shared_chain?]
  rfl

/-- A queue holds the items of its list view. -/
theorem holds (q : Queue α) : q.shared.Holds q.toList := by
  obtain ⟨behind, h⟩ := q.wellFormed
  have hlen := length_toList h.linked
  exact {
    items := q.items_eq_toList
    count := q.len_eq
    len := fun hlt => by
      rw [show q.shared.count = _ from q.len_eq]
      exact UInt64.toNat_ofNat_of_lt hlt
    nodeCount := by rw [h.linked.nodeCount?_eq, hlen]
    isEmpty := by
      rw [h.linked.perform?_isEmpty, hlen]
      cases behind <;> rfl }

/-- Every operation returns, does to the queue what it does to its list, and writes to its own
nodes only. -/
private theorem exists_operate (q : Queue α) (operation : Operation α) :
    ∃ q' : Queue α,
      q.shared.operate? operation = some (q'.shared, (operation.onList q.toList).2) ∧
        q'.toList = (operation.onList q.toList).1 ∧ q.Confined q' := by
  cases operation with
  | enqueue memory item =>
    cases memory with
    | true =>
      refine ⟨q.enqueue item, ?_, q.toList_enqueue item, .enqueue q item⟩
      simp only [Shared.operate?, Grant.ofMemory, if_true, q.enqueue_shared]
      rfl
    -- A refused enqueue leaves the queue as it is.
    | false =>
      refine ⟨q, ?_, rfl, .refl q⟩
      simp only [Shared.operate?, Grant.ofMemory, Bool.false_eq_true, if_false,
        Shared.perform?_enqueue_refused]
      rfl
  | dequeue =>
    refine ⟨q.dequeue.1, ?_, q.toList_dequeue, .dequeue q⟩
    simp only [Shared.operate?, q.dequeue_shared, q.dequeue_snd]
    rfl
  | drain =>
    obtain ⟨behind, h⟩ := q.wellFormed
    -- There are fewer items than nodes, so the bound on the walk is never reached.
    have hbound : q.toList.length < q.shared.nodes.size := by
      rw [length_toList h.linked]
      exact h.linked.length_le
    refine ⟨q.drain.1, ?_, q.drain_eq.2, .drain q⟩
    simp only [Shared.operate?, drain?_eq hbound, q.drain_eq.1]
    rfl
  | len =>
    refine ⟨q, ?_, rfl, .refl q⟩
    simp only [Shared.operate?, q.holds.count, Operation.onList]
  | isEmpty =>
    refine ⟨q, ?_, rfl, .refl q⟩
    simp only [Shared.operate?, q.holds.isEmpty, Operation.onList]
    cases q.toList <;> rfl
  | nodeCount =>
    refine ⟨q, ?_, rfl, .refl q⟩
    simp only [Shared.operate?, q.holds.nodeCount, Operation.onList]
    rfl

end Queue

/-! ### Memories -/

namespace Memory

variable {ι : Type v}

/-- Every queue of the memory is well formed by itself, wherever its tail stands, and no two of
them have a node in common. -/
structure WellFormed (m : Memory ι α) : Prop where
  queue : ∀ i, (m.view i).WellFormed
  apart : ∀ {i j : ι}, i ≠ j → ∀ {l l' : List NodeId}, (m.view i).chain? = some l →
    (m.view j).chain? = some l' → ∀ n ∈ l, n ∉ l'

/-- The items of every queue. -/
def lists (m : Memory ι α) (i : ι) : List α := (m.view i).items

/-- Each queue of a well-formed memory says of itself what its list does. -/
theorem WellFormed.holds {m : Memory ι α} (h : m.WellFormed) (i : ι) :
    (m.view i).Holds (m.lists i) := by
  let q : Queue α := ⟨m.view i, h.queue i⟩
  have hlist : m.lists i = q.toList := q.items_eq_toList
  rw [hlist]
  exact q.holds

/-- A queue that is the same in two memories, down to each of its nodes. -/
structure Untouched (m m' : Memory ι α) (i : ι) : Prop where
  anchor : m'.anchors i = m.anchors i
  chain : (m'.view i).chain? = (m.view i).chain?
  nodes : ∀ {l : List NodeId}, (m.view i).chain? = some l → ∀ n ∈ l, m'.nodes[n]? = m.nodes[n]?

namespace Untouched

variable {m m' m'' : Memory ι α} {i : ι}

/-- What does nothing leaves every queue untouched. -/
theorem refl (m : Memory ι α) (i : ι) : m.Untouched m i := ⟨rfl, rfl, fun _ _ _ => rfl⟩

/-- A queue that is untouched at first and afterwards is untouched. -/
theorem trans (h : m.Untouched m' i) (h' : m'.Untouched m'' i) : m.Untouched m'' i where
  anchor := h'.anchor.trans h.anchor
  chain := h'.chain.trans h.chain
  nodes hl n hn := (h'.nodes (h.chain.trans hl) n hn).trans (h.nodes hl n hn)

/-- A queue that is untouched has its items. -/
theorem items_eq (h : m.Untouched m' i) : m'.lists i = m.lists i := by
  unfold lists Shared.items
  rw [h.chain]
  cases hl : (m.view i).chain? with
  | none => rfl
  | some l =>
    refine List.filterMap_congr fun n hn => ?_
    have hnode : m'.nodes[n]? = m.nodes[n]? := h.nodes hl n (List.mem_of_mem_tail hn)
    simp only [Shared.item, view, hnode]

end Untouched

variable [DecidableEq ι] {m : Memory ι α} {i j : ι} {q q' : Queue α}

/-- A change that is confined to one queue leaves every other queue alone, and the chain of the
one that has changed still keeps clear of that of the other. -/
private theorem WellFormed.beside (h : m.WellFormed) (hq : q.shared = m.view i)
    (hconfined : q.Confined q') (hj : j ≠ i) :
    m.Untouched (m.update i q'.shared) j ∧ ((m.update i q'.shared).view j).WellFormed ∧
      ∀ {l : List NodeId}, (m.view j).chain? = some l → ∀ n ∈ l, n ∉ q'.chain := by
  obtain ⟨behind, hb⟩ := h.queue j
  have hchain := hb.linked.chain?_eq
  have hchain_q : (m.view i).chain? = some q.chain := hq ▸ q.shared_chain?
  have hnodes : q.shared.nodes = m.nodes := by rw [hq]; rfl
  obtain ⟨hsize, hkept, hown⟩ := hconfined
  rw [hnodes] at hsize hkept hown
  have hclear : ∀ n ∈ (m.view j).head :: behind, n < m.nodes.size ∧ n ∉ q.chain :=
    fun n hn => ⟨hb.allocated n hn, h.apart hj hchain hchain_q n hn⟩
  have hsame : ∀ n ∈ (m.view j).head :: behind, q'.shared.nodes[n]? = m.nodes[n]? :=
    fun n hn => hkept n (hclear n hn).1 (hclear n hn).2
  have hb' := hb.of_nodes hsize hsame
  refine ⟨⟨by simp [Memory.update, hj], ?_, fun hl n hn => ?_⟩, ?_, fun hl n hn hmem => ?_⟩
  · rw [view_update_ne m hj, hb'.linked.chain?_eq, hchain]
  · rw [hchain, Option.some.injEq] at hl
    exact hsame n (hl ▸ hn)
  · rw [view_update_ne m hj]
    exact ⟨behind, hb'⟩
  · -- The chain of the changed queue has nodes that it had before, and new ones.
    rw [hchain, Option.some.injEq] at hl
    obtain ⟨hlt, hnot⟩ := hclear n (hl ▸ hn)
    rcases hown n hmem with hmem | hle
    · exact hnot hmem
    · exact absurd hlt (Nat.not_lt.2 hle)

/-- A change that is confined to one queue keeps the memory well formed. -/
theorem WellFormed.update (h : m.WellFormed) (hq : q.shared = m.view i)
    (hconfined : q.Confined q') : (m.update i q'.shared).WellFormed where
  queue j := by
    -- Only one queue changes; the nodes of the others are none of its own.
    by_cases hj : j = i
    · subst hj
      rw [view_update_self]
      exact q'.wellFormed
    · exact (h.beside hq hconfined hj).2.1
  apart {j k} hjk l l' hl hl' n hn hn' := by
    have hchain : ((m.update i q'.shared).view i).chain? = some q'.chain := by
      rw [view_update_self, q'.shared_chain?]
    -- Of two queues one at most is the one that has changed.
    by_cases hj : j = i
    · subst hj
      obtain ⟨huntouched, -, hclear⟩ := h.beside hq hconfined hjk.symm
      rw [hchain, Option.some.injEq] at hl
      exact hclear (huntouched.chain.symm.trans hl') n hn' (hl ▸ hn)
    · obtain ⟨huntouched, -, hclear⟩ := h.beside hq hconfined hj
      have hl_old := huntouched.chain.symm.trans hl
      by_cases hk : k = i
      · subst hk
        rw [hchain, Option.some.injEq] at hl'
        exact hclear hl_old n hn (hl' ▸ hn')
      · have huntouched' := (h.beside hq hconfined hk).1
        exact h.apart hjk hl_old (huntouched'.chain.symm.trans hl') n hn hn'

/-- The items of the queues after a change that is confined to one of them. -/
private theorem WellFormed.lists_update (h : m.WellFormed) (hq : q.shared = m.view i)
    (hconfined : q.Confined q') :
    (m.update i q'.shared).lists = Function.update m.lists i q'.toList := by
  funext j
  by_cases hj : j = i
  · subst hj
    rw [Function.update_self, lists, view_update_self, q'.items_eq_toList]
  · rw [Function.update_of_ne hj]
    exact (h.beside hq hconfined hj).1.items_eq

/-! ### Calls -/

/-- A call on a queue of a well-formed memory. -/
private theorem WellFormed.exists_call (h : m.WellFormed) (i : ι) (operation : Operation α) :
    ∃ m', m.step? (.call i operation) =
        some (m', some (operation.onList (m.lists i)).2) ∧ m'.WellFormed ∧
      m'.lists = Function.update m.lists i (operation.onList (m.lists i)).1 ∧
      ∀ j ≠ i, m.Untouched m' j := by
  let q : Queue α := ⟨m.view i, h.queue i⟩
  have hlist : m.lists i = q.toList := q.items_eq_toList
  obtain ⟨q', hoperate, hlist', hconfined⟩ := q.exists_operate operation
  refine ⟨m.update i q'.shared, ?_, h.update rfl hconfined, ?_,
    fun j hj => (h.beside rfl hconfined hj).1⟩
  · rw [step?, hlist]
    show Option.map _ (q.shared.operate? operation) = _
    rw [hoperate]
    rfl
  · rw [h.lists_update rfl hconfined, hlist', hlist]

/-- A tail of a well-formed memory may be set to any node of its chain. -/
private theorem WellFormed.exists_setTail (h : m.WellFormed) (i : ι) (pos : Nat) :
    ∃ m', m.step? (.setTail i pos) = some (m', none) ∧ m'.WellFormed ∧ m'.lists = m.lists ∧
      ∀ j ≠ i, m.Untouched m' j := by
  let q : Queue α := ⟨m.view i, h.queue i⟩
  have hlist : m.lists i = q.toList := q.items_eq_toList
  simp only [step?]
  cases hnode : (m.view i).chain?.bind (·[pos]?) with
  | none => exact ⟨m, rfl, h, rfl, fun j _ => .refl m j⟩
  | some node =>
    have hmem : node ∈ q.chain := by
      rw [show (m.view i).chain? = _ from q.shared_chain?] at hnode
      exact List.mem_of_getElem? hnode
    obtain ⟨q', hshared, hconfined, hlist'⟩ := Queue.Confined.exists_tail hmem
    refine ⟨m.update i q'.shared, by rw [hshared], h.update rfl hconfined, ?_,
      fun j hj => (h.beside rfl hconfined hj).1⟩
    rw [h.lists_update rfl hconfined, hlist', ← hlist, Function.update_eq_self]

/-- One act on a well-formed memory, whatever calls are made afterwards. -/
private theorem WellFormed.exists_step (h : m.WellFormed) (act : Act ι α) :
    ∃ m' response, m.step? act = some (m', response) ∧ m'.WellFormed ∧
      (∀ calls, onLists m.lists (act.call?.toList ++ calls) =
        ((onLists m'.lists calls).1, response.toList ++ (onLists m'.lists calls).2)) ∧
      ∀ j ≠ act.queue, m.Untouched m' j := by
  cases act with
  | call i operation =>
    obtain ⟨m', hstep, h', hlists, hothers⟩ := h.exists_call i operation
    refine ⟨m', _, hstep, h', fun calls => ?_, hothers⟩
    rw [hlists]
    rfl
  | setTail i pos =>
    obtain ⟨m', hstep, h', hlists, hothers⟩ := h.exists_setTail i pos
    refine ⟨m', _, hstep, h', fun calls => ?_, hothers⟩
    rw [hlists]
    rfl

/-- Any calls on the queues of a well-formed memory, however many queues there are and wherever
their tails stand, and with tails set to other nodes of their chains in between. Every call
returns; the answers are those of the calls on lists, which know of no tail; the memory is well
formed afterwards, and each of its queues says of itself what its list does; and a queue that
nothing was done to is untouched. -/
theorem run?_refines (m : Memory ι α) (acts : List (Act ι α)) (h : m.WellFormed) :
    let model := onLists m.lists (acts.filterMap Act.call?)
    ∃ m', m.run? acts = some (m', model.2) ∧ m'.WellFormed ∧
      (∀ i, (m'.view i).Holds (model.1 i)) ∧
      ∀ i, (∀ act ∈ acts, act.queue ≠ i) → m.Untouched m' i := by
  -- By induction on the acts; a tail that moves changes no list.
  induction acts generalizing m with
  | nil => exact ⟨m, rfl, h, h.holds, fun i _ => .refl m i⟩
  | cons act acts ih =>
    obtain ⟨m₁, response, hstep, h₁, hlists, hothers⟩ := h.exists_step act
    obtain ⟨m', hrun, h', hholds, huntouched⟩ := ih m₁ h₁
    have hcalls : (act :: acts).filterMap Act.call? =
        act.call?.toList ++ acts.filterMap Act.call? := by
      cases act <;> rfl
    rw [hcalls, hlists]
    refine ⟨m', ?_, h', hholds, fun i hi => ?_⟩
    · rw [run?, hstep]
      simp only [hrun, Option.map_some]
    · have hne : act.queue ≠ i := hi act (List.mem_cons_self ..)
      exact (hothers i hne.symm).trans
        (huntouched i fun act hact => hi act (List.mem_cons_of_mem _ hact))

/-- Two queues with their nodes mixed. The first has two items and its tail on the sentinel; the
second has one, and its tail is set back between two enqueues. -/
theorem run?_refines_lagging :
    let m : Memory Bool Word :=
      ⟨#[⟨none, some 2⟩, ⟨none, some 4⟩, ⟨some 10, some 3⟩, ⟨some 20, none⟩, ⟨some 30, none⟩],
        fun second => if second then ⟨1, 4, 1⟩ else ⟨0, 0, 2⟩⟩
    let acts : List (Act Bool Word) :=
      [.call false .dequeue, .call true (.enqueue true 40), .setTail true 0,
        .call true (.enqueue true 50), .call false .drain, .call false .isEmpty,
        .call false .dequeue, .call true .len, .call true .nodeCount]
    m.WellFormed ∧ ∃ m', m.run? acts =
      some (m', [.reply (.dequeued (some 10)), .reply .enqueued, .reply .enqueued, .items [20],
        .reply (.emptiness true), .reply (.dequeued none), .count 3, .nodes 3]) := by
  intro m acts
  -- Two queues with nodes in turn, the tail of the first one on its sentinel.
  have hfirst : (m.view false).Chain [2, 3] :=
    ⟨⟨(Links.path?_eq_some_iff.1 (by decide : Links.path? (m.view false).next 3 (some 0) = _)).1,
      by decide, by decide, by decide⟩, by decide⟩
  have hsecond : (m.view true).Chain [4] :=
    ⟨⟨(Links.path?_eq_some_iff.1 (by decide : Links.path? (m.view true).next 2 (some 1) = _)).1,
      by decide, by decide, by decide⟩, by decide⟩
  have hwf : m.WellFormed := by
    refine ⟨fun i => ?_, fun {i j} hij l l' hl hl' => ?_⟩
    · cases i
      · exact ⟨_, hfirst⟩
      · exact ⟨_, hsecond⟩
    · cases i <;> cases j
      · exact absurd rfl hij
      · cases hfirst.linked.chain?_eq.symm.trans hl
        cases hsecond.linked.chain?_eq.symm.trans hl'
        decide
      · cases hsecond.linked.chain?_eq.symm.trans hl
        cases hfirst.linked.chain?_eq.symm.trans hl'
        decide
      · exact absurd rfl hij
  obtain ⟨m', hrun, -⟩ := run?_refines m acts hwf
  have hmodel : (onLists m.lists (acts.filterMap Act.call?)).2 =
      [.reply (.dequeued (some 10)), .reply .enqueued, .reply .enqueued, .items [20],
        .reply (.emptiness true), .reply (.dequeued none), .count 3, .nodes 3] := by
    decide +kernel
  exact ⟨hwf, m', hmodel ▸ hrun⟩

end Memory

end AtomicFifo

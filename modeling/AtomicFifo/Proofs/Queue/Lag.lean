import AtomicFifo.Proofs.Call.Promotion
import AtomicFifo.Proofs.Queue.Turnover

/-!
# A tail that lags

The tail of a queue may stand on any node of the chain, and each operation helps it in its own
way. An enqueue helps it link by link to the last node, and leaves it on the new one. A dequeue
helps it over one link, and only where it would otherwise leave the tail behind; else the tail
comes one link closer to the sentinel because the sentinel moves. So no operation goes round
its loop more often than the tail lags, and the tail never leaves the chain.

* `Call.course`, `Effort`   the iterations and the exchanges of a call that runs by itself
* `effort_enqueue`, `effort_dequeue`   what a call costs at a given lag
* `lag_enqueue`, `lag_dequeue`, `tail_drain`, `lag_setTail?`   where an operation leaves the tail
* `lag_run`                 all of this, after any operations in any order
-/

namespace AtomicFifo

universe u

variable {α : Type u}

/-! ### The course of a call -/

namespace Call

/-- The points that a call comes to while it runs by itself, each with the state that it finds
there, for at most so many steps. -/
def course (grant : Grant) : Nat → Shared α → Call α → List (Shared α × Call α)
  | 0, _, _ => []
  | _ + 1, _, .done _ => []
  | n + 1, s, c =>
    let (s', c') := c.step grant s
    (s, c) :: course grant n s' c'

/-- Whether a step ends an iteration that has moved the tail and starts over. -/
@[simp] def helps (grant : Grant) (s : Shared α) (c : Call α) : Bool :=
  c.retries grant s && (c.promotes? s).isSome

/-- Whether a step links the node of the call. -/
@[simp] def links (s : Shared α) (c : Call α) : Bool :=
  ((c.promotes? s).bind Promotion.linked?).isSome

end Call

/-- What a call that runs by itself does in its loop. -/
structure Effort where
  /-- The iterations that it begins. -/
  iterations : Nat
  /-- Those of them that help the tail and start over. -/
  helping : Nat
  /-- Those of them that link a node. -/
  linking : Nat
  /-- The exchanges that succeed, in their order. -/
  promotions : List Promotion
  deriving DecidableEq, Repr

namespace Effort

/-- One after the other. -/
@[simp] def append (e e' : Effort) : Effort where
  iterations := e.iterations + e'.iterations
  helping := e.helping + e'.helping
  linking := e.linking + e'.linking
  promotions := e.promotions ++ e'.promotions

end Effort

/-- What is done at one point of a call. -/
@[simp] def Call.effort (grant : Grant) (s : Shared α) (c : Call α) : Effort where
  iterations := c.opensLoop.toNat
  helping := (c.helps grant s).toNat
  linking := (c.links s).toNat
  promotions := (c.promotes? s).toList

/-- What is done at the points of a course. -/
@[simp] def Effort.ofCourse (grant : Grant) : List (Shared α × Call α) → Effort
  | [] => ⟨0, 0, 0, []⟩
  | (s, c) :: course => (c.effort grant s).append (ofCourse grant course)

namespace Shared

/-- The course of a request while nobody else uses the queue. -/
def course (s : Shared α) (grant : Grant) (r : Request α) : List (Shared α × Call α) :=
  r.start.course grant (3 * s.nodes.size + 10) s

/-- What a request costs while nobody else uses the queue. -/
def effort (s : Shared α) (grant : Grant) (r : Request α) : Effort :=
  .ofCourse grant (s.course grant r)

/-- Whether the tail is on the chain that begins at the head: the head has not passed it. -/
def TailAhead (s : Shared α) : Prop :=
  ∃ chain, s.chain? = some chain ∧ s.tail ∈ chain

variable {s : Shared α} {behind : List NodeId}

/-- On a chain the tail is not behind the head. -/
private theorem Linked.tailAhead (h : s.Linked behind) : s.TailAhead :=
  ⟨_, h.chain?_eq, h.tail_mem⟩

/-! ### What a call costs -/

/-- A call that has returned makes no steps. -/
private theorem course_done (g : Grant) (n : Nat) (s : Shared α) (r : Reply α) :
    Call.course g n s (.done r) = [] := by
  cases n <;> rfl

/-- An enqueue that has its node helps the tail over the rest `r` of the chain, one link in each
iteration, and links its node in one iteration more. -/
private theorem effort_link {g : Grant} {node : NodeId} {l r : List NodeId} {t : NodeId} {n : Nat}
    (hpath : Links.Path s.next (some s.head) (l ++ t :: r)) (htail : s.tail = t)
    (hn : 3 * r.length + 4 ≤ n) :
    Effort.ofCourse g (Call.course g n s (.readTail node)) =
      ⟨r.length + 1, r.length, 1, r.map .tail ++ [.linked node, .tail node]⟩ := by
  induction r generalizing s l t n with
  | nil =>
    -- The tail stands on the last node: read it, read its link, link, swing the tail.
    obtain ⟨n, rfl⟩ : ∃ m, n = m + 4 := ⟨n - 4, by simp at hn; omega⟩
    have hnext := path_next hpath
    subst htail
    simp [Call.course, Call.step, hnext, exchangeLink, exchangeTail, course_done, Call.opensLoop,
      Call.retries, Call.looping, Call.promotes?, Promotion.linked?]
  | cons m r ih =>
    -- The tail lags: three steps help it over one link.
    obtain ⟨n, rfl⟩ : ∃ k, n = k + 3 := ⟨n - 3, by simp at hn; omega⟩
    have hnext := path_next hpath
    simp at hnext
    have hrest := @ih { s with tail := m } (l ++ [t]) m n (by simpa using hpath) rfl
      (by simp at hn; omega)
    subst htail
    simp [Call.course, Call.step, hnext, exchangeTail, hrest, Call.opensLoop, Call.retries,
      Call.looping, Call.promotes?, Promotion.linked?]
    omega

/-- An enqueue helps over what lies behind the tail. -/
theorem Linked.effort_enqueue {l r : List NodeId} (h : s.Linked behind)
    (hlr : s.head :: behind = l ++ s.tail :: r) (a : α) :
    s.effort .fresh (.enqueue a) =
      ⟨r.length + 1, r.length, 1,
        r.map .tail ++ [.linked s.nodes.size, .tail s.nodes.size]⟩ := by
  have hlen := h.length_le
  have hr : r.length ≤ behind.length := by
    have := congrArg List.length hlr
    simp at this
    omega
  -- Three steps lead to the loop; the nodes that were there keep their links.
  let s₁ : Shared α :=
    { s with nodes := s.nodes.push ⟨some a, none⟩, count := s.count + 1 }
  have hpath : Links.Path s₁.next (some s₁.head) (l ++ s.tail :: r) := by
    rw [← hlr]
    exact path_congr h.path fun n _ => next_push s a n
  have hloop := @effort_link α s₁ .fresh s.nodes.size l r s.tail (3 * s.nodes.size + 7) hpath rfl
    (by omega)
  simp only [effort, course, Request.start, Call.course, Call.step, place, Effort.ofCourse, s₁]
    at hloop ⊢
  rw [hloop]
  simp [Call.opensLoop, Call.retries, Call.looping, Call.promotes?]

/-- A dequeue that finds nothing goes through its loop once. -/
private theorem Linked.effort_dequeue_nil (h : s.Linked []) :
    s.effort .fresh .dequeue = ⟨1, 0, 0, []⟩ := by
  have hnext := h.next_head_nil
  simp [effort, course, Request.start, Call.course, Call.step, hnext, Call.opensLoop, Call.retries,
    Call.looping, Call.promotes?, course_done]

/-- The points of an iteration in which a dequeue moves the tail onto `m`. -/
def helpingHead (s : Shared α) (m : NodeId) : List (Shared α × Call α) :=
  [(s, .readHead), (s, .readHeadTail s.head), (s, .readHeadLink s.head s.tail),
    (s, .helpHead s.head m)]

/-- The points from the iteration in which a dequeue moves the head onto `m`. -/
def unlinking (s : Shared α) (m : NodeId) : List (Shared α × Call α) :=
  [(s, .readHead), (s, .readHeadTail s.head), (s, .readHeadLink s.head s.tail),
    (s, .unlink s.head m), ({ s with head := m }, .takeItem s.head m),
    ({ s with head := m }, .discount (s.item m))]

/-- Where the tail does not stand on the head, a dequeue leaves it alone. -/
private theorem course_unlinking {g : Grant} {m : NodeId} {n : Nat} (hnext : s.next s.head = some m)
    (ht : s.head ≠ s.tail) : Call.course g (n + 6) s .readHead = s.unlinking m := by
  simp [Call.course, Call.step, hnext, ht, exchangeHead, unlinking, course_done]

/-- A dequeue that finds the node `m` behind the sentinel helps the tail over one link if the
tail stands on the head. -/
private theorem Linked.course_dequeue {m : NodeId} (h : s.Linked (m :: behind)) :
    s.course .fresh .dequeue =
      if s.head = s.tail then s.helpingHead m ++ ({ s with tail := m } : Shared α).unlinking m
      else s.unlinking m := by
  have hnext := h.next_head_cons
  split
  · rename_i ht
    have hrest := @course_unlinking α { s with tail := m } .fresh m (3 * s.nodes.size) hnext
      h.head_ne
    simp [course, Request.start, Call.course, Call.step, helpingHead, hnext, ht.symm, exchangeTail,
      ← hrest]
  · rename_i ht
    exact course_unlinking (n := 3 * s.nodes.size + 4) hnext ht

/-- Moving the head takes one round and one exchange. -/
private theorem effort_unlinking (g : Grant) (s : Shared α) (m : NodeId) :
    Effort.ofCourse g (s.unlinking m) = ⟨1, 0, 0, [.head m]⟩ := by
  simp [unlinking, exchangeHead, Call.opensLoop, Call.retries, Call.looping, Call.promotes?,
    Call.step, Promotion.linked?]

/-- What a dequeue costs that finds the node `m` behind the sentinel. -/
private theorem Linked.effort_dequeue_cons {m : NodeId} (h : s.Linked (m :: behind)) :
    s.effort .fresh .dequeue =
      if s.head = s.tail then ⟨2, 1, 0, [.tail m, .head m]⟩ else ⟨1, 0, 0, [.head m]⟩ := by
  rw [effort, h.course_dequeue]
  split
  · rename_i ht
    simp [helpingHead, effort_unlinking, ht.symm, exchangeTail, Call.opensLoop, Call.retries,
      Call.looping, Call.promotes?, Call.step, Promotion.linked?]
  · exact effort_unlinking _ s m

/-! ### The head does not pass the tail -/

/-- While a dequeue runs alone, the tail never falls behind the head. -/
private theorem Chain.tailAhead_dequeue (h : s.Chain behind) :
    ∀ x ∈ s.course .fresh .dequeue, x.1.TailAhead := by
  have hstart := h.linked.tailAhead
  cases behind with
  | nil =>
    have hnext := h.linked.next_head_nil
    simp [course, Request.start, Call.course, Call.step, hnext, course_done, hstart]
  | cons m behind =>
    -- Where the head moves onto `m` the tail does not stand on the old head.
    have hunlinking : ∀ s : Shared α, s.Chain (m :: behind) → s.head ≠ s.tail →
        ∀ x ∈ s.unlinking m, x.1.TailAhead := by
      intro s h ht
      have hbefore := h.linked.tailAhead
      have hafter := (h.dequeue_cons.linked.of_count (c := s.count)).tailAhead
      simp only [removed, if_neg ht] at hafter
      simp [unlinking, hbefore, hafter]
    rw [h.linked.course_dequeue]
    split
    · intro x hx
      rcases List.mem_append.1 hx with hx | hx
      · simp only [helpingHead, List.mem_cons, List.not_mem_nil, or_false] at hx
        rcases hx with rfl | rfl | rfl | rfl <;> exact hstart
      · exact hunlinking _ (h.setTail (by simp)) h.linked.head_ne x hx
    · rename_i ht
      exact hunlinking s h ht

end Shared

/-! ### Where the operations leave the tail -/

/-- The number of items, and the number of links from the sentinel to the tail. -/
structure Lag where
  items : Nat
  tail : Nat
  deriving DecidableEq, Repr

/-- What is done to a queue between two moments at which nobody uses it. -/
inductive Queue.Turn (α : Type u)
  /-- Enqueue an item, with or without memory for its node. -/
  | enqueue (memory : Bool) (item : α)
  | dequeue
  /-- Drain all items. -/
  | drain
  /-- Set the tail so many links behind the sentinel, if the chain has a node there. -/
  | setTail (pos : Nat)

/-- Where a turn leaves the tail. -/
def Lag.after (l : Lag) : Queue.Turn α → Lag
  | .enqueue true _ => ⟨l.items + 1, l.items + 1⟩
  | .enqueue false _ => l
  | .dequeue => ⟨l.items - 1, l.tail - 1⟩
  | .drain => ⟨0, 0⟩
  | .setTail pos => if pos ≤ l.items then { l with tail := pos } else l

namespace Queue

variable {q q' : Queue α}

/-- How far the tail of a queue lags. -/
def lag (q : Queue α) : Lag := ⟨q.toList.length, q.tailPos⟩

/-- Takes a turn. -/
def turn (q : Queue α) : Turn α → Queue α
  | .enqueue memory item => (q.enqueue? memory item).1
  | .dequeue => q.dequeue.1
  | .drain => q.drain.1
  | .setTail pos => (q.setTail? pos).getD q

/-- The chain has the sentinel and a node for each item. -/
private theorem length_chain (q : Queue α) : q.chain.length = q.toList.length + 1 := by
  obtain ⟨behind, h⟩ := q.wellFormed
  rw [chain_eq h.linked, length_toList h.linked, List.length_cons]

/-- No node stands on the chain twice. -/
private theorem nodup_chain (q : Queue α) : q.chain.Nodup := by
  obtain ⟨behind, h⟩ := q.wellFormed
  rw [chain_eq h.linked]
  exact h.linked.nodup

/-- The tail stands on the chain. -/
private theorem tail_mem_chain (q : Queue α) : q.shared.tail ∈ q.chain := by
  obtain ⟨behind, h⟩ := q.wellFormed
  rw [chain_eq h.linked]
  exact h.linked.tail_mem

/-- The position of the tail is one of the chain. -/
private theorem tailPos_lt (q : Queue α) : q.tailPos < q.chain.length :=
  List.idxOf_lt_length_of_mem q.tail_mem_chain

/-- The tail stands no further behind the sentinel than there are items. -/
private theorem tailPos_le (q : Queue α) : q.tailPos ≤ q.toList.length := by
  have h := q.tailPos_lt
  rw [length_chain] at h
  omega

/-- The tail stands where its position says. -/
private theorem getElem?_tailPos (q : Queue α) : q.chain[q.tailPos]? = some q.shared.tail :=
  List.getElem?_eq_some_iff.2 ⟨q.tailPos_lt, List.getElem_idxOf q.tailPos_lt⟩

/-- The chain cut at the tail. -/
private theorem chain_split (q : Queue α) :
    q.chain = q.chain.take q.tailPos ++ q.shared.tail :: q.chain.drop (q.tailPos + 1) := by
  obtain ⟨hlt, htail⟩ := List.getElem?_eq_some_iff.1 q.getElem?_tailPos
  rw [← htail, List.getElem_cons_drop, List.take_append_drop]

/-- An enqueue leaves the tail on its own node, the last one. -/
private theorem tail_enqueue (q : Queue α) (a : α) :
    (q.enqueue a).shared.tail = q.shared.nodes.size ∧
      (q.enqueue a).tailPos = q.toList.length + 1 := by
  obtain ⟨behind, last, h, -, hshared, -⟩ := q.exists_enqueue a
  have htail : (q.enqueue a).shared.tail = q.shared.nodes.size := by
    rw [hshared]
    rfl
  have hnew : q.shared.nodes.size ∉ q.chain := by
    rw [chain_eq h.linked]
    exact fun hmem => Nat.lt_irrefl _ (h.allocated _ hmem)
  apply And.intro htail
  rw [tailPos, htail, (q.chain_enqueue a).1, List.idxOf_append_of_notMem hnew, length_chain]
  simp

/-- After an enqueue the tail stands on the last node. -/
theorem lag_enqueue (q : Queue α) (a : α) :
    (q.enqueue a).lag = ⟨q.toList.length + 1, q.toList.length + 1⟩ := by
  simp [lag, (q.tail_enqueue a).2]

/-- A dequeue that finds an item brings the tail one link closer, down to the sentinel. -/
theorem lag_dequeue (q : Queue α) :
    q.dequeue.1.lag = ⟨q.toList.length - 1, q.tailPos - 1⟩ := by
  simp only [lag, toList_dequeue, List.length_tail, Lag.mk.injEq, true_and]
  obtain ⟨h, hsame⟩ | ⟨m, behind, h, hshared, h', -⟩ := q.dequeue_cases
  · -- There is no position but that of the sentinel.
    have hnil : q.toList = [] := toList_eq h.linked
    have hnone := q.tailPos_le
    rw [hnil, List.length_nil] at hnone
    rw [hsame]
    show q.tailPos = q.tailPos - 1
    omega
  · rw [tailPos, tailPos, chain_eq h'.linked, chain_eq h.linked, hshared]
    -- A tail on the sentinel moves on with it, and any other one comes a node closer.
    by_cases ht : q.shared.head = q.shared.tail
    · simp [Shared.removed, ht]
    · simp [Shared.removed, ht, List.idxOf_cons_ne]

/-- A drain leaves the tail on the sentinel. -/
theorem tail_drain (q : Queue α) :
    q.drain.1.lag = ⟨0, 0⟩ ∧ q.drain.1.shared.tail = q.drain.1.shared.head := by
  obtain ⟨-, hnil⟩ := q.drain_eq
  obtain ⟨behind, h⟩ := q.drain.1.wellFormed
  have hlen := length_toList h.linked
  have hpos := q.drain.1.tailPos_le
  have hmem := h.linked.tail_mem
  simp only [hnil, List.length_nil, Nat.le_zero_eq] at hlen hpos
  rw [List.eq_nil_of_length_eq_zero hlen.symm, List.mem_singleton] at hmem
  exact ⟨by rw [lag, hnil, hpos]; rfl, hmem⟩

/-- Setting the tail changes nothing else. -/
theorem lag_setTail? {pos : Nat} (h : q.setTail? pos = some q') :
    q'.chain = q.chain ∧ q'.lag = ⟨q.toList.length, pos⟩ := by
  have hlist := toList_setTail? h
  unfold setTail? at h
  split at h
  · cases h
  · rename_i t ht
    have hshared : q'.shared = { q.shared with tail := t } := by
      cases h
      rfl
    obtain ⟨behind, hc⟩ := q.wellFormed
    have hlinked : q'.shared.Linked behind := by
      rw [hshared]
      exact hc.linked.of_tail (chain_eq hc.linked ▸ List.mem_of_getElem? ht)
    have hchain : q'.chain = q.chain := by
      rw [chain_eq hlinked, chain_eq hc.linked, hshared]
    -- No node stands on the chain twice, so the new tail has one position.
    have hpos : q'.tailPos = pos := by
      obtain ⟨hlt, hat⟩ := List.getElem?_eq_some_iff.1 ht
      rw [tailPos, hchain, hshared, ← hat]
      exact q.nodup_chain.idxOf_getElem pos hlt
    exact ⟨hchain, by rw [lag, hlist, hpos]⟩

/-- The tail can be set to every node of the chain. -/
private theorem isSome_setTail? (q : Queue α) (pos : Nat) :
    (q.setTail? pos).isSome = decide (pos ≤ q.toList.length) := by
  have hlen := q.length_chain
  unfold setTail?
  split
  · rename_i hnone
    rw [List.getElem?_eq_none_iff, hlen] at hnone
    simp
    omega
  · rename_i t ht
    obtain ⟨hlt, -⟩ := List.getElem?_eq_some_iff.1 ht
    simp
    omega

/-! ### What the operations cost -/

/-- An enqueue helps the tail over each node beyond it, links its own, and moves the tail to it. -/
theorem effort_enqueue (q : Queue α) (a : α) :
    q.shared.effort .fresh (.enqueue a) =
      ⟨q.toList.length - q.tailPos + 1, q.toList.length - q.tailPos, 1,
        (q.chain.drop (q.tailPos + 1)).map .tail ++
          [.linked q.shared.nodes.size, .tail q.shared.nodes.size]⟩ := by
  obtain ⟨behind, h⟩ := q.wellFormed
  have hsplit := q.chain_split
  rw [chain_eq h.linked] at hsplit
  -- As many nodes are beyond the tail as items behind its position.
  have hlen : (q.chain.drop (q.tailPos + 1)).length = q.toList.length - q.tailPos := by
    rw [List.length_drop, length_chain]
    omega
  rw [← hlen, chain_eq h.linked]
  exact h.linked.effort_enqueue hsplit a

/-- A dequeue helps the tail only off the sentinel, and only if an item is behind it. -/
theorem effort_dequeue (q : Queue α) :
    q.shared.effort .fresh .dequeue =
      if q.toList = [] then ⟨1, 0, 0, []⟩
      else if q.tailPos = 0 then
        ⟨2, 1, 0, [.tail q.dequeue.1.shared.head, .head q.dequeue.1.shared.head]⟩
      else ⟨1, 0, 0, [.head q.dequeue.1.shared.head]⟩ := by
  obtain ⟨h, -⟩ | ⟨m, behind, h, hshared, -⟩ := q.dequeue_cases
  · have hnil : q.toList = [] := toList_eq h.linked
    rw [if_pos hnil]
    exact h.linked.effort_dequeue_nil
  · have hne : q.toList ≠ [] := by
      intro hnil
      have hlen := length_toList h.linked
      rw [hnil] at hlen
      cases hlen
    have hhead : q.dequeue.1.shared.head = m := by
      rw [hshared]
      rfl
    -- The tail has no lag to the sentinel just where it stands on it.
    have hpos : q.tailPos = 0 ↔ q.shared.head = q.shared.tail := by
      rw [tailPos, chain_eq h.linked]
      by_cases ht : q.shared.head = q.shared.tail
      · simp [ht]
      · simp [ht, List.idxOf_cons_ne]
    rw [if_neg hne, hhead, h.linked.effort_dequeue_cons]
    simp only [hpos]

/-! ### Any number of turns -/

/-- Where the tail stands after a turn depends only on where it stood, and on the number of
items. -/
private theorem lag_turn (q : Queue α) (t : Turn α) : (q.turn t).lag = q.lag.after t := by
  cases t with
  | enqueue memory item =>
    cases memory with
    | false => rw [turn, enqueue?_false]; rfl
    | true => exact q.lag_enqueue item
  | dequeue => exact q.lag_dequeue
  | drain => exact q.tail_drain.1
  | setTail pos =>
    have hsome := q.isSome_setTail? pos
    -- A position beyond the chain leaves the tail where it is.
    cases hset : q.setTail? pos with
    | none =>
      simp only [hset, Option.isSome_none, false_eq_decide_iff] at hsome
      simp [turn, hset, Lag.after, lag, hsome]
    | some q' =>
      simp only [hset, Option.isSome_some, true_eq_decide_iff] at hsome
      rw [turn, hset, Option.getD_some, (lag_setTail? hset).2]
      simp [Lag.after, lag, hsome]

/-- The lag after some turns depends on the lag before them alone. -/
private theorem lag_turns (q : Queue α) (turns : List (Turn α)) :
    (turns.foldl turn q).lag = turns.foldl Lag.after q.lag := by
  induction turns generalizing q with
  | nil => rfl
  | cons t turns ih =>
    rw [List.foldl_cons, List.foldl_cons, ih, lag_turn]

/-- What the operations cost on a queue of `n` items whose tail stands `k` links behind the
sentinel, and where they leave the tail. -/
structure Travels (q : Queue α) (n k : Nat) : Prop where
  nodeCount_eq : q.nodeCount = n
  tail_at : q.chain[k]? = some q.shared.tail
  le : k ≤ n
  /-- The tail of the same chain may as well stand anywhere else. -/
  setTail : ∀ pos ≤ n, ∃ q', q.setTail? pos = some q' ∧ q'.chain = q.chain ∧ q'.lag = ⟨n, pos⟩
  /-- An enqueue returns. It helps over all links behind the tail, links in one iteration more, and
  leaves the tail on the new last node. -/
  enqueue : ∀ a,
    q.shared.perform? .fresh (.enqueue a) = some ((q.enqueue a).shared, .enqueued) ∧
    q.shared.effort .fresh (.enqueue a) = ⟨n - k + 1, n - k, 1,
      (q.chain.drop (k + 1)).map .tail ++
        [.linked q.shared.nodes.size, .tail q.shared.nodes.size]⟩ ∧
    (q.enqueue a).chain = q.chain ++ [(q.enqueue a).shared.tail] ∧
    (q.enqueue a).lag = ⟨n + 1, n + 1⟩
  /-- A dequeue from an empty queue returns after one iteration and changes nothing. -/
  dequeue_empty : n = 0 →
    q.shared.perform? .fresh .dequeue = some (q.shared, .dequeued none) ∧
    q.shared.effort .fresh .dequeue = ⟨1, 0, 0, []⟩ ∧ q.dequeue = (q, none)
  /-- A dequeue that finds an item returns and takes the sentinel off the chain. It helps over one
  link, in an iteration more, only if the tail stands on the sentinel. -/
  dequeue : 0 < n →
    q.shared.perform? .fresh .dequeue = some (q.dequeue.1.shared, .dequeued q.dequeue.2) ∧
    q.shared.effort .fresh .dequeue =
      (if k = 0 then ⟨2, 1, 0, [.tail q.dequeue.1.shared.head, .head q.dequeue.1.shared.head]⟩
      else ⟨1, 0, 0, [.head q.dequeue.1.shared.head]⟩) ∧
    q.dequeue.1.chain = q.chain.tail ∧ q.dequeue.1.lag = ⟨n - 1, k - 1⟩
  /-- At no point of a dequeue has the head passed the tail. -/
  tailAhead : ∀ x ∈ q.shared.course .fresh .dequeue, x.1.TailAhead
  drain : q.drain.1.lag = ⟨0, 0⟩ ∧ q.drain.1.shared.tail = q.drain.1.shared.head

/-- A dequeue that finds an item leaves the chain without its first node. -/
private theorem chain_dequeue_of_ne {q : Queue α} (h : q.toList ≠ []) :
    q.dequeue.1.chain = q.chain.tail := by
  obtain ⟨hc, -⟩ | ⟨m, behind, hc, hshared, hc', -⟩ := q.dequeue_cases
  · exact absurd (toList_eq hc.linked) h
  · rw [chain_eq hc.linked, chain_eq hc'.linked, hshared]
    rfl

/-- Every queue behaves as its length and the position of its tail say. -/
private theorem travels (q : Queue α) : q.Travels q.toList.length q.tailPos where
  nodeCount_eq := q.nodeCount_eq
  tail_at := q.getElem?_tailPos
  le := q.tailPos_le
  setTail pos hpos := by
    obtain ⟨q', hq'⟩ := Option.isSome_iff_exists.1
      ((q.isSome_setTail? pos).trans (decide_eq_true hpos))
    exact ⟨q', hq', lag_setTail? hq'⟩
  enqueue a := by
    obtain ⟨htail, -⟩ := q.tail_enqueue a
    exact ⟨q.enqueue_shared a, q.effort_enqueue a, htail ▸ (q.chain_enqueue a).1, q.lag_enqueue a⟩
  -- An empty queue is left exactly as it was.
  dequeue_empty hnil := by
    have hnil := List.eq_nil_of_length_eq_zero hnil
    have hsame := dequeue_of_nil hnil
    have hperform := q.dequeue_shared
    have heffort := q.effort_dequeue
    rw [hsame] at hperform
    rw [if_pos hnil] at heffort
    exact ⟨hperform, heffort, hsame⟩
  dequeue hpos := by
    have hne := List.ne_nil_of_length_pos hpos
    have heffort := q.effort_dequeue
    rw [if_neg hne] at heffort
    exact ⟨q.dequeue_shared, heffort, chain_dequeue_of_ne hne, q.lag_dequeue⟩
  tailAhead := by
    obtain ⟨behind, h⟩ := q.wellFormed
    exact h.tailAhead_dequeue
  drain := q.tail_drain

/-- From a queue whose tail stands anywhere on its chain, after any turns in any order: where the
tail stands is known from the turns alone, and each operation costs what this lag makes it cost.
So the tail is always on the chain, and no dequeue takes the head past it. -/
theorem lag_run (q : Queue α) (turns : List (Turn α)) :
    (turns.foldl turn q).lag = turns.foldl Lag.after q.lag ∧
      (turns.foldl turn q).Travels (turns.foldl turn q).lag.items (turns.foldl turn q).lag.tail :=
  ⟨q.lag_turns turns, travels _⟩

example :
    (((init.enqueue 7).enqueue 8).setTail? 0).map (·.shared.effort .fresh (.enqueue 9)) =
      some ⟨3, 2, 1, [.tail 1, .tail 2, .linked 3, .tail 3]⟩ := by
  decide

end Queue

end AtomicFifo

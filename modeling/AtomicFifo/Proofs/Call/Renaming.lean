import AtomicFifo.Collector
import AtomicFifo.Proofs.Call.Knowledge

/-!
# Calls on renamed nodes

Two states are *alike* under a renaming of nodes if they agree on the head, the tail, the
counter, and on the links and items of all nodes that are live, and if the renaming tells live
nodes apart. Of the other nodes nothing is said: in the one state they may still be there while
in the other their places have long become those of other nodes.

A call cannot tell two alike states apart, as long as all nodes whose names it holds are live.

* `Alike.step`   a step of a call leads alike states to alike states
-/

namespace AtomicFifo

universe u

variable {α : Type u}

namespace Call

/-- A call with its nodes renamed. -/
def rename (ρ : NodeId → NodeId) : Call α → Call α
  | .allocate item => .allocate item
  | .announce node => .announce (ρ node)
  | .pin node => .pin (ρ node)
  | .readTail node => .readTail (ρ node)
  | .readTailLink node tail => .readTailLink (ρ node) (ρ tail)
  | .helpTail node tail next => .helpTail (ρ node) (ρ tail) (ρ next)
  | .link node tail => .link (ρ node) (ρ tail)
  | .swingTail node tail => .swingTail (ρ node) (ρ tail)
  | .readHead => .readHead
  | .readHeadTail head => .readHeadTail (ρ head)
  | .readHeadLink head tail => .readHeadLink (ρ head) (ρ tail)
  | .helpHead head next => .helpHead (ρ head) (ρ next)
  | .unlink head next => .unlink (ρ head) (ρ next)
  | .takeItem head next => .takeItem (ρ head) (ρ next)
  | .discount item => .discount item
  | .probeHead => .probeHead
  | .probeLink head => .probeLink (ρ head)
  | .done reply => .done reply

/-- The nodes whose names a call has read. -/
def names : Call α → List NodeId
  | .readTailLink _ tail | .link _ tail | .swingTail _ tail => [tail]
  | .helpTail _ tail next => [tail, next]
  | .readHeadTail head | .probeLink head => [head]
  | .readHeadLink head tail => [head, tail]
  | .helpHead head next | .unlink head next | .takeItem head next => [head, next]
  | _ => []

/-- Whether a call is about to allocate a node. -/
def allocates : Call α → Bool
  | .allocate _ => true
  | _ => false

variable {c : Call α} {ρ ρ' : NodeId → NodeId}

/-- A call keeps its pin under other names. -/
@[simp] theorem pinned_rename : (c.rename ρ).pinned = c.pinned := by
  cases c <;> rfl

/-- A call allocates or not whatever the names are. -/
@[simp] theorem allocates_rename : (c.rename ρ).allocates = c.allocates := by
  cases c <;> rfl

/-- A call that has just begun has no names. -/
@[simp] theorem start_rename (request : Request α) : request.start.rename ρ = request.start := by
  cases request <;> rfl

/-- The node whose item a call takes is renamed with it. -/
theorem takes?_rename : (c.rename ρ).takes? = c.takes?.map ρ := by
  cases c <;> rfl

/-- The node that a call retires is renamed with it. -/
theorem retires?_rename : (c.rename ρ).retires? = c.retires?.map ρ := by
  cases c <;> rfl

/-- Only names that have been read are followed. -/
theorem mem_names_of_accesses? {n : NodeId} (h : c.accesses? = some n) : n ∈ c.names := by
  cases c with
  | readTailLink node tail | link node tail | readHeadLink head tail => cases h; simp [names]
  | takeItem head next | probeLink head => cases h; simp [names]
  | _ => cases h

/-- A call names the node that its exchange expects. -/
theorem mem_names_of_expects? {n : NodeId} (h : c.expects? = some n) : n ∈ c.names := by
  cases c with
  | helpTail node tail next | swingTail node tail => cases h; simp [names]
  | helpHead head next | unlink head next => cases h; simp [names]
  | _ => cases h

/-- Only a thread that is pinned knows names. -/
theorem pinned_of_mem_names {n : NodeId} (h : n ∈ c.names) : c.pinned = true := by
  cases c with
  | allocate item | announce node | pin node | done reply => cases h
  | _ => rfl

/-- A call is pinned while it retires a node. -/
theorem pinned_of_retires? {n : NodeId} (h : c.retires? = some n) : c.pinned = true := by
  cases c with
  | takeItem head next => rfl
  | _ => cases h

/-- A call that has just begun names no node. -/
@[simp] theorem names_start (request : Request α) : request.start.names = [] := by
  cases request <;> rfl

/-- The names of a renamed call are the renamed ones. -/
@[simp] theorem names_rename : (c.rename ρ).names = c.names.map ρ := by
  cases c <;> rfl

/-- Renamings that agree on the nodes of a call rename it alike. -/
theorem rename_congr (hnames : ∀ n ∈ c.names, ρ n = ρ' n)
    (hnode : ∀ n, c.node? = some n → ρ n = ρ' n) (hswing : ∀ node tail, c = .swingTail node tail →
      ρ node = ρ' node) : c.rename ρ = c.rename ρ' := by
  -- Each call names the nodes that it has read, and its own while it has one.
  cases c with
  | announce node | pin node | readTail node => simp [rename, hnode node rfl]
  | readTailLink node tail | link node tail =>
    simp [rename, hnode node rfl, hnames tail (by simp [names])]
  | helpTail node tail next =>
    simp [rename, hnode node rfl, hnames tail (by simp [names]), hnames next (by simp [names])]
  | swingTail node tail => simp [rename, hswing node tail rfl, hnames tail (by simp [names])]
  | readHeadTail head | probeLink head => simp [rename, hnames head (by simp [names])]
  | readHeadLink head tail =>
    simp [rename, hnames head (by simp [names]), hnames tail (by simp [names])]
  | helpHead head next | unlink head next | takeItem head next =>
    simp [rename, hnames head (by simp [names]), hnames next (by simp [names])]
  | _ => rfl

/-! ### Where names come from -/

/-- A name that a step reads belongs to the head, to the tail, or to a node behind one whose
name is known. -/
theorem loads?_cases {s : Shared α} {n : NodeId} (h : c.loads? s = some n) :
    n = s.head ∨ n = s.tail ∨ ∃ k ∈ c.names, s.next k = some n := by
  cases c with
  | readTail node | readHeadTail head => exact .inr (.inl (by cases h; rfl))
  | readHead | probeHead => exact .inl (by cases h; rfl)
  | readTailLink node tail => exact .inr (.inr ⟨tail, by simp [names], h⟩)
  | readHeadLink head tail => exact .inr (.inr ⟨head, by simp [names], h⟩)
  | _ => cases h

/-- The names that a call knows after a step it has known before or has just read. -/
theorem step_names {grant : Grant} {s : Shared α} {n : NodeId}
    (h : n ∈ (c.step grant s).2.names) : n ∈ c.names ∨ c.loads? s = some n := by
  cases c with
  | allocate item =>
    simp only [step] at h
    split at h <;> cases h
  | readTail node | readHead | probeHead =>
    exact .inr (by simpa [step, names, loads?, eq_comm] using h)
  | readTailLink node tail =>
    simp only [step] at h
    split at h
    · rename_i next hnext
      simpa [names, loads?, hnext, eq_comm] using h
    · exact .inl h
  | link node tail =>
    simp only [step] at h
    split at h
    · exact .inl h
    · cases h
  | readHeadTail head =>
    simpa [step, names, loads?, eq_comm] using h
  | readHeadLink head tail =>
    simp only [step] at h
    split at h
    · cases h
    · -- Whether it helps or unlinks, the call knows the head and its link.
      rename_i next hnext
      rcases (show n = head ∨ n = next by split at h <;> simpa [names] using h) with rfl | rfl
      · exact .inl (by simp [names])
      · exact .inr hnext
  | unlink head next =>
    simp only [step] at h
    split at h
    · exact .inl h
    · cases h
  | _ => cases h

/-- A call that does not allocate keeps its own node, if it still has one. -/
theorem step_node? {grant : Grant} {s : Shared α} {n : NodeId} (hc : c.allocates = false)
    (h : (c.step grant s).2.node? = some n) : c.node? = some n := by
  cases c with
  | allocate item => cases hc
  | readTailLink node tail =>
    simp only [step] at h
    split at h <;> exact h
  -- A node that has been linked is no longer the call's own.
  | link node tail =>
    simp only [step] at h
    split at h
    · cases h
    · exact h
  | readHeadLink head tail =>
    simp only [step] at h
    split at h
    · cases h
    · split at h <;> cases h
  | unlink head next =>
    simp only [step] at h
    split at h <;> cases h
  | _ => exact h

/-- A step moves the head just if it is the exchange that expects the head as it is. -/
theorem crowns?_eq_some_iff {s : Shared α} {n : NodeId} :
    c.crowns? s = some n ↔ c = .unlink s.head n := by
  constructor
  · intro h
    cases c with
    | unlink head next =>
      simp only [crowns?] at h
      split at h
      · rename_i heq
        cases h
        rw [heq]
      · cases h
    | _ => cases h
  · rintro rfl
    simp [crowns?]

/-- Only a step that makes a node the sentinel moves the head. -/
theorem step_head (grant : Grant) {s : Shared α} (hc : c.crowns? s = none) :
    (c.step grant s).1.head = s.head := by
  cases c with
  | allocate item => cases grant <;> rfl
  | readTailLink node tail | readHeadLink head tail =>
    simp only [step]
    split <;> rfl
  | helpTail node tail next | swingTail node tail | helpHead head next =>
    simp only [step, Shared.exchangeTail]
    split <;> rfl
  | link node tail =>
    simp only [step, Shared.exchangeLink]
    cases s.next tail <;> rfl
  -- The only exchange of the head expects another head than there is.
  | unlink head next =>
    by_cases heq : s.head = head
    · simp [crowns?, heq] at hc
    · simp [step, Shared.exchangeHead, heq]
  | _ => rfl

/-- It is the call that makes a node the sentinel that takes its item out. -/
theorem crowns?_of_step {grant : Grant} {s : Shared α} {head next : NodeId}
    (h : (c.step grant s).2 = .takeItem head next) : c.crowns? s = some next := by
  cases c with
  | allocate item => cases grant <;> cases h
  | readTailLink node tail =>
    simp only [step] at h
    split at h <;> cases h
  | readHeadLink head' tail =>
    simp only [step] at h
    split at h
    · cases h
    · split at h <;> cases h
  | link node tail =>
    simp only [step] at h
    split at h <;> cases h
  | unlink head' next' =>
    -- It goes on to take an item out only if the exchange has succeeded.
    by_cases heq : s.head = head'
    · simp only [step, Shared.exchangeHead, heq, ↓reduceIte] at h
      cases h
      simp [crowns?, heq]
    · simp [step, Shared.exchangeHead, heq] at h
  | _ => cases h

/-- Only an allocation makes more nodes. -/
theorem step_size (grant : Grant) (s : Shared α) (hc : c.allocates = false) :
    (c.step grant s).1.nodes.size = s.nodes.size := by
  cases c with
  -- Only an allocation brings a new place.
  | allocate item => cases hc
  | readTailLink node tail | readHeadLink head tail =>
    simp only [step]
    split <;> rfl
  | helpTail node tail next | swingTail node tail | helpHead head next =>
    simp only [step, Shared.exchangeTail]
    split <;> rfl
  | link node tail =>
    simp only [step, Shared.exchangeLink]
    cases s.next tail with
    | none => simp
    | some m => rfl
  | unlink head next =>
    simp only [step, Shared.exchangeHead]
    by_cases heq : s.head = head <;> simp [heq]
  | _ => rfl

end Call

/-! ### Alike states -/

namespace Shared

/-- Two states agree on the nodes that are live, under a renaming. -/
structure Alike (live : NodeId → Prop) (ρ : NodeId → NodeId) (s t : Shared α) : Prop where
  head : t.head = ρ s.head
  tail : t.tail = ρ s.tail
  count : t.count = s.count
  next : ∀ {n : NodeId}, live n → t.next (ρ n) = (s.next n).map ρ
  item : ∀ {n : NodeId}, live n → t.item (ρ n) = s.item n
  lt : ∀ {n : NodeId}, live n → n < s.nodes.size ∧ ρ n < t.nodes.size
  inj : ∀ {n m : NodeId}, live n → live m → ρ n = ρ m → n = m

variable {live : NodeId → Prop} {ρ : NodeId → NodeId} {s t : Shared α}

/-- States that are alike are so for fewer nodes. -/
theorem Alike.of_live {live' : NodeId → Prop} (h : s.Alike live ρ t)
    (hlive : ∀ {n : NodeId}, live' n → live n) : s.Alike live' ρ t where
  head := h.head
  tail := h.tail
  count := h.count
  next hn := h.next (hlive hn)
  item hn := h.item (hlive hn)
  lt hn := h.lt (hlive hn)
  inj hn hm := h.inj (hlive hn) (hlive hm)

/-- An exchange of the tail succeeds in both states or in none. -/
theorem Alike.exchangeTail (h : s.Alike live ρ t) (htail : live s.tail) {old new : NodeId}
    (hold : live old) :
    (s.exchangeTail old new).1.Alike live ρ (t.exchangeTail (ρ old) (ρ new)).1 := by
  unfold Shared.exchangeTail
  by_cases heq : s.tail = old
  · subst heq
    rw [if_pos rfl, if_pos h.tail]
    exact ⟨h.head, rfl, h.count, h.next, h.item, h.lt, h.inj⟩
  · -- Live nodes are told apart, so the tail is another node in both states.
    have hne : t.tail ≠ ρ old := fun heq' => heq (h.inj htail hold (h.tail.symm.trans heq'))
    rw [if_neg heq, if_neg hne]
    exact h

/-- So does an exchange of the head. -/
theorem Alike.exchangeHead (h : s.Alike live ρ t) (hhead : live s.head) {old : NodeId}
    (hold : live old) (new : NodeId) :
    (s.exchangeHead old new).1.Alike live ρ (t.exchangeHead (ρ old) (ρ new)).1 ∧
      (t.exchangeHead (ρ old) (ρ new)).2 = (s.exchangeHead old new).2 := by
  unfold Shared.exchangeHead
  by_cases heq : s.head = old
  · -- Both heads move, and the names that they move to correspond.
    subst heq
    rw [if_pos rfl, if_pos h.head]
    exact ⟨⟨rfl, h.tail, h.count, h.next, h.item, h.lt, h.inj⟩, rfl⟩
  · have hne : t.head ≠ ρ old := fun heq' => heq (h.inj hhead hold (h.head.symm.trans heq'))
    rw [if_neg heq, if_neg hne]
    exact ⟨h, rfl⟩

/-- And so does an exchange of a link. -/
theorem Alike.exchangeLink (h : s.Alike live ρ t) {last : NodeId} (hlast : live last)
    (node : NodeId) :
    (s.exchangeLink last node).1.Alike live ρ (t.exchangeLink (ρ last) (ρ node)).1 ∧
      (t.exchangeLink (ρ last) (ρ node)).2 = (s.exchangeLink last node).2 := by
  have hnext := h.next hlast
  obtain ⟨hlt, hlt'⟩ := h.lt hlast
  unfold Shared.exchangeLink
  cases hs : s.next last with
  | some m =>
    -- The link is written in both states.
    rw [hs, Option.map_some] at hnext
    rw [hnext]
    exact ⟨h, rfl⟩
  | none =>
    rw [hs, Option.map_none] at hnext
    rw [hnext]
    refine ⟨⟨h.head, h.tail, h.count, fun {n} hn => ?_, fun {n} hn => ?_, fun {n} hn => ?_,
      h.inj⟩, rfl⟩
    · -- Only the link of the one node is written, in either state.
      rw [next_modify, next_modify]
      by_cases heq : n = last
      · subst heq
        simp [hlt, hlt']
      · have hne : ρ n ≠ ρ last := fun heq' => heq (h.inj hn hlast heq')
        simp [heq, hne, h.next hn]
    · rw [item_modify, item_modify]
      exact h.item hn
    · simpa using h.lt hn

/-- A call that does not allocate does the same in two alike states. -/
theorem Alike.step (h : s.Alike live ρ t) (hhead : live s.head) (htail : live s.tail)
    {c : Call α} (hnames : ∀ n ∈ c.names, live n) (hc : c.allocates = false)
    (grant grant' : Grant) :
    (c.step grant s).1.Alike live ρ ((c.rename ρ).step grant' t).1 ∧
      ((c.rename ρ).step grant' t).2 = (c.step grant s).2.rename ρ := by
  cases c with
  | allocate item => cases hc
  | announce node =>
    exact ⟨⟨h.head, h.tail, by simp [Call.step, Call.rename, h.count], h.next, h.item, h.lt, h.inj⟩,
      rfl⟩
  | discount item =>
    exact ⟨⟨h.head, h.tail, by simp [Call.step, Call.rename, h.count], h.next, h.item, h.lt, h.inj⟩,
      rfl⟩
  | readTail node | readHeadTail head => exact ⟨h, by simp [Call.step, Call.rename, h.tail]⟩
  | readHead | probeHead => exact ⟨h, by simp [Call.step, Call.rename, h.head]⟩
  | readTailLink node tail =>
    have hnext := h.next (hnames tail (by simp [Call.names]))
    simp only [Call.step, Call.rename, hnext]
    cases s.next tail <;> exact ⟨h, rfl⟩
  | helpTail node tail next =>
    exact ⟨h.exchangeTail htail (hnames tail (by simp [Call.names])), rfl⟩
  | swingTail node tail => exact ⟨h.exchangeTail htail (hnames tail (by simp [Call.names])), rfl⟩
  | helpHead head next => exact ⟨h.exchangeTail htail (hnames head (by simp [Call.names])), rfl⟩
  | link node tail =>
    -- From here on it only matters that both exchanges succeed or both fail.
    obtain ⟨halike, hresult⟩ := h.exchangeLink (hnames tail (by simp [Call.names])) node
    simp only [Call.step, Call.rename]
    revert halike hresult
    generalize s.exchangeLink tail node = r
    generalize t.exchangeLink (ρ tail) (ρ node) = r'
    obtain ⟨s', linked⟩ := r
    obtain ⟨t', linked'⟩ := r'
    rintro halike rfl
    cases linked' <;> exact ⟨halike, rfl⟩
  | readHeadLink head tail =>
    have hlive := hnames head (by simp [Call.names])
    have hlive' := hnames tail (by simp [Call.names])
    have hnext := h.next hlive
    simp only [Call.step, Call.rename, hnext]
    cases s.next head with
    | none => exact ⟨h, rfl⟩
    | some next =>
      -- The two are compared, and they are the same in both states or in none.
      refine ⟨h, ?_⟩
      by_cases heq : head = tail
      · simp [heq]
      · have hne : ρ head ≠ ρ tail := fun heq' => heq (h.inj hlive hlive' heq')
        simp [heq, hne]
  | unlink head next =>
    -- As with the link: the two exchanges of the head have the same result.
    obtain ⟨halike, hresult⟩ := h.exchangeHead hhead
      (hnames head (by simp [Call.names])) next
    simp only [Call.step, Call.rename]
    revert halike hresult
    generalize s.exchangeHead head next = r
    generalize t.exchangeHead (ρ head) (ρ next) = r'
    obtain ⟨s', moved⟩ := r
    obtain ⟨t', moved'⟩ := r'
    rintro halike rfl
    cases moved' <;> exact ⟨halike, rfl⟩
  | takeItem head next =>
    have hitem := h.item (hnames next (by simp [Call.names]))
    exact ⟨h, by simp [Call.step, Call.rename, hitem]⟩
  | probeLink head =>
    have hnext := h.next (hnames head (by simp [Call.names]))
    exact ⟨h, by simp [Call.step, Call.rename, hnext]⟩
  | _ => exact ⟨h, rfl⟩

/-- In alike states the same names are read. -/
theorem Alike.loads? (h : s.Alike live ρ t) {c : Call α} (hnames : ∀ n ∈ c.names, live n) :
    (c.rename ρ).loads? t = (c.loads? s).map ρ := by
  cases c with
  | readTail node | readHeadTail head => simp [Call.loads?, Call.rename, h.tail]
  | readHead | probeHead => simp [Call.loads?, Call.rename, h.head]
  | readTailLink node tail => exact h.next (hnames tail (by simp [Call.names]))
  | readHeadLink head tail => exact h.next (hnames head (by simp [Call.names]))
  | _ => rfl

/-- A renamed call moves the head of the other queue just where the call moves that of its own. -/
theorem Alike.crowns? (h : s.Alike live ρ t) (hhead : live s.head) {c : Call α}
    (hnames : ∀ n ∈ c.names, live n) : (c.rename ρ).crowns? t = (c.crowns? s).map ρ := by
  cases c with
  | unlink head next =>
    have hlive := hnames head (by simp [Call.names])
    simp only [Call.crowns?, Call.rename]
    by_cases heq : s.head = head
    · subst heq
      simp [h.head]
    · -- Live nodes have different names on the other side too.
      have hne : t.head ≠ ρ head := fun heq' => heq (h.inj hhead hlive (h.head.symm.trans heq'))
      simp [heq, hne]
  | _ => rfl

end Shared

end AtomicFifo

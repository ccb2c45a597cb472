import AtomicFifo.Proofs.Collector.Deeds
import AtomicFifo.Proofs.Collector.Mirror

/-!
# What has been done to every node

A collector's list of deeds tells where in its life a node stands. A node that has been made
the sentinel is the head or lies before it; one that has been retired has a link that does not
lead beyond the head; one that has been freed is not live any more. Each of these is final, so
none of the deeds can be due twice. In between lies the call that has made a node the sentinel
and has not yet taken the item out: the node waits for it, however many nodes the other threads
unlink in the meantime, since the call was pinned before the node was retired.

* `Chronicle.rest`      moves that do nothing to any node
* `Chronicle.crown`     the head moves on
* `Chronicle.take`      an item is taken out, and the old sentinel is retired
* `Chronicle.collect`   a node is freed
-/

namespace AtomicFifo.Collector

universe u

open Links

variable {α : Type u}

/-- The deeds, and the nodes that they have been done to. -/
structure Chronicle (c : Collector α) (a : System α) (π : Naming) : Prop where
  proper : Proper c.deeds
  first : π 0 = .first
  origin : Reaches a.shared.next 0 a.shared.head
  head : π a.shared.head = .first ∨ ∃ call, .crowned call (π a.shared.head) ∈ c.deeds
  crowned : ∀ {call : CallId} {node : Incarnation}, .crowned call node ∈ c.deeds →
    ∃ n < a.shared.nodes.size, π n = node ∧ Reaches a.shared.next n a.shared.head
  retired : ∀ {node : Incarnation}, .retired node ∈ c.deeds → ∃ n < a.shared.nodes.size,
    π n = node ∧ ∃ m, a.shared.next n = some m ∧ Reaches a.shared.next m a.shared.head
  freed : ∀ {node : Incarnation}, .freed node ∈ c.deeds →
    ∃ n < a.shared.nodes.size, π n = node ∧ ¬ Live c a π n
  taking : ∀ {thread : Nat} {head next : NodeId}, a.At thread (.takeItem head next) →
    Taking c.deeds (c.callId thread) (π head) (π next)
  /-- If an item is still in its node, there is such a call. -/
  untaken : ∀ {call : CallId} {node : Incarnation}, .crowned call node ∈ c.deeds →
    (∃ call', .taken call' node ∈ c.deeds) ∨
      ∃ thread head next, a.At thread (.takeItem head next) ∧ π next = node
  places_nodup : c.places.Nodup
  waiting : ∀ place ∈ c.places, .retired (c.incarnation place) ∈ c.deeds

variable {c c' : Collector α} {a a' : System α} {π π' : Naming} {thread : Nat} {call : Call α}

/-- Nothing is done to any node by a move. -/
structure Rests (c c' : Collector α) (a a' : System α) (π π' : Naming) : Prop where
  size : a.shared.nodes.size ≤ a'.shared.nodes.size
  names : ∀ {n : NodeId}, n < a.shared.nodes.size → π' n = π n
  next : ∀ n m, a.shared.next n = some m → a'.shared.next n = some m
  head : a'.shared.head = a.shared.head
  live : ∀ {n : NodeId}, n < a.shared.nodes.size → Live c' a' π' n → Live c a π n
  deeds : c'.deeds = c.deeds
  places : c'.places = c.places
  number : ∀ place ∈ c.places, c'.number place = c.number place
  taking : ∀ {thread : Nat} {head next : NodeId},
    a'.At thread (.takeItem head next) ↔ a.At thread (.takeItem head next)
  callId : ∀ {thread : Nat} {head next : NodeId}, a.At thread (.takeItem head next) →
    c'.callId thread = c.callId thread

namespace Chronicle

/-- What does not touch the chronicle keeps it true. -/
theorem rest (hk : Chronicle c a π) (h : Mirror c a π) (hrest : Rests c c' a a' π π') :
    Chronicle c' a' π' := by
  have hhead : a.shared.head < a.shared.nodes.size := (h.chain .refl).lt
  exact {
    proper := by
      rw [hrest.deeds]
      exact hk.proper
    first := by
      rw [hrest.names (Nat.lt_of_le_of_lt (Nat.zero_le _) hhead)]
      exact hk.first
    origin := by
      rw [hrest.head]
      exact hk.origin.mono hrest.next
    head := by
      rw [hrest.head, hrest.names hhead, hrest.deeds]
      exact hk.head
    crowned := fun hmem => by
      -- What leads to the head goes on to do so, since no link is lost.
      obtain ⟨n, hn, hname, hreach⟩ := hk.crowned (hrest.deeds ▸ hmem)
      refine ⟨n, Nat.lt_of_lt_of_le hn hrest.size, by rw [hrest.names hn, hname], ?_⟩
      rw [hrest.head]
      exact hreach.mono hrest.next
    retired := fun hmem => by
      obtain ⟨n, hn, hname, m, hm, hreach⟩ := hk.retired (hrest.deeds ▸ hmem)
      refine ⟨n, Nat.lt_of_lt_of_le hn hrest.size, by rw [hrest.names hn, hname], m,
        hrest.next n m hm, ?_⟩
      rw [hrest.head]
      exact hreach.mono hrest.next
    freed := fun hmem => by
      obtain ⟨n, hn, hname, hnot⟩ := hk.freed (hrest.deeds ▸ hmem)
      exact ⟨n, Nat.lt_of_lt_of_le hn hrest.size, by rw [hrest.names hn, hname],
        fun hlive => hnot (hrest.live hn hlive)⟩
    taking := fun {thread head next} hat => by
      -- The call is one from before, and what it holds is live, so it has kept its name.
      have hat := hrest.taking.1 hat
      have hnext := (h.names_live hat (n := next) (by simp [Call.names])).lt
      have hprev := (h.names_live hat (n := head) (by simp [Call.names])).lt
      rw [hrest.deeds, hrest.callId hat, hrest.names hnext, hrest.names hprev]
      exact hk.taking hat
    untaken := fun hmem => by
      rw [hrest.deeds] at hmem ⊢
      rcases hk.untaken hmem with htaken | ⟨thread, head, next, hat, hname⟩
      · exact .inl htaken
      · refine .inr ⟨thread, head, next, hrest.taking.2 hat, ?_⟩
        rw [hrest.names (h.names_live hat (by simp [Call.names])).lt, hname]
    places_nodup := by
      rw [hrest.places]
      exact hk.places_nodup
    waiting := fun place hplace => by
      rw [hrest.places] at hplace
      rw [hrest.deeds, incarnation, hrest.number place hplace]
      exact hk.waiting place hplace }

end Chronicle

/-! ### Moves that do nothing to any node -/

/-- Where neither the old call nor the new one has an item to take out, nobody else's call
changes. -/
private theorem taking_set {shared : Shared α} {call' : Call α} {thread' : Nat} {head next : NodeId}
    (hat : ∀ {head next : NodeId}, ¬ a.At thread (.takeItem head next))
    (hcall : call' ≠ .takeItem head next) :
    System.At ⟨shared, a.calls.set thread (some call')⟩ thread' (.takeItem head next) ↔
      a.At thread' (.takeItem head next) := by
  constructor
  · intro hat'
    rcases System.at_set hat' with ⟨-, heq⟩ | ⟨-, hat'⟩
    · exact absurd heq.symm hcall
    · exact hat'
  · intro hat'
    apply System.at_set_of_ne hat'
    rintro rfl
    exact hat hat'

namespace Mirror

variable (h : Mirror c a π)

include h

/-- With and without the collector the same threads are idle. -/
theorem idle_eq (thread : Nat) : c.idle thread = a.idle thread := by
  simp [System.idle, h.running?_eq, h.calls]

/-- A call begins. -/
theorem step_start (request : Request α) (hidle : a.idle thread = true) :
    Mirror (c.step (.start thread request)) (a.step (.start thread request)) π ∧
      Rests c (c.step (.start thread request)) a (a.step (.start thread request)) π π := by
  have hidle' : c.idle thread = true := by rw [h.idle_eq, hidle]
  have hstep : c.step (.start thread request) = { c with
      calls := c.calls.set thread (some request.start)
      begun := fun t => if t = thread then c.begun t + 1 else c.begun t } := by
    simp only [step, hidle', ↓reduceIte, System.step_start]
  have hinv := h.inv.step (.start thread request)
  obtain ⟨hlt, hnone⟩ : thread < a.calls.length ∧ a.running? thread = none := by
    simpa [System.idle] using hidle
  -- The thread was idle, so it was in no call before.
  have hnot : ∀ {call : Call α}, call.reply? = none → ¬ a.At thread call := by
    intro call hreply hat
    rw [System.running?_eq_some_iff.2 ⟨hat, hreply⟩] at hnone
    cases hnone
  rw [System.step_start hidle] at hinv ⊢
  rw [hstep]
  refine ⟨h.enter (by rw [Call.start_rename]) rfl rfl rfl rfl (fun hwaits _ => hwaits)
    (Call.names_start request) (System.request_node? request) hinv, ?_⟩
  -- A call that has just begun has read nothing, so all else rests.
  exact {
    size := Nat.le_refl _
    names := fun _ => rfl
    next := fun _ _ hm => hm
    head := rfl
    live := fun _ hn => ⟨hn.lt, hn.allocated, hn.number⟩
    deeds := rfl
    places := rfl
    number := fun _ _ => rfl
    taking := taking_set (hnot rfl) (by cases request <;> simp [Request.start])
    callId := fun {thread'} _ _ hat => by
      have hne : thread' ≠ thread := by
        rintro rfl
        exact hnot rfl hat
      simp [callId, hne] }

/-- The allocator refuses a node. -/
theorem advance_refused {item : α} (hrun : a.running? thread = some (.allocate item)) :
    Mirror (c.advance thread .refused (.allocate item)) (a.step (.advance thread false)) π ∧
      Rests c (c.advance thread .refused (.allocate item)) a (a.step (.advance thread false))
        π π := by
  have hat := (System.running?_eq_some_iff.1 hrun).1
  have hinv := h.inv.step (.advance thread false)
  have hstep : a.step (.advance thread false) =
      ⟨a.shared, a.calls.set thread (some (.done (.refused item)))⟩ := by
    rw [System.step_advance hrun]
    rfl
  rw [hstep] at hinv ⊢
  rw [Collector.advance_refused]
  refine ⟨h.enter rfl rfl rfl rfl places_unpin (fun hwaits hne => waits_unpin hwaits hne) rfl rfl
    hinv, ?_⟩
  -- The queue rests, and the thread leaves its call without a deed.
  exact {
    size := Nat.le_refl _
    names := fun _ => rfl
    next := fun _ _ hm => hm
    head := rfl
    live := fun _ hn => ⟨hn.lt, hn.allocated, hn.number⟩
    deeds := rfl
    places := places_unpin
    number := fun _ _ => rfl
    taking := taking_set (fun hat' => by cases hat.symm.trans hat') (by simp)
    callId := fun _ => rfl }

/-- The allocator grants a node. -/
theorem rests_born {item : α} {new : Incarnation}
    (hrun : a.running? thread = some (.allocate item)) (hborn : Born c c' thread item new) :
    Rests c c' a (a.step (.advance thread true)) π (Function.update π a.shared.nodes.size new) := by
  have hat := (System.running?_eq_some_iff.1 hrun).1
  have hstep := step_allocate hrun
  exact {
    size := (h.inv.grows [.advance thread true]).size
    names := update_of_lt
    next := (h.inv.grows [.advance thread true]).next
    head := by rw [hstep]
    live := fun hlt hn => (h.live_old hrun hborn hlt).1 hn
    deeds := hborn.deeds
    places := hborn.places
    -- No retired node is at the place, which was unused.
    number := fun place hplace => by
      obtain ⟨n, m, hn, rfl, -⟩ := h.waiting place hplace
      have hne : (π n).place ≠ new.place := fun heq => hborn.unused (heq ▸ hn.allocated)
      rw [hborn.number, if_neg hne]
    taking := by
      rw [hstep]
      exact taking_set (fun hat' => by cases hat.symm.trans hat') (by simp)
    callId := fun _ => by rw [callId, hborn.begun, callId] }

/-- A step that allocates nothing, leaves the head where it is, and takes no item out. -/
theorem rests_advance {grant : Grant} {memory : Bool} (hrun : a.running? thread = some call)
    (hc : call.allocates = false) (hcrown : call.crowns? a.shared = none)
    (htake : call.takes? = none) :
    Rests c (c.advance thread grant (call.rename π.place)) a (a.step (.advance thread memory))
      π π := by
  have hat := (System.running?_eq_some_iff.1 hrun).1
  have hc' : (call.rename π.place).allocates = false := by simpa using hc
  have hretire : call.retires? = none := by
    cases call with
    | takeItem head next => cases htake
    | _ => rfl
  have hadvance : a.step (.advance thread memory) = _ := System.step_advance hrun
  exact {
    size := (h.inv.grows [.advance thread memory]).size
    names := fun _ => rfl
    next := (h.inv.grows [.advance thread memory]).next
    head := by
      rw [hadvance]
      exact call.step_head _ hcrown
    live := fun _ hn => (live_advance hrun hc).1 hn
    deeds := by
      rw [advance_deeds hc', doings,
        h.alike.crowns? (h.chain .refl) fun n hn => h.names_live hat hn, Call.takes?_rename,
        Call.retires?_rename, hcrown, htake, hretire]
      rfl
    places := by
      rw [advance_places hc', Call.retires?_rename, hretire]
      rfl
    number := fun place _ => by rw [advance_number hc']
    taking := fun {_ head next} => by
      rw [hadvance]
      -- The call has had no item to take out, and has none now, since the head has not moved.
      refine taking_set (fun hat' => ?_) fun heq => ?_
      · cases Option.some.inj (Option.some.inj (hat.symm.trans hat'))
        cases htake
      · rw [Call.crowns?_of_step heq] at hcrown
        cases hcrown
    callId := fun _ => advance_callId hc' _ }

end Mirror

namespace Chronicle

variable (hk : Chronicle c a π) (h : Mirror c a π)

include hk h

/-! ### What the chronicle rules out -/

/-- A live node has not been freed. -/
private theorem not_freed {n : NodeId} (hn : Live c a π n) : .freed (π n) ∉ c.deeds := by
  intro hmem
  -- No other node has the same incarnation.
  obtain ⟨n', hn', hname, hnot⟩ := hk.freed hmem
  obtain rfl := h.inj hn' hn.lt hname
  exact hnot hn

/-- The node behind the head has not been the sentinel. -/
private theorem not_crowned {m : NodeId} (hm : a.shared.next a.shared.head = some m)
    (call : CallId) : .crowned call (π m) ∉ c.deeds := by
  intro hmem
  obtain ⟨n, hn, hname, hreach⟩ := hk.crowned hmem
  obtain rfl := h.inj hn (h.closed hm) hname
  exact h.inv.coherent.not_reached hm hreach .refl

/-- Neither has it been there from the start. -/
private theorem ne_first {m : NodeId} (hm : a.shared.next a.shared.head = some m) :
    π m ≠ .first := by
  intro heq
  have hhead : a.shared.head < a.shared.nodes.size := (h.chain .refl).lt
  obtain rfl := h.inj (h.closed hm) (Nat.lt_of_le_of_lt (Nat.zero_le _) hhead)
    (heq.trans hk.first.symm)
  exact h.inv.coherent.not_reached hm hk.origin .refl

/-- The head has not been retired. -/
private theorem head_not_retired : .retired (π a.shared.head) ∉ c.deeds := by
  intro hmem
  obtain ⟨n, hn, hname, m, hm, hreach⟩ := hk.retired hmem
  obtain rfl := h.inj hn (h.chain .refl).lt hname
  exact h.inv.coherent.not_reached hm hreach .refl

omit h in
/-- Two calls never have the same item to take out. -/
private theorem taking_unique {thread thread' : Nat} {head head' next next' : NodeId}
    (hat : a.At thread (.takeItem head next)) (hat' : a.At thread' (.takeItem head' next'))
    (heq : π next = π next') : thread = thread' := by
  have hcrowned := (hk.taking hat).crowned
  have hcrowned' := (hk.taking hat').crowned
  rw [heq] at hcrowned
  exact congrArg CallId.thread (hk.proper.crowned_unique hcrowned hcrowned')

omit h in
/-- What two calls have to take out and to retire are different nodes. -/
private theorem taking_ne (h : Mirror c a π) {thread thread' : Nat} {head head' next next' : NodeId}
    (hat : a.At thread (.takeItem head next)) (hat' : a.At thread' (.takeItem head' next'))
    (hne : thread' ≠ thread) : π next' ≠ π next ∧ π head' ≠ π head := by
  have hnext : π next' ≠ π next := fun heq => hne (hk.taking_unique hat' hat heq)
  refine ⟨hnext, fun heq => hnext ?_⟩
  -- The same head would have the same node behind it.
  have hsame := h.inj (h.names_live hat' (by simp [Call.names])).lt
    (h.names_live hat (by simp [Call.names])).lt heq
  have hlink := (h.inv.knows hat).1
  have hlink' := (h.inv.knows hat').1
  rw [hsame, hlink] at hlink'
  exact congrArg π (Option.some.inj hlink').symm

section Advance

variable {grant : Grant} {memory : Bool} (hrun : a.running? thread = some call)

include hrun

omit h in
/-- What has been freed is not live after a step that allocates nothing either. -/
private theorem freed_advance (hc : call.allocates = false) {node : Incarnation}
    (hmem : .freed node ∈ c.deeds) :
    ∃ n < (a.step (.advance thread memory)).shared.nodes.size, π n = node ∧
      ¬ Live (c.advance thread grant (call.rename π.place)) (a.step (.advance thread memory)) π
        n := by
  obtain ⟨n, hn, hname, hnot⟩ := hk.freed hmem
  refine ⟨n, ?_, hname, fun hlive => hnot ((Mirror.live_advance hrun hc).1 hlive)⟩
  rw [System.step_advance hrun]
  exact Nat.lt_of_lt_of_eq hn (call.step_size _ _ hc).symm

/-! ### The head moves on -/

/-- The chronicle stays true when a node becomes the sentinel. -/
theorem crown {m : NodeId} (hcrown : call.crowns? a.shared = some m) :
    Chronicle (c.advance thread grant (call.rename π.place)) (a.step (.advance thread memory))
      π := by
  have hat := (System.running?_eq_some_iff.1 hrun).1
  obtain rfl := Call.crowns?_eq_some_iff.1 hcrown
  have hm : a.shared.next a.shared.head = some m := (h.inv.knows hat).1
  have hlive : Live c a π m := h.names_live hat (by simp [Call.names])
  -- The step has one deed, by which the node behind the old head becomes the sentinel.
  have hdeeds : (c.advance thread grant
      ((Call.unlink a.shared.head m : Call α).rename π.place)).deeds =
        .crowned (c.callId thread) (π m) :: c.deeds := by
    rw [advance_deeds rfl, doings, h.alike.crowns? (h.chain .refl) fun n hn => h.names_live hat hn,
      hcrown]
    simp [Call.rename, Call.retires?, Call.takes?, Naming.place, hlive.eq]
  have hadvance : a.step (.advance thread memory) =
      ⟨{ a.shared with head := m }, a.calls.set thread (some (.takeItem a.shared.head m))⟩ := by
    rw [System.step_advance hrun]
    simp [Call.step, Shared.exchangeHead]
  have hplaces : (c.advance thread grant
      ((Call.unlink a.shared.head m : Call α).rename π.place)).places = c.places :=
    advance_places rfl
  have hsub : c.deeds ⊆ .crowned (c.callId thread) (π m) :: c.deeds := List.subset_cons_self _ _
  -- Whatever leads to the old head leads to the new one.
  have hbeyond : ∀ {n : NodeId}, Reaches a.shared.next n a.shared.head →
      Reaches a.shared.next n m := fun hn => hn.tail hm
  exact {
    proper := by
      rw [hdeeds]
      exact .cons hk.proper ⟨hk.ne_first h hm, hk.not_crowned h hm⟩
    first := hk.first
    origin := by
      rw [hadvance]
      exact hbeyond hk.origin
    head := by
      rw [hadvance, hdeeds]
      exact .inr ⟨_, List.mem_cons_self⟩
    crowned := fun {call node} hmem => by
      rw [hadvance]
      rw [hdeeds] at hmem
      rcases List.mem_cons.1 hmem with heq | hmem
      · cases heq
        exact ⟨m, h.closed hm, rfl, .refl⟩
      · obtain ⟨n, hn, hname, hreach⟩ := hk.crowned hmem
        exact ⟨n, hn, hname, hbeyond hreach⟩
    retired := fun {node} hmem => by
      rw [hadvance]
      rw [hdeeds] at hmem
      obtain ⟨n, hn, hname, k, hnext, hreach⟩ := hk.retired (List.mem_of_ne_of_mem (by simp) hmem)
      exact ⟨n, hn, hname, k, hnext, hbeyond hreach⟩
    freed := fun {node} hmem => by
      rw [hdeeds] at hmem
      exact hk.freed_advance hrun rfl (List.mem_of_ne_of_mem (by simp) hmem)
    taking := fun {thread' head next} hat' => by
      rw [hadvance] at hat'
      rw [hdeeds, advance_callId rfl]
      rcases System.at_set hat' with ⟨rfl, heq⟩ | ⟨-, hat'⟩
      · cases heq
        -- Nobody has made this node the sentinel before, so nobody has taken its item out.
        refine ⟨List.mem_cons_self, fun call hmem => ?_, fun hmem => ?_, ?_⟩
        · have hmem := List.mem_of_ne_of_mem (by simp) hmem
          exact hk.not_crowned h hm call (hk.proper.crowned_of_taken hmem)
        · exact hk.head_not_retired h (List.mem_of_ne_of_mem (by simp) hmem)
        · exact Deed.crowned_mono hsub hk.head
      · exact (hk.taking hat').cons (by simp) (by simp)
    untaken := fun {call node} hmem => by
      rw [hdeeds] at hmem ⊢
      rw [hadvance]
      -- The new sentinel waits for this call, the older ones for whom they have waited before.
      rcases List.mem_cons.1 hmem with heq | hmem
      · cases heq
        exact .inr ⟨thread, a.shared.head, m, System.at_set_self hat, rfl⟩
      · rcases hk.untaken hmem with ⟨call', htaken⟩ | ⟨thread', head, next, hat', hname⟩
        · exact .inl ⟨call', hsub htaken⟩
        · refine .inr ⟨thread', head, next, System.at_set_of_ne hat' ?_, hname⟩
          rintro rfl
          cases hat.symm.trans hat'
    places_nodup := by
      rw [hplaces]
      exact hk.places_nodup
    waiting := fun place hplace => by
      rw [hplaces] at hplace
      rw [hdeeds, incarnation, advance_number rfl]
      exact hsub (hk.waiting place hplace) }

/-! ### An item is taken out -/

/-- The chronicle stays true when a call takes an item and retires the old sentinel. -/
theorem take {head next : NodeId} (hcall : call = .takeItem head next) :
    Chronicle (c.advance thread grant (call.rename π.place)) (a.step (.advance thread memory))
      π := by
  subst hcall
  have hat := (System.running?_eq_some_iff.1 hrun).1
  have hlive : Live c a π head := h.names_live hat (by simp [Call.names])
  have hlive' : Live c a π next := h.names_live hat (by simp [Call.names])
  obtain ⟨hnext, hreach, -⟩ := h.inv.knows hat
  have htaking := hk.taking hat
  -- The step has two deeds: the item is taken, and the old sentinel retired.
  have hdeeds : (c.advance thread grant
      ((Call.takeItem head next : Call α).rename π.place)).deeds =
        .retired (π head) :: .taken (c.callId thread) (π next) :: c.deeds := by
    rw [advance_deeds rfl, doings]
    simp [Call.rename, Call.retires?, Call.takes?, Call.crowns?, Naming.place, hlive.eq,
      hlive'.eq]
  have hadvance : a.step (.advance thread memory) =
      ⟨a.shared, a.calls.set thread (some (.discount (a.shared.item next)))⟩ :=
    System.step_advance hrun
  have hplaces : (c.advance thread grant
      ((Call.takeItem head next : Call α).rename π.place)).places = (π head).place :: c.places :=
    advance_places rfl
  have hsub : c.deeds ⊆ .retired (π head) :: .taken (c.callId thread) (π next) :: c.deeds :=
    fun _ hmem => List.mem_cons_of_mem _ (List.mem_cons_of_mem _ hmem)
  -- The other deeds are those from before.
  have hold : ∀ {deed : Deed},
      (∀ node, deed ≠ .retired node) → (∀ call node, deed ≠ .taken call node) →
      deed ∈ .retired (π head) :: .taken (c.callId thread) (π next) :: c.deeds → deed ∈ c.deeds :=
    fun hretired htaken hmem =>
      List.mem_of_ne_of_mem (htaken _ _) (List.mem_of_ne_of_mem (hretired _) hmem)
  exact {
    proper := by
      rw [hdeeds]
      refine .cons (.cons hk.proper ⟨htaking.crowned, htaking.not_taken, hk.not_freed h hlive'⟩)
        ⟨?_, Deed.crowned_mono (List.subset_cons_self _ _) htaking.origin⟩
      intro hmem
      exact htaking.not_retired (List.mem_of_ne_of_mem (by simp) hmem)
    first := hk.first
    origin := by
      rw [hadvance]
      exact hk.origin
    head := by
      rw [hadvance, hdeeds]
      exact Deed.crowned_mono hsub hk.head
    crowned := fun {call node} hmem => by
      rw [hdeeds] at hmem
      rw [hadvance]
      exact hk.crowned (hold (by simp) (by simp) hmem)
    retired := fun {node} hmem => by
      rw [hdeeds] at hmem
      rw [hadvance]
      rcases List.mem_cons.1 hmem with heq | hmem
      · cases heq
        exact ⟨head, hlive.lt, rfl, next, hnext, hreach⟩
      · exact hk.retired (List.mem_of_ne_of_mem (by simp) hmem)
    freed := fun {node} hmem => by
      rw [hdeeds] at hmem
      exact hk.freed_advance hrun rfl (hold (by simp) (by simp) hmem)
    taking := fun {thread' head' next'} hat' => by
      rw [hadvance] at hat'
      rw [hdeeds, advance_callId rfl]
      rcases System.at_set hat' with ⟨-, heq⟩ | ⟨hne, hother⟩
      · -- This call has nothing left to take out.
        cases heq
      · -- Another call has another item to take out, and another node to retire.
        obtain ⟨hnext', hhead'⟩ := hk.taking_ne h hat hother hne
        exact ((hk.taking hother).cons (by simp [hnext'.symm]) (by simp)).cons (by simp)
          (by simp [hhead'.symm])
    untaken := fun {call node} hmem => by
      rw [hdeeds] at hmem ⊢
      rw [hadvance]
      rcases hk.untaken (hold (by simp) (by simp) hmem) with
        ⟨call', htaken⟩ | ⟨thread', head', next', hat', hname⟩
      · exact .inl ⟨call', hsub htaken⟩
      · by_cases heq : thread' = thread
        · -- The node has waited for this call, which takes the item out now.
          subst heq
          cases hat.symm.trans hat'
          exact .inl ⟨c.callId thread', List.mem_cons_of_mem _ (by simp [hname])⟩
        · exact .inr ⟨thread', head', next', System.at_set_of_ne hat' heq, hname⟩
    places_nodup := by
      rw [hplaces]
      -- If its place waited already, the node would have been retired before.
      refine List.nodup_cons.2 ⟨fun hmem => htaking.not_retired ?_, hk.places_nodup⟩
      rw [← hlive.eq]
      exact hk.waiting _ hmem
    waiting := fun place hplace => by
      rw [hdeeds, incarnation, advance_number rfl]
      rw [hplaces] at hplace
      rcases List.mem_cons.1 hplace with rfl | hplace
      · exact List.mem_cons.2 (.inl (congrArg Deed.retired hlive.eq))
      · exact hsub (hk.waiting place hplace) }

end Advance

/-! ### A node is freed -/

/-- A node that waits for nobody has had its item taken out, unless it never had one: it would
wait for the call that has still to do so. -/
private theorem taken_of_waiting {n : NodeId} (hmem : ⟨(π n).place, []⟩ ∈ c.waiting)
    (hn : Live c a π n) (hretired : .retired (π n) ∈ c.deeds) :
    π n = .first ∨ ∃ call, .taken call (π n) ∈ c.deeds := by
  apply (hk.proper.crowned_of_retired hretired).imp_right
  rintro ⟨call, hcrowned⟩
  rcases hk.untaken hcrowned with htaken | ⟨thread, head, next, hat, hname⟩
  · exact htaken
  · have hnames : next ∈ (Call.takeItem head next : Call α).names := by simp [Call.names]
    obtain rfl := h.inj (h.names_live hat hnames).lt hn.lt hname
    -- The call knows the node and is pinned, so the node waits for its thread at least.
    obtain ⟨base, hguards, hbase⟩ := h.guard hat rfl
    exact absurd (hguards.waits (hbase next hnames) _ hmem rfl) List.not_mem_nil

/-- The chronicle stays true when a place is freed. -/
theorem collect {place : NodeId} (hmem : ⟨place, []⟩ ∈ c.waiting) :
    Chronicle (c.step (.collect place)) a π := by
  have hplace : place ∈ c.places := List.mem_map_of_mem hmem
  have hplaces := places_perm hmem
  obtain ⟨n₀, m₀, hn₀, rfl, hnext₀, hhead₀⟩ := h.waiting place hplace
  have hretired : .retired (π n₀) ∈ c.deeds := hn₀.eq ▸ hk.waiting _ hplace
  have hsub : c.deeds ⊆ .freed (π n₀) :: c.deeds := List.subset_cons_self _ _
  rw [step_collect hmem, hn₀.eq] at hplaces ⊢
  exact {
    proper := .cons hk.proper
      ⟨hretired, hk.not_freed h hn₀, hk.taken_of_waiting h hmem hn₀ hretired⟩
    first := hk.first
    origin := hk.origin
    -- The deeds from before are still there, with one more in front.
    head := Deed.crowned_mono hsub hk.head
    crowned := fun hmem => hk.crowned (List.mem_of_ne_of_mem (by simp) hmem)
    retired := fun hmem => hk.retired (List.mem_of_ne_of_mem (by simp) hmem)
    freed := fun {node} hmem' => by
      rcases List.mem_cons.1 hmem' with heq | hmem'
      · cases heq
        exact ⟨n₀, hn₀.lt, rfl, fun hlive => hlive.allocated.2 List.mem_cons_self⟩
      · -- What has been freed before stays free.
        obtain ⟨n, hn, hname, hnot⟩ := hk.freed hmem'
        refine ⟨n, hn, hname, fun hlive => hnot ⟨hlive.lt, ⟨hlive.allocated.1, fun hfree => ?_⟩,
          hlive.number⟩⟩
        exact hlive.allocated.2 (List.mem_cons_of_mem _ hfree)
    taking := fun hat => (hk.taking hat).cons (by simp) (by simp)
    untaken := fun hmem => (hk.untaken (List.mem_of_ne_of_mem (by simp) hmem)).imp_left
      (Exists.imp fun _ htaken => hsub htaken)
    places_nodup := (List.nodup_cons.1 (hplaces.nodup_iff.1 hk.places_nodup)).2
    waiting := fun place hplace' =>
      hsub (hk.waiting place (hplaces.mem_iff.2 (List.mem_cons_of_mem _ hplace'))) }

end Chronicle

end AtomicFifo.Collector

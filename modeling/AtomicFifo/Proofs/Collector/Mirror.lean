import AtomicFifo.Proofs.Collector.Books

/-!
# Places that are used again, seen as nodes that are not

A collector runs like a system that hands out no place twice, if each node of that system is
named by an incarnation of a place. `Mirror` is the relation between the two. The nodes whose
incarnations are present and not freed are *live*; on these the shared states are alike, and on
nothing else do the calls depend, because

* whatever is reached from the head is live,
* for each pinned thread there is a node that has been the head since the thread was pinned or
  was it then, and nothing that is reached from there is freed before the thread is unpinned,
* all names that the thread has read are reached from there.

A retired node lies before the head, so it is reached from a thread's node only if it was
retired after the thread was pinned, and then it waits for the thread.
-/

namespace AtomicFifo.Collector

universe u

open Links

variable {α : Type u}

/-- The incarnation that each node of a system without reuse stands for. -/
abbrev Naming := NodeId → Incarnation

def Naming.place (π : Naming) (n : NodeId) : NodeId := (π n).place

/-- The incarnation of a node is the present one of its place and is not freed. -/
structure Live (c : Collector α) (a : System α) (π : Naming) (n : NodeId) : Prop where
  lt : n < a.shared.nodes.size
  allocated : c.Allocated (π n).place
  number : c.number (π n).place = (π n).number

/-- What is reached from a node is not freed before a thread is unpinned. -/
structure Guards (c : Collector α) (a : System α) (π : Naming) (thread : Nat) (base : NodeId) :
    Prop where
  before : Reaches a.shared.next base a.shared.head
  live : ∀ {n : NodeId}, Reaches a.shared.next base n → Live c a π n
  waits : ∀ {n : NodeId}, Reaches a.shared.next base n → c.Waits thread (π n).place

/-- A collector, seen as a system that hands out no place twice. -/
structure Mirror (c : Collector α) (a : System α) (π : Naming) : Prop where
  inv : a.Inv
  closed : a.shared.Closed
  inj : ∀ {n m : NodeId}, n < a.shared.nodes.size → m < a.shared.nodes.size → π n = π m → n = m
  within : ∀ {n : NodeId}, n < a.shared.nodes.size →
    (π n).place < c.shared.nodes.size ∧ (π n).number ≤ c.number (π n).place
  calls : c.calls = a.calls.map (Option.map (Call.rename π.place))
  alike : a.shared.Alike (Live c a π) π.place c.shared
  free_nodup : c.free.Nodup
  free_lt : ∀ p ∈ c.free, p < c.shared.nodes.size
  chain : ∀ {n : NodeId}, Reaches a.shared.next a.shared.head n → Live c a π n
  own : ∀ {thread : Nat} {call : Call α} {n : NodeId},
    a.At thread call → call.node? = some n → Live c a π n
  guard : ∀ {thread : Nat} {call : Call α}, a.At thread call → call.pinned = true →
    ∃ base, Guards c a π thread base ∧ ∀ n ∈ call.names, Reaches a.shared.next base n
  meant : ∀ {thread : Nat} {call : Call α} {n : NodeId}, a.At thread call → n ∈ call.names →
    c.meant thread (π n).place = (π n).number
  /-- What waits to be freed lies before the head. -/
  waiting : ∀ place ∈ c.places, ∃ n m, Live c a π n ∧ (π n).place = place ∧
    a.shared.next n = some m ∧ Reaches a.shared.next m a.shared.head

variable {c : Collector α} {a : System α} {π : Naming} {thread : Nat} {call : Call α}

/-- A live node is the present incarnation of its place. -/
theorem Live.eq {n : NodeId} (h : Live c a π n) : c.incarnation (π n).place = π n := by
  simp [incarnation, h.number]

namespace Mirror

variable (h : Mirror c a π)

include h

/-! ### What the relation says of the threads and of the chain -/

/-- Live nodes with the same place are the same. -/
private theorem eq_of_place {n m : NodeId} (hn : Live c a π n) (hm : Live c a π m)
    (heq : (π n).place = (π m).place) : n = m :=
  h.alike.inj hn hm heq

/-- Both sides are in the same calls, under different names. -/
theorem running?_eq (thread : Nat) :
    c.running? thread = (a.running? thread).map (Call.rename π.place) := by
  unfold System.running?
  rw [h.calls, List.getElem?_map]
  cases a.calls[thread]? with
  | none => rfl
  | some o =>
    cases o with
    | none => rfl
    | some call => cases call <;> rfl

/-- A call that is pinned on one side is pinned on the other. -/
private theorem mem_pinned (hat : a.At thread call) (hpinned : call.pinned = true) :
    thread ∈ c.pinned := by
  refine Collector.mem_pinned.2 ⟨call.rename π.place, ?_, by simpa using hpinned⟩
  have hreply : call.reply? = none := by
    cases call with
    | done reply => cases hpinned
    | _ => rfl
  rw [h.running?_eq, System.running?_eq_some_iff.2 ⟨hat, hreply⟩]
  rfl

/-- A node that waits to be freed is not reached from the head. -/
private theorem not_mem_places {n : NodeId} (hn : Reaches a.shared.next a.shared.head n) :
    (π n).place ∉ c.places := by
  intro hmem
  obtain ⟨n', m, hlive, hplace, hm, hhead⟩ := h.waiting _ hmem
  obtain rfl := h.eq_of_place hlive (h.chain hn) hplace
  exact h.inv.coherent.not_reached hm hhead hn

/-- Neither is a node that is not linked yet one that waits to be freed. -/
private theorem own_not_mem_places {n : NodeId} (hat : a.At thread call)
    (hn : call.node? = some n) : (π n).place ∉ c.places := by
  intro hmem
  obtain ⟨n', m, hlive, hplace, hm, -⟩ := h.waiting _ hmem
  obtain rfl := h.eq_of_place hlive (h.own hat hn) hplace
  rw [(h.inv.apart hat hn).next_eq] at hm
  cases hm

/-- The head guards every thread that is pinned now. -/
private theorem guards_head (thread : Nat) : Guards c a π thread a.shared.head where
  before := .refl
  live := h.chain
  waits hn := waits_of_not_mem (h.not_mem_places hn)

/-- For every thread in a call there is a node from which all names that it has read are
reached. -/
private theorem exists_guards (hat : a.At thread call) :
    ∃ base, Guards c a π thread base ∧ ∀ n ∈ call.names, Reaches a.shared.next base n := by
  by_cases hpinned : call.pinned = true
  · exact h.guard hat hpinned
  · exact ⟨a.shared.head, h.guards_head thread,
      fun n hn => absurd (Call.pinned_of_mem_names hn) hpinned⟩

/-- All names that a thread has read are those of live nodes. -/
theorem names_live {n : NodeId} (hat : a.At thread call) (hn : n ∈ call.names) :
    Live c a π n := by
  obtain ⟨base, hguards, hnames⟩ := h.exists_guards hat
  exact hguards.live (hnames n hn)

/-! ### A step of a call that allocates nothing -/

section Advance

variable {grant : Grant} {memory : Bool} (hrun : a.running? thread = some call)
  (hc : call.allocates = false)

include hrun hc

omit h in
/-- A step that allocates nothing leaves the same nodes alive. -/
theorem live_advance {n : NodeId} :
    Live (c.advance thread grant (call.rename π.place)) (a.step (.advance thread memory)) π n ↔
      Live c a π n := by
  have hc' : (call.rename π.place).allocates = false := by simpa using hc
  have hsize : (a.step (.advance thread memory)).shared.nodes.size = a.shared.nodes.size := by
    rw [System.step_advance hrun]
    exact call.step_size _ _ hc
  -- Such a step hands out no place and frees none.
  have hallocated : (c.advance thread grant (call.rename π.place)).Allocated (π n).place ↔
      c.Allocated (π n).place := by
    simp only [Allocated, advance_toSystem hc', advance_free hc', Call.step_size _ _ hc']
  constructor
  · intro hlive
    exact ⟨hsize ▸ hlive.lt, hallocated.1 hlive.allocated, advance_number hc' ▸ hlive.number⟩
  · intro hlive
    refine ⟨hsize ▸ hlive.lt, hallocated.2 hlive.allocated, ?_⟩
    rw [advance_number hc']
    exact hlive.number

omit hc in
/-- What a step reaches newly is the call's own node. -/
private theorem reaches_advance {b n : NodeId}
    (hreach : Reaches (a.step (.advance thread memory)).shared.next b n) :
    Reaches a.shared.next b n ∨ call.node? = some n := by
  rcases (h.inv.change hrun).reaches_back h.inv.coherent hreach with hreach | heffect
  · exact .inl hreach
  · exact .inr (Call.node?_of_effect? heffect)

/-- A node goes on guarding the threads that were pinned and still are. -/
private theorem guards_advance {thread' : Nat} {base : NodeId} (hguards : Guards c a π thread' base)
    (hretires : call.pinned = true → thread' ∈ c.pinned)
    (hpinned : thread' = thread →
      (call.step (.ofMemory memory) a.shared).2.pinned = true) :
    Guards (c.advance thread grant (call.rename π.place)) (a.step (.advance thread memory)) π
      thread' base := by
  have hat := (System.running?_eq_some_iff.1 hrun).1
  have hgrows := h.inv.grows [.advance thread memory]
  have hc' : (call.rename π.place).allocates = false := by simpa using hc
  obtain ⟨-, hstep⟩ := h.alike.step (h.chain .refl) (h.chain h.inv.coherent.reaches_tail)
    (fun n hn => h.names_live hat hn) hc (.ofMemory memory) grant
  refine ⟨(hguards.before.mono hgrows.next).trans hgrows.head, fun hn => ?_, fun {n} hn => ?_⟩
  · -- What is reached newly is the call's own node, which is live as well.
    rcases h.reaches_advance hrun hn with hn | hn
    · exact (live_advance hrun hc).2 (hguards.live hn)
    · exact (live_advance hrun hc).2 (h.own hat hn)
  · have hwaits : c.Waits thread' (π n).place := by
      rcases h.reaches_advance hrun hn with hn | hn
      · exact hguards.waits hn
      · exact waits_of_not_mem (h.own_not_mem_places hat hn)
    refine waits_advance hc' hwaits (fun hplace => ?_) fun heq => ?_
    · exact hretires (by simpa using Call.pinned_of_retires? hplace)
    · rw [hstep, Call.pinned_rename]
      exact hpinned heq

omit hrun hc in
/-- The names that a thread knows after a step are reached from where those before it are. -/
private theorem names_advance {base : NodeId} (hguards : Guards c a π thread base)
    (hnames : ∀ n ∈ call.names, Reaches a.shared.next base n) {n : NodeId}
    (hn : n ∈ (call.step (.ofMemory memory) a.shared).2.names) :
    Reaches a.shared.next base n ∧ (n ∈ call.names ∨ call.loads? a.shared = some n) := by
  refine ⟨?_, Call.step_names hn⟩
  rcases Call.step_names hn with hn | hload
  · exact hnames n hn
  · -- It was the head, the tail, or a link of a node that is known.
    rcases Call.loads?_cases hload with rfl | rfl | ⟨k, hk, hnext⟩
    · exact hguards.before
    · exact hguards.before.trans h.inv.coherent.reaches_tail
    · exact (hnames k hk).tail hnext

omit hc in
/-- Whatever the head reaches after a step is live: it has reached it before, the node that the
step may have linked apart. -/
private theorem chain_advance {n : NodeId}
    (hn : Reaches (a.step (.advance thread memory)).shared.next
      (a.step (.advance thread memory)).shared.head n) :
    Live c a π n := by
  have hgrows := h.inv.grows [.advance thread memory]
  rcases h.reaches_advance hrun (hgrows.head.trans hn) with hn | hn
  · exact h.chain hn
  · exact h.own (System.running?_eq_some_iff.1 hrun).1 hn

/-- What a name means is noted when it is read, and stays so until it is read again. -/
private theorem meant_advance {thread' : Nat} {call' : Call α} {n : NodeId}
    (hat' : (a.step (.advance thread memory)).At thread' call') (hn : n ∈ call'.names) :
    (c.advance thread grant (call.rename π.place)).meant thread' (π n).place = (π n).number := by
  have hat := (System.running?_eq_some_iff.1 hrun).1
  have hc' : (call.rename π.place).allocates = false := by simpa using hc
  rw [System.step_advance hrun] at hat'
  rw [advance_meant hc', noted, h.alike.loads? fun n hn => h.names_live hat hn]
  rcases System.at_set hat' with ⟨rfl, rfl⟩ | ⟨hne, hat'⟩
  · obtain ⟨base, hguards, hbase⟩ := h.exists_guards hat
    obtain ⟨hreach, hknown⟩ := h.names_advance hguards hbase hn
    split
    · -- A name that has just been read means what is there now.
      exact (hguards.live hreach).number
    · -- Any other name means what it meant before.
      rename_i hload
      rcases hknown with hn | hn
      · exact h.meant hat hn
      · exact absurd ⟨rfl, by rw [hn]; rfl⟩ hload
  · rw [if_neg fun hload => hne hload.1]
    exact h.meant hat' hn

/-- What waits to be freed after a step is what has waited before, and the head that the call
has moved away from if it is retired now. -/
private theorem waiting_advance {place : NodeId}
    (hplace : place ∈ (c.advance thread grant (call.rename π.place)).places) :
    ∃ n m, Live c a π n ∧ (π n).place = place ∧ a.shared.next n = some m ∧
      Reaches a.shared.next m a.shared.head := by
  have hat := (System.running?_eq_some_iff.1 hrun).1
  have hc' : (call.rename π.place).allocates = false := by simpa using hc
  rw [advance_places hc'] at hplace
  rcases List.mem_append.1 hplace with hplace | hplace
  · cases call with
    | takeItem head next =>
      -- The head lies behind the node that it was moved to.
      obtain ⟨hnext, hhead, -⟩ := h.inv.knows hat
      obtain rfl : place = π.place head := by simpa [Call.rename, Call.retires?] using hplace
      exact ⟨head, next, h.names_live hat (by simp [Call.names]), rfl, hnext, hhead⟩
    | _ => cases hplace
  · exact h.waiting place hplace

/-- A step of a call that allocates nothing keeps the relation, without a change of names. -/
theorem advance :
    Mirror (c.advance thread grant (call.rename π.place)) (a.step (.advance thread memory)) π := by
  have hat := (System.running?_eq_some_iff.1 hrun).1
  have hc' : (call.rename π.place).allocates = false := by simpa using hc
  have hgrows : a.shared.Grows (a.step (.advance thread memory)).shared :=
    h.inv.grows [.advance thread memory]
  have hlive : ∀ {n : NodeId}, Live (c.advance thread grant (call.rename π.place))
      (a.step (.advance thread memory)) π n ↔ Live c a π n := live_advance hrun hc
  obtain ⟨halike, hstep⟩ := h.alike.step (h.chain .refl) (h.chain h.inv.coherent.reaches_tail)
    (fun n hn => h.names_live hat hn) hc (.ofMemory memory) grant
  have hadvance : a.step (.advance thread memory) = _ := System.step_advance hrun
  have hsize : (a.step (.advance thread memory)).shared.nodes.size = a.shared.nodes.size := by
    rw [hadvance]
    exact call.step_size _ _ hc
  have hsize' : (c.advance thread grant (call.rename π.place)).shared.nodes.size =
      c.shared.nodes.size := by
    rw [advance_toSystem hc']
    exact Call.step_size _ _ hc'
  exact {
    inv := h.inv.step _
    closed := (h.inv.change hrun).closed h.inv.coherent h.closed
    inj := fun hn hm => h.inj (hsize ▸ hn) (hsize ▸ hm)
    within := fun hn => by
      rw [hsize', advance_number hc']
      exact h.within (hsize ▸ hn)
    calls := by
      rw [advance_toSystem hc', hadvance, hstep, h.calls, List.map_set]
      rfl
    alike := by
      have halike' : (a.step (.advance thread memory)).shared.Alike (Live c a π) π.place
          (c.advance thread grant (call.rename π.place)).shared := by
        rw [advance_toSystem hc', hadvance]
        exact halike
      exact halike'.of_live hlive.1
    free_nodup := by
      rw [advance_free hc']
      exact h.free_nodup
    free_lt := by
      rw [advance_free hc', hsize']
      exact h.free_lt
    chain := fun hn => hlive.2 (h.chain_advance hrun hn)
    own := fun {thread' call' n} hat' hn => by
      rw [hadvance] at hat'
      rcases System.at_set hat' with ⟨rfl, rfl⟩ | ⟨-, hat'⟩
      · -- It still is the node that the call has had before.
        exact hlive.2 (h.own hat (Call.step_node? hc hn))
      · exact hlive.2 (h.own hat' hn)
    guard := fun {thread' call'} hat' hpinned => by
      rw [hadvance] at hat'
      rcases System.at_set hat' with ⟨rfl, rfl⟩ | ⟨hne, hat'⟩
      · -- The thread itself is still guarded by the node that has guarded it before.
        obtain ⟨base, hguards, hbase⟩ := h.exists_guards hat
        refine ⟨base, h.guards_advance hrun hc hguards (h.mem_pinned hat) fun _ => hpinned,
          fun n hn => ?_⟩
        exact (h.names_advance hguards hbase hn).1.mono hgrows.next
      · -- Another thread that is pinned was so when the step retired a node, if it did.
        obtain ⟨base', hguards', hbase'⟩ := h.guard hat' hpinned
        refine ⟨base', h.guards_advance hrun hc hguards' (fun _ => h.mem_pinned hat' hpinned)
          fun heq => absurd heq hne, fun n hn => (hbase' n hn).mono hgrows.next⟩
    meant := h.meant_advance hrun hc
    waiting := fun place hplace => by
      obtain ⟨n, m, hn, heq, hm, hhead⟩ := h.waiting_advance hrun hc hplace
      exact ⟨n, m, hlive.2 hn, heq, hgrows.next _ _ hm,
        (hhead.mono hgrows.next).trans hgrows.head⟩ }

end Advance

/-! ### A call that begins, and one that is refused -/

/-- A thread that comes to a point where it knows no node at all keeps the relation. -/
theorem enter {c' : Collector α} (hsystem : c'.toSystem =
      ⟨c.shared, c.calls.set thread (some (call.rename π.place))⟩)
    (hfree : c'.free = c.free) (hnumber : c'.number = c.number) (hmeant : c'.meant = c.meant)
    (hplaces : c'.places = c.places)
    (hwaits : ∀ {t : Nat} {p : NodeId}, c.Waits t p → t ≠ thread → c'.Waits t p)
    (hnames : call.names = []) (hnode : call.node? = none)
    (hinv : System.Inv ⟨a.shared, a.calls.set thread (some call)⟩) :
    Mirror c' ⟨a.shared, a.calls.set thread (some call)⟩ π := by
  have hshared : c'.shared = c.shared := by rw [hsystem]
  have hlive : ∀ {n : NodeId},
      Live c' ⟨a.shared, a.calls.set thread (some call)⟩ π n ↔ Live c a π n := by
    intro n
    have hallocated : c'.Allocated (π n).place ↔ c.Allocated (π n).place := by
      rw [Allocated, Allocated, hshared, hfree]
    constructor
    · intro hn
      exact ⟨hn.lt, hallocated.1 hn.allocated, hnumber ▸ hn.number⟩
    · intro hn
      exact ⟨hn.lt, hallocated.2 hn.allocated, hnumber ▸ hn.number⟩
  exact {
    inv := hinv
    closed := h.closed
    inj := h.inj
    within := by
      rw [hshared, hnumber]
      exact h.within
    calls := by
      rw [hsystem, h.calls, List.map_set]
      rfl
    alike := by
      rw [hshared]
      exact h.alike.of_live hlive.1
    free_nodup := by
      rw [hfree]
      exact h.free_nodup
    free_lt := by
      rw [hfree, hshared]
      exact h.free_lt
    chain := fun hn => hlive.2 (h.chain hn)
    own := fun {thread' call' n} hat hn => by
      rcases System.at_set hat with ⟨-, rfl⟩ | ⟨-, hat⟩
      · rw [hnode] at hn
        cases hn
      · exact hlive.2 (h.own hat hn)
    guard := fun {thread' call'} hat hpinned => by
      rcases System.at_set hat with ⟨-, rfl⟩ | ⟨hne, hat⟩
      · -- Nothing that waits is reached from the head, whoever it waits for.
        refine ⟨a.shared.head, ⟨.refl, fun hn => hlive.2 (h.chain hn), fun hn => ?_⟩, ?_⟩
        · exact waits_of_not_mem (hplaces ▸ h.not_mem_places hn)
        · rw [hnames]
          simp
      · obtain ⟨base, hguards, hbase⟩ := h.guard hat hpinned
        exact ⟨base, ⟨hguards.before, fun hn => hlive.2 (hguards.live hn),
          fun hn => hwaits (hguards.waits hn) hne⟩, hbase⟩
    meant := fun {thread' call' n} hat hn => by
      rw [hmeant]
      rcases System.at_set hat with ⟨-, rfl⟩ | ⟨-, hat⟩
      · rw [hnames] at hn
        cases hn
      · exact h.meant hat hn
    waiting := fun place hplace => by
      rw [hplaces] at hplace
      obtain ⟨n, m, hn, hrest⟩ := h.waiting place hplace
      exact ⟨n, m, hlive.2 hn, hrest⟩ }

/-! ### Freeing a node -/

/-- Freeing a node that waits for no thread any more keeps the relation: nothing reaches it that
a thread may still come to. -/
theorem collect {place : NodeId} (hmem : ⟨place, []⟩ ∈ c.waiting) (hnodup : c.places.Nodup) :
    Mirror (c.step (.collect place)) a π := by
  have hplace : place ∈ c.places := List.mem_map_of_mem hmem
  have hplaces := places_perm hmem
  obtain ⟨n₀, m₀, hn₀, rfl, hnext₀, hhead₀⟩ := h.waiting place hplace
  rw [step_collect hmem] at hplaces ⊢
  have hlive : ∀ {n : NodeId}, Live { c with
      waiting := c.waiting.erase ⟨(π n₀).place, []⟩
      free := (π n₀).place :: c.free
      deeds := .freed (c.incarnation (π n₀).place) :: c.deeds } a π n ↔
        Live c a π n ∧ (π n).place ≠ (π n₀).place := by
    intro n
    constructor
    · rintro ⟨hlt, hallocated, hnumber⟩
      obtain ⟨hsize, hfree⟩ := hallocated
      obtain ⟨hne, hfree⟩ := not_or.1 (List.mem_cons.not.1 hfree)
      exact ⟨⟨hlt, ⟨hsize, hfree⟩, hnumber⟩, hne⟩
    · rintro ⟨⟨hlt, ⟨hsize, hfree⟩, hnumber⟩, hne⟩
      exact ⟨hlt, ⟨hsize, List.mem_cons.not.2 (not_or.2 ⟨hne, hfree⟩)⟩, hnumber⟩
  exact {
    inv := h.inv
    closed := h.closed
    inj := h.inj
    within := h.within
    calls := h.calls
    alike := h.alike.of_live fun hn => (hlive.1 hn).1
    free_nodup := List.nodup_cons.2 ⟨hn₀.allocated.2, h.free_nodup⟩
    free_lt := by
      -- What is freed has been a place of the memory all along.
      intro p hp
      rcases List.mem_cons.1 hp with rfl | hp
      · exact hn₀.allocated.1
      · exact h.free_lt p hp
    chain := fun hn => hlive.2 ⟨h.chain hn, fun heq => h.not_mem_places hn (heq ▸ hplace)⟩
    own := fun hat hn =>
      hlive.2 ⟨h.own hat hn, fun heq => h.own_not_mem_places hat hn (heq ▸ hplace)⟩
    guard := fun {thread call} hat hpinned => by
      obtain ⟨base, hguards, hbase⟩ := h.guard hat hpinned
      refine ⟨base, ⟨hguards.before, fun hn => hlive.2 ⟨hguards.live hn, fun heq => ?_⟩,
        fun hn r hr => hguards.waits hn r (List.mem_of_mem_erase hr)⟩, hbase⟩
      -- The node waits for no thread, but it would have to wait for this one.
      exact List.not_mem_nil (hguards.waits hn _ hmem heq.symm)
    meant := h.meant
    waiting := fun place hplace' => by
      -- No place waits twice, so what is left waiting is elsewhere, and stays live.
      obtain ⟨hnot, -⟩ := List.nodup_cons.1 (hplaces.nodup_iff.1 hnodup)
      obtain ⟨n, m, hn, rfl, hrest⟩ :=
        h.waiting place (hplaces.mem_iff.2 (List.mem_cons_of_mem _ hplace'))
      exact ⟨n, m, hlive.2 ⟨hn, fun heq => hnot (heq ▸ hplace')⟩, rfl, hrest⟩ }

/-! ### A new node -/

section Born

variable {c' : Collector α} {item : α} {new : Incarnation}
  (hrun : a.running? thread = some (.allocate item)) (hborn : Born c c' thread item new)

include hrun hborn

omit h hborn in
/-- With memory an allocation adds a node at a new place. -/
theorem step_allocate : a.step (.advance thread true) =
    ⟨{ a.shared with nodes := a.shared.nodes.push ⟨some item, none⟩ },
      a.calls.set thread (some (.announce a.shared.nodes.size))⟩ := by
  rw [System.step_advance hrun]
  rfl

omit hrun in
/-- No older node has the new incarnation. -/
private theorem ne_new {n : NodeId} (hn : n < a.shared.nodes.size) : π n ≠ new := by
  intro heq
  obtain ⟨hlt, hle⟩ := h.within hn
  rw [heq] at hlt hle
  exact Nat.not_le_of_lt (hborn.later hlt) hle

omit h hborn hrun in
/-- The new node gets a name, and the older ones keep theirs. -/
theorem update_of_lt {n : NodeId} (hn : n < a.shared.nodes.size) :
    Function.update π a.shared.nodes.size new n = π n :=
  Function.update_of_ne (Nat.ne_of_lt hn) _ _

/-- Which of the older nodes are live does not change. -/
theorem live_old {n : NodeId} (hn : n < a.shared.nodes.size) :
    Live c' (a.step (.advance thread true)) (Function.update π a.shared.nodes.size new) n ↔
      Live c a π n := by
  have hupdate : Function.update π a.shared.nodes.size new n = π n := update_of_lt hn
  have hsize : n < (a.step (.advance thread true)).shared.nodes.size := by
    rw [step_allocate hrun]
    simpa using Nat.lt_succ_of_lt hn
  constructor
  · rintro ⟨-, hallocated, hnumber⟩
    rw [hupdate, hborn.allocated] at hallocated
    rw [hupdate, hborn.number] at hnumber
    split at hnumber
    · rename_i heq
      -- This would be an older node with the new incarnation.
      exact absurd (Incarnation.ext heq hnumber.symm) (h.ne_new hborn hn)
    · rename_i hne
      exact ⟨hn, hallocated.resolve_left hne, hnumber⟩
  · rintro ⟨-, hallocated, hnumber⟩
    have hne : (π n).place ≠ new.place := fun heq => hborn.unused (heq ▸ hallocated)
    exact {
      lt := hsize
      allocated := by
        rw [hupdate, hborn.allocated]
        exact .inr hallocated
      number := by
        rw [hupdate, hborn.number, if_neg hne]
        exact hnumber }

omit h in
/-- The new node is live. -/
private theorem live_new : Live c' (a.step (.advance thread true))
    (Function.update π a.shared.nodes.size new) a.shared.nodes.size where
  lt := by
    rw [step_allocate hrun]
    simp
  allocated := by
    rw [Function.update_self, hborn.allocated]
    exact .inl rfl
  number := by rw [Function.update_self, hborn.number, if_pos rfl]

/-- A node that is live now is the new one or was live before. -/
private theorem live_cases {n : NodeId} (hn : Live c' (a.step (.advance thread true))
    (Function.update π a.shared.nodes.size new) n) :
    n = a.shared.nodes.size ∨ (n < a.shared.nodes.size ∧ Live c a π n) := by
  have hlt := hn.lt
  rw [step_allocate hrun] at hlt
  rcases Nat.lt_succ_iff_lt_or_eq.1 (by simpa using hlt) with hlt | heq
  · exact .inr ⟨hlt, (h.live_old hrun hborn hlt).1 hn⟩
  · exact .inl heq

/-- With a new node, different nodes still have different names. -/
private theorem inj_born {n m : NodeId} (hn : n < (a.step (.advance thread true)).shared.nodes.size)
    (hm : m < (a.step (.advance thread true)).shared.nodes.size)
    (heq : Function.update π a.shared.nodes.size new n =
      Function.update π a.shared.nodes.size new m) : n = m := by
  rw [step_allocate hrun] at hn hm
  -- Older nodes keep their names, and the new node has a name that none of them has.
  rcases Nat.lt_succ_iff_lt_or_eq.1 (by simpa using hn) with hn | rfl
  · rw [update_of_lt hn] at heq
    rcases Nat.lt_succ_iff_lt_or_eq.1 (by simpa using hm) with hm | rfl
    · rw [update_of_lt hm] at heq
      exact h.inj hn hm heq
    · -- An older node cannot have the new name.
      rw [Function.update_self] at heq
      exact absurd heq (h.ne_new hborn hn)
  · rw [Function.update_self] at heq
    rcases Nat.lt_succ_iff_lt_or_eq.1 (by simpa using hm) with hm | rfl
    · rw [update_of_lt hm] at heq
      exact absurd heq.symm (h.ne_new hborn hm)
    · rfl

/-- A live node keeps its name, its link and its item while another node is made. -/
private theorem alike_born : (a.step (.advance thread true)).shared.Alike
    (Live c' (a.step (.advance thread true)) (Function.update π a.shared.nodes.size new))
    (Naming.place (Function.update π a.shared.nodes.size new)) c'.shared := by
  have hplace : ∀ {n : NodeId}, n < a.shared.nodes.size →
      Naming.place (Function.update π a.shared.nodes.size new) n = π.place n := fun hn => by
    rw [Naming.place, update_of_lt hn, Naming.place]
  have hself : Naming.place (Function.update π a.shared.nodes.size new) a.shared.nodes.size =
      new.place := by
    rw [Naming.place, Function.update_self]
  have hne : ∀ {n : NodeId}, Live c a π n → π.place n ≠ new.place := fun hn heq =>
    hborn.unused (heq ▸ hn.allocated)
  exact {
    head := by
      rw [hborn.head, h.alike.head, step_allocate hrun, hplace (h.chain .refl).lt]
    tail := by
      rw [hborn.tail, h.alike.tail, step_allocate hrun,
        hplace (h.chain h.inv.coherent.reaches_tail).lt]
    count := by
      rw [hborn.count, h.alike.count, step_allocate hrun]
    next := fun {n} hn => by
      rw [hborn.next]
      -- The new node has no link, and no live node links to it.
      rcases h.live_cases hrun hborn hn with rfl | ⟨hlt, hn⟩
      · rw [hself, if_pos rfl, step_allocate hrun, Shared.next_push]
        simp [Shared.next]
      · rw [hplace hlt, if_neg (hne hn), h.alike.next hn, step_allocate hrun, Shared.next_push]
        cases hm : a.shared.next n with
        | none => rfl
        | some m => rw [Option.map_some, Option.map_some, hplace (h.closed hm)]
    item := fun {n} hn => by
      rw [hborn.item]
      rcases h.live_cases hrun hborn hn with rfl | ⟨hlt, hn⟩
      · rw [hself, if_pos rfl, step_allocate hrun, Shared.item_push, if_pos rfl]
      · rw [hplace hlt, if_neg (hne hn), h.alike.item hn, step_allocate hrun, Shared.item_push,
          if_neg (Nat.ne_of_lt hlt)]
    lt := fun hn => ⟨hn.lt, hn.allocated.1⟩
    inj := fun {n m} hn hm heq => by
      -- Live nodes are present incarnations, so the place alone tells them apart.
      refine h.inj_born hrun hborn hn.lt hm.lt (Incarnation.ext heq ?_)
      rw [← hn.number, ← hm.number]
      exact congrArg c'.number heq }

/-- All calls keep the names of their nodes. -/
private theorem calls_born : c'.calls = (a.step (.advance thread true)).calls.map
    (Option.map (Call.rename (Naming.place (Function.update π a.shared.nodes.size new)))) := by
  have hcalls : a.calls.map (Option.map (Call.rename π.place)) =
      a.calls.map (Option.map
        (Call.rename (Naming.place (Function.update π a.shared.nodes.size new)))) := by
    refine List.map_congr_left fun o ho => ?_
    cases o with
    | none => rfl
    | some call =>
      -- All names in a call are those of older nodes.
      obtain ⟨thread', hat⟩ := List.mem_iff_getElem?.1 ho
      have hplace : ∀ {n : NodeId}, n < a.shared.nodes.size →
          π.place n = Naming.place (Function.update π a.shared.nodes.size new) n := fun hn => by
        rw [Naming.place, Naming.place, update_of_lt hn]
      refine congrArg some (Call.rename_congr (fun n hn => hplace (h.names_live hat hn).lt)
        (fun n hn => hplace (h.own hat hn).lt) ?_)
      rintro node tail rfl
      exact hplace (h.closed (h.inv.knows hat))
  rw [hborn.calls, h.calls, hcalls, step_allocate hrun, List.map_set]
  simp [Call.rename, Naming.place]

/-- A new node keeps the relation, once it has its name. -/
theorem born : Mirror c' (a.step (.advance thread true))
    (Function.update π a.shared.nodes.size new) := by
  have hat := (System.running?_eq_some_iff.1 hrun).1
  have hold : ∀ {n : NodeId}, Live c a π n → Live c' (a.step (.advance thread true))
      (Function.update π a.shared.nodes.size new) n :=
    fun hn => (h.live_old hrun hborn hn.lt).2 hn
  have hstep := step_allocate hrun
  have hnext : (a.step (.advance thread true)).shared.next = a.shared.next := by
    rw [hstep]
    exact funext (Shared.next_push a.shared item)
  have hhead : (a.step (.advance thread true)).shared.head = a.shared.head := by rw [hstep]
  exact {
    inv := h.inv.step _
    closed := (h.inv.change hrun).closed h.inv.coherent h.closed
    inj := h.inj_born hrun hborn
    within := fun {n} hn => by
      rw [hstep] at hn
      rcases Nat.lt_succ_iff_lt_or_eq.1 (by simpa using hn) with hn | rfl
      · -- An older node may lose its place to the new one, whose number is higher.
        obtain ⟨hlt, hle⟩ := h.within hn
        rw [update_of_lt hn, hborn.number]
        refine ⟨Nat.lt_of_lt_of_le hlt hborn.size, ?_⟩
        split
        · rename_i heq
          exact Nat.le_of_lt (Nat.lt_of_le_of_lt hle (heq ▸ hborn.later (heq ▸ hlt)))
        · exact hle
      · have hnew := live_new hrun hborn (π := π)
        exact ⟨hnew.allocated.1, Nat.le_of_eq hnew.number.symm⟩
    calls := h.calls_born hrun hborn
    alike := h.alike_born hrun hborn
    free_nodup := h.free_nodup.sublist hborn.free
    free_lt := fun p hp => Nat.lt_of_lt_of_le (h.free_lt p (hborn.free.subset hp)) hborn.size
    chain := fun {n} hn => by
      rw [hnext, hhead] at hn
      exact hold (h.chain hn)
    own := fun {thread' call' n} hat' hn => by
      rw [hstep] at hat'
      rcases System.at_set hat' with ⟨-, rfl⟩ | ⟨-, hat'⟩
      · cases hn
        exact live_new hrun hborn
      · exact hold (h.own hat' hn)
    guard := fun {thread' call'} hat' hpinned => by
      rw [hstep] at hat'
      rcases System.at_set hat' with ⟨-, rfl⟩ | ⟨hne, hat'⟩
      · -- A call that has just allocated is not pinned yet.
        cases hpinned
      · obtain ⟨base, hguards, hbase⟩ := h.guard hat' hpinned
        rw [hnext]
        refine ⟨base, ⟨?_, fun hn => ?_, fun hn => ?_⟩, hbase⟩
        · rw [hnext, hhead]
          exact hguards.before
        · rw [hnext] at hn
          exact hold (hguards.live hn)
        · rw [hnext] at hn
          rw [update_of_lt (hguards.live hn).lt]
          exact hborn.waits (hguards.waits hn) hne
    meant := fun {thread' call' n} hat' hn => by
      rw [hstep] at hat'
      -- The new node's name has been read by nobody, not even by the call that owns it.
      rcases System.at_set hat' with ⟨-, rfl⟩ | ⟨-, hat'⟩
      · cases hn
      · rw [hborn.meant, update_of_lt (h.names_live hat' hn).lt]
        exact h.meant hat' hn
    waiting := fun place hplace => by
      rw [hborn.places] at hplace
      obtain ⟨n, m, hn, heq, hrest⟩ := h.waiting place hplace
      rw [hnext, hhead]
      refine ⟨n, m, hold hn, ?_, hrest⟩
      rw [update_of_lt hn.lt]
      exact heq }

end Born

end Mirror

end AtomicFifo.Collector

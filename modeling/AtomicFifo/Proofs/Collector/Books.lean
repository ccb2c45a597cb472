import AtomicFifo.Proofs.Call.Renaming
import AtomicFifo.Proofs.System.Invariant

/-!
# What a step writes into the books

A step of a call that allocates nothing leaves the places and their incarnations as they are. It
notes which node it has read the name of, and what it has done to which node; what it retires
waits for all threads that are pinned, and a thread that is pinned no more is waited for no
longer. A step that allocates does none of this, and whether the allocator hands out a place
that is new or one that is free, the node is a new incarnation of it.

* `advance_eq`                     a step that allocates nothing
* `waits_advance`                  what is waited for stays so
* `born_fresh`, `born_recycled`    a step that allocates a node
-/

namespace AtomicFifo.Collector

universe u

variable {α : Type u} {s : Collector α} {thread : Nat} {grant : Grant} {call : Call α}

/-- The places that wait to be freed. -/
def places (s : Collector α) : List NodeId := s.waiting.map (·.place)

/-- A place waits at least for this thread before it is freed, if it waits at all. -/
def Waits (s : Collector α) (thread : Nat) (place : NodeId) : Prop :=
  ∀ r ∈ s.waiting, r.place = place → thread ∈ r.waitsFor

/-- Nothing waits at a place where no retired node is. -/
theorem waits_of_not_mem {place : NodeId} (h : place ∉ s.places) : s.Waits thread place := by
  rintro r hr rfl
  exact absurd (List.mem_map_of_mem hr) h

/-- The pinned threads are those in a call that is pinned. -/
theorem mem_pinned : thread ∈ s.pinned ↔
    ∃ call, s.running? thread = some call ∧ call.pinned = true := by
  simp only [pinned, List.mem_filter, List.mem_range, Option.any_eq_true]
  constructor
  · rintro ⟨-, call, hrun, hpinned⟩
    exact ⟨call, hrun, hpinned⟩
  · rintro ⟨call, hrun, hpinned⟩
    -- A thread in a call is one of those that there are.
    obtain ⟨hlt, -⟩ := List.getElem?_eq_some_iff.1 (System.running?_eq_some_iff.1 hrun).1
    exact ⟨hlt, call, hrun, hpinned⟩

/-- A pin that is given up leaves every retired node where it is. -/
theorem places_unpin : (s.unpin thread).places = s.places := by
  simp [places, unpin, Function.comp_def]

/-- A node that waits for another thread goes on doing so when one gives up its pin. -/
theorem waits_unpin {thread' : Nat} {place : NodeId} (h : s.Waits thread' place)
    (hne : thread' ≠ thread) : (s.unpin thread).Waits thread' place := by
  intro r hr hplace
  obtain ⟨r', hr', rfl⟩ := List.mem_map.1 hr
  exact List.mem_filter.2 ⟨h r' hr' hplace, by simpa using hne⟩

/-! ### The books of a step -/

/-- What each thread means once a thread has read a name, if it has read one. -/
def noted (s : Collector α) (thread : Nat) (loaded : Option NodeId) (t : Nat) (p : NodeId) : Nat :=
  if t = thread ∧ loaded = some p then s.number p else s.meant t p

/-- What a step does to nodes, the latest deed first. -/
def doings (s : Collector α) (thread : Nat) (call : Call α) : List Deed :=
  (call.retires?.map fun place => .retired (s.incarnation place)).toList ++
    ((call.takes?.map fun place => .taken (s.callId thread) (s.incarnation place)).toList ++
      ((call.crowns? s.shared).map fun place =>
        .crowned (s.callId thread) (s.incarnation place)).toList)

/-- Noting what a step has loaded, if anything, adds to what is meant by the thread. -/
private theorem note_elim (s : Collector α) (thread : Nat) (o : Option NodeId) :
    o.elim s (s.note thread) = { s with meant := s.noted thread o } := by
  cases o with
  | none =>
    have hmeant : s.meant = s.noted thread none := by
      -- Without a load nothing that is meant changes.
      funext t p
      simp [noted]
    simp [← hmeant]
  | some q =>
    have hmeant : (s.note thread q).meant = s.noted thread (some q) := by
      funext t p
      simp only [note, noted, Option.some.injEq, @eq_comm _ q]
      split
      · rename_i heq
        rw [heq.2]
      · rfl
    simp [note, ← hmeant]

/-- Writing down a new sentinel, if there is one, adds one deed. -/
private theorem crown_elim (s : Collector α) (thread : Nat) (o : Option NodeId) :
    o.elim s (s.crown thread) = { s with
      deeds := (o.map fun p => .crowned (s.callId thread) (s.incarnation p)).toList ++
        s.deeds } := by
  cases o <;> rfl

/-- Writing down an item taken out, if there is one, adds one deed. -/
private theorem take_elim (s : Collector α) (thread : Nat) (o : Option NodeId) :
    o.elim s (s.take thread) = { s with
      deeds := (o.map fun p => .taken (s.callId thread) (s.incarnation p)).toList ++
        s.deeds } := by
  cases o <;> rfl

/-- Retiring a node, if there is one, makes it wait for the pinned threads. -/
private theorem retire_elim (s : Collector α) (o : Option NodeId) :
    o.elim s s.retire = { s with
      waiting := (o.map fun p => ⟨p, s.pinned⟩).toList ++ s.waiting
      deeds := (o.map fun p => .retired (s.incarnation p)).toList ++ s.deeds } := by
  cases o <;> rfl

/-- The books before a step that allocates nothing. -/
private theorem record_eq (hc : call.allocates = false) : s.record thread grant call = { s with
    meant := s.noted thread (call.loads? s.shared)
    waiting := (call.retires?.map fun place => ⟨place, s.pinned⟩).toList ++ s.waiting
    deeds := s.doings thread call ++ s.deeds } := by
  have hreuse : reuses? grant call = none := by
    cases call with
    | allocate item => cases hc
    | _ => rfl
  -- Each entry leaves alone what the later ones look at, so their order does not matter.
  simp only [record, hreuse, Option.elim_none, note_elim, crown_elim, take_elim, retire_elim]
  simp [doings, callId, incarnation, pinned]

/-! ### The step itself -/

/-- The state after a step that allocates nothing, before the thread is unpinned. -/
def booked (s : Collector α) (thread : Nat) (grant : Grant) (call : Call α) : Collector α :=
  { s with
    shared := (call.step grant s.shared).1
    calls := s.calls.set thread (some (call.step grant s.shared).2)
    meant := s.noted thread (call.loads? s.shared)
    waiting := (call.retires?.map fun place => ⟨place, s.pinned⟩).toList ++ s.waiting
    deeds := s.doings thread call ++ s.deeds }

/-- A step adds the node that it retires to those that wait. -/
private theorem places_booked :
    (s.booked thread grant call).places = call.retires?.toList ++ s.places := by
  unfold places booked
  cases call.retires? <;> rfl

section NotAllocating

variable (hc : call.allocates = false)

include hc

/-- A step writes its deeds down, and gives up the pin if the call no longer needs it. -/
theorem advance_eq : s.advance thread grant call =
    if (call.step grant s.shared).2.pinned then s.booked thread grant call
    else (s.booked thread grant call).unpin thread := by
  unfold advance
  rw [record_eq hc]
  rfl

/-- To the queue and the calls a step does what it does without a collector. -/
theorem advance_toSystem : (s.advance thread grant call).toSystem =
    ⟨(call.step grant s.shared).1, s.calls.set thread (some (call.step grant s.shared).2)⟩ := by
  rw [advance_eq hc]
  split <;> rfl

/-- A step that allocates nothing leaves the free places as they are. -/
theorem advance_free : (s.advance thread grant call).free = s.free := by
  rw [advance_eq hc]
  split <;> rfl

/-- A step that allocates nothing leaves the numbers of the places as they are. -/
theorem advance_number : (s.advance thread grant call).number = s.number := by
  rw [advance_eq hc]
  split <;> rfl

/-- A step begins no call. -/
private theorem advance_begun : (s.advance thread grant call).begun = s.begun := by
  rw [advance_eq hc]
  split <;> rfl

/-- A step leaves the calls their names. -/
theorem advance_callId (thread' : Nat) :
    (s.advance thread grant call).callId thread' = s.callId thread' := by
  rw [callId, advance_begun hc, callId]

/-- A step changes what is meant by what it loads. -/
theorem advance_meant :
    (s.advance thread grant call).meant = s.noted thread (call.loads? s.shared) := by
  rw [advance_eq hc]
  split <;> rfl

/-- A step adds its own deeds to those before it. -/
theorem advance_deeds :
    (s.advance thread grant call).deeds = s.doings thread call ++ s.deeds := by
  rw [advance_eq hc]
  split <;> rfl

/-- After a step the node that it retires waits with the others. -/
theorem advance_places :
    (s.advance thread grant call).places = call.retires?.toList ++ s.places := by
  rw [advance_eq hc]
  split
  · exact places_booked
  · rw [places_unpin, places_booked]

/-- A step makes nothing wait less for a thread that stays pinned, and what it retires waits for
all that are pinned. -/
theorem waits_advance {thread' : Nat} {place : NodeId} (h : s.Waits thread' place)
    (hretires : call.retires? = some place → thread' ∈ s.pinned)
    (hpinned : thread' = thread → (call.step grant s.shared).2.pinned = true) :
    (s.advance thread grant call).Waits thread' place := by
  have hbooked : (s.booked thread grant call).Waits thread' place := by
    intro r hr hplace
    rcases List.mem_append.1 hr with hr | hr
    · -- What is retired now waits for all that are pinned.
      obtain ⟨p, hp, rfl⟩ := Option.map_eq_some_iff.1 (Option.mem_toList.1 hr)
      subst hplace
      exact hretires hp
    · exact h r hr hplace
  -- If the step unpins its thread, that thread is not the one in question.
  rw [advance_eq hc]
  split
  · exact hbooked
  · rename_i hunpinned
    exact waits_unpin hbooked fun heq => hunpinned (hpinned heq)

end NotAllocating

/-! ### The step that allocates -/

/-- A refused allocation ends the call and changes nothing of the queue. -/
theorem advance_refused (item : α) : s.advance thread .refused (.allocate item) =
    unpin { s with calls := s.calls.set thread (some (.done (.refused item))) } thread := rfl

/-- A thread has been given a node: a place that no node has now, as an incarnation that no node
has had before. -/
structure Born (s s' : Collector α) (thread : Nat) (item : α) (new : Incarnation) : Prop where
  calls : s'.calls = s.calls.set thread (some (.announce new.place))
  head : s'.shared.head = s.shared.head
  tail : s'.shared.tail = s.shared.tail
  count : s'.shared.count = s.shared.count
  size : s.shared.nodes.size ≤ s'.shared.nodes.size
  next : ∀ p, s'.shared.next p = if p = new.place then none else s.shared.next p
  item : ∀ p, s'.shared.item p = if p = new.place then some item else s.shared.item p
  allocated : ∀ p, s'.Allocated p ↔ p = new.place ∨ s.Allocated p
  number : ∀ p, s'.number p = if p = new.place then new.number else s.number p
  -- The place holds no node, and had smaller numbers if it held one before.
  unused : ¬ s.Allocated new.place
  later : new.place < s.shared.nodes.size → s.number new.place < new.number
  free : s'.free.Sublist s.free
  meant : s'.meant = s.meant
  begun : s'.begun = s.begun
  deeds : s'.deeds = s.deeds
  places : s'.places = s.places
  waits : ∀ {t : Nat} {p : NodeId}, s.Waits t p → t ≠ thread → s'.Waits t p

/-- A place that no node has had before. -/
theorem born_fresh (thread : Nat) (hfree : ∀ p ∈ s.free, p < s.shared.nodes.size) (item : α) :
    Born s (s.advance thread .fresh (.allocate item)) thread item
      ⟨s.shared.nodes.size, s.number s.shared.nodes.size⟩ where
  calls := rfl
  head := rfl
  tail := rfl
  count := rfl
  size := by
    show s.shared.nodes.size ≤ (s.shared.nodes.push ⟨some item, none⟩).size
    simp
  next p := by
    show ({ s.shared with nodes := s.shared.nodes.push ⟨some item, none⟩ } : Shared α).next p = _
    rw [Shared.next_push]
    split
    · rename_i heq
      simp [heq, Shared.next]
    · rfl
  item p := Shared.item_push s.shared item p
  allocated p := by
    show p < (s.shared.nodes.push ⟨some item, none⟩).size ∧ p ∉ s.free ↔ _
    rw [Array.size_push]
    unfold Allocated
    -- The new place is the one behind all others, and it is not free.
    constructor
    · rintro ⟨hlt, hnot⟩
      rcases Nat.lt_succ_iff_lt_or_eq.1 hlt with hlt | heq
      · exact .inr ⟨hlt, hnot⟩
      · exact .inl heq
    · rintro (rfl | ⟨hlt, hnot⟩)
      · exact ⟨Nat.lt_succ_self _, fun hmem => Nat.lt_irrefl _ (hfree _ hmem)⟩
      · exact ⟨Nat.lt_succ_of_lt hlt, hnot⟩
  number p := by
    show s.number p = _
    split
    · rename_i heq
      rw [heq]
    · rfl
  unused h := Nat.lt_irrefl _ h.1
  later h := absurd h (Nat.lt_irrefl _)
  free := List.Sublist.refl _
  meant := rfl
  begun := rfl
  deeds := rfl
  places := places_unpin
  waits h hne := waits_unpin h hne

/-- A place that is handed out again. -/
theorem born_recycled (thread : Nat) {place : NodeId} (hmem : place ∈ s.free)
    (hnodup : s.free.Nodup) (hlt : place < s.shared.nodes.size) (item : α) :
    Born s (s.advance thread (.recycled place) (.allocate item)) thread item
      ⟨place, s.number place + 1⟩ where
  calls := rfl
  head := rfl
  tail := rfl
  count := rfl
  size := by
    show s.shared.nodes.size ≤ (s.shared.nodes.setIfInBounds place ⟨some item, none⟩).size
    simp
  next p := by
    -- The link of the freed node is gone with it.
    show ({ s.shared with
      nodes := s.shared.nodes.setIfInBounds place ⟨some item, none⟩ } : Shared α).next p = _
    simp only [Shared.next, Array.getElem?_setIfInBounds, @eq_comm _ place]
    split
    · simp
    · rfl
  item p := by
    show ({ s.shared with
      nodes := s.shared.nodes.setIfInBounds place ⟨some item, none⟩ } : Shared α).item p = _
    simp only [Shared.item, Array.getElem?_setIfInBounds, @eq_comm _ place]
    split
    · simp
    · rfl
  allocated p := by
    show p < (s.shared.nodes.setIfInBounds place ⟨some item, none⟩).size ∧
      p ∉ s.free.erase place ↔ _
    rw [Array.size_setIfInBounds, hnodup.mem_erase_iff]
    unfold Allocated
    -- The place is not free any more, and nothing changes for the others.
    by_cases heq : p = place
    · simp [heq, hlt]
    · simp [heq]
  number p := by
    show (if p = place then s.number p + 1 else s.number p) = _
    split
    · rename_i heq
      rw [heq]
    · rfl
  unused h := h.2 hmem
  later _ := Nat.lt_succ_self _
  free := List.erase_sublist
  meant := rfl
  begun := rfl
  deeds := rfl
  places := places_unpin
  waits h hne := waits_unpin h hne

/-! ### Freeing a node -/

/-- A retired node that nobody is waited for at can be freed. -/
theorem step_collect {place : NodeId} (h : ⟨place, []⟩ ∈ s.waiting) :
    s.step (.collect place) = { s with
      waiting := s.waiting.erase ⟨place, []⟩
      free := place :: s.free
      deeds := .freed (s.incarnation place) :: s.deeds } := by
  simp [step, h]

/-- No other place is freed. -/
theorem step_collect_of_not_mem {place : NodeId} (h : ⟨place, []⟩ ∉ s.waiting) :
    s.step (.collect place) = s := by
  simp [step, h]

/-- What waits after one node has been freed is the rest. -/
theorem places_perm {place : NodeId} (h : ⟨place, []⟩ ∈ s.waiting) :
    s.places.Perm (place :: (s.step (.collect place)).places) := by
  rw [step_collect h]
  exact (List.perm_cons_erase h).map (·.place)

end AtomicFifo.Collector

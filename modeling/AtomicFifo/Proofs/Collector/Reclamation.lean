import AtomicFifo.Proofs.Collector.Chronicle

/-!
# Safe reclamation

Places are used again, and still no thread can tell: a run with a collector is, up to the names
of the nodes, a run of a system that hands out no place twice.

* `reclamation_run`   every name that a thread holds means the node that it meant when the thread
  has read it, nothing is done to a node that is not due, and what has been retired is not
  reached any more
-/

namespace AtomicFifo.Collector

universe u

open Links

variable {α : Type u} {c : Collector α} {a : System α} {π : Naming}

/-- At the start both sides have the sentinel alone, under its first name. -/
private theorem mirror_init (threads : Nat) :
    Mirror (init threads : Collector α) (.init threads) fun _ => .first := by
  have hnext : ∀ n, (Shared.init : Shared α).next n = none := by
    intro n
    cases n <;> rfl
  have hlive : ∀ {n : NodeId}, n = 0 →
      Live (init threads : Collector α) (.init threads) (fun _ => .first) n := by
    rintro n rfl
    exact ⟨Nat.zero_lt_one, ⟨Nat.zero_lt_one, List.not_mem_nil⟩, rfl⟩
  -- There is one node, so all live nodes are the same.
  have hzero : ∀ {n : NodeId}, n < (Shared.init : Shared α).nodes.size → n = 0 :=
    fun hn => Nat.lt_one_iff.1 hn
  exact {
    inv := System.inv_init threads
    closed := fun {n m} hm => by
      rw [show (System.init threads : System α).shared.next n = none from hnext n] at hm
      cases hm
    inj := fun hn hm _ => (hzero hn).trans (hzero hm).symm
    within := fun _ => ⟨Nat.zero_lt_one, Nat.le_refl _⟩
    calls := by simp [init, System.init]
    alike := {
      head := rfl
      tail := rfl
      count := rfl
      next := fun {n} _ => by
        rw [show (System.init threads : System α).shared.next n = none from hnext n]
        exact hnext _
      item := fun {n} hn => by
        obtain rfl := hzero hn.lt
        rfl
      lt := fun hn => ⟨hn.lt, Nat.zero_lt_one⟩
      inj := fun hn hm _ => (hzero hn.lt).trans (hzero hm.lt).symm }
    free_nodup := List.nodup_nil
    free_lt := fun p hp => absurd hp List.not_mem_nil
    chain := fun hn => hlive (hn.eq_of_none (hnext _))
    own := fun h => absurd h System.not_at_init
    guard := fun h => absurd h System.not_at_init
    meant := fun h => absurd h System.not_at_init
    waiting := fun place hplace => absurd hplace List.not_mem_nil }

/-- At the start nothing has been done. -/
private theorem chronicle_init (threads : Nat) :
    Chronicle (init threads : Collector α) (.init threads) fun _ => .first where
  proper := .nil
  first := rfl
  origin := .refl
  head := .inl rfl
  crowned h := absurd h List.not_mem_nil
  retired h := absurd h List.not_mem_nil
  freed h := absurd h List.not_mem_nil
  taking h := absurd h System.not_at_init
  untaken h := absurd h List.not_mem_nil
  places_nodup := List.nodup_nil
  waiting _ h := absurd h List.not_mem_nil

/-! ### One move -/

/-- A step of a thread in a call is mirrored by a step of the same thread. -/
private theorem Mirror.exists_advance (h : Mirror c a π) (hk : Chronicle c a π) {thread : Nat}
    {call : Call α} {grant : Grant} (hrun : a.running? thread = some call)
    (hgrants : c.grants grant = true) :
    ∃ memory π', Mirror (c.advance thread grant (call.rename π.place))
        (a.step (.advance thread memory)) π' ∧
      Chronicle (c.advance thread grant (call.rename π.place))
        (a.step (.advance thread memory)) π' := by
  by_cases hc : call.allocates = true
  · cases call with
    | allocate item =>
      cases grant with
      | refused =>
        obtain ⟨hmirror, hrest⟩ := h.advance_refused hrun
        exact ⟨false, π, hmirror, hk.rest h hrest⟩
      | fresh =>
        have hborn := born_fresh thread h.free_lt item
        exact ⟨true, _, h.born hrun hborn, hk.rest h (h.rests_born hrun hborn)⟩
      | recycled place =>
        have hmem : place ∈ c.free := by simpa [grants] using hgrants
        have hborn := born_recycled thread hmem h.free_nodup (h.free_lt place hmem) item
        exact ⟨true, _, h.born hrun hborn, hk.rest h (h.rests_born hrun hborn)⟩
    | _ => cases hc
  · have hc : call.allocates = false := Bool.eq_false_iff.2 hc
    refine ⟨true, π, h.advance hrun hc, ?_⟩
    -- Such a step does something to a node if it moves the head or takes an item out.
    cases hcrown : call.crowns? a.shared with
    | some m => exact hk.crown h hrun hcrown
    | none =>
      cases htake : call.takes? with
      | none => exact hk.rest h (h.rests_advance hrun hc hcrown htake)
      | some next =>
        cases call with
        | takeItem head next => exact hk.take h hrun rfl
        | _ => cases htake

/-- A move of a thread is mirrored by a move of the same thread, and one of the collector by
none. -/
theorem Mirror.exists_step (h : Mirror c a π) (hk : Chronicle c a π) (move : Move α) :
    ∃ moves π', Mirror (c.step move) (a.run moves) π' ∧
      Chronicle (c.step move) (a.run moves) π' := by
  cases move with
  | start thread request =>
    -- A call that is begun is begun on both sides.
    by_cases hidle : a.idle thread = true
    · obtain ⟨hmirror, hrest⟩ := h.step_start request hidle
      exact ⟨[.start thread request], π, hmirror, hk.rest h hrest⟩
    · have hstep : c.step (.start thread request) = c := by
        rw [← h.idle_eq] at hidle
        simp only [step, hidle, Bool.false_eq_true, ↓reduceIte]
      rw [hstep]
      exact ⟨[], π, h, hk⟩
  | advance thread grant =>
    cases hrun : a.running? thread with
    | none =>
      have hstep : c.step (.advance thread grant) = c := by
        simp [step, h.running?_eq, hrun]
      rw [hstep]
      exact ⟨[], π, h, hk⟩
    | some call =>
      -- Where the allocator does not answer so, nothing happens on either side.
      by_cases hgrants : c.grants grant = true
      · have hstep : c.step (.advance thread grant) =
            c.advance thread grant (call.rename π.place) := by
          simp [step, h.running?_eq, hrun, hgrants]
        obtain ⟨memory, π', hmirror, hchronicle⟩ := h.exists_advance hk hrun hgrants
        rw [hstep]
        exact ⟨[.advance thread memory], π', hmirror, hchronicle⟩
      · have hstep : c.step (.advance thread grant) = c := by
          simp [step, h.running?_eq, hrun, hgrants]
        rw [hstep]
        exact ⟨[], π, h, hk⟩
  | collect place =>
    -- Freeing a node is no move of the other side, which has no collector.
    by_cases hmem : ⟨place, []⟩ ∈ c.waiting
    · exact ⟨[], π, h.collect hmem hk.places_nodup, hk.collect h hmem⟩
    · rw [step_collect_of_not_mem hmem]
      exact ⟨[], π, h, hk⟩

/-- A run with a collector is mirrored by a run without reuse. -/
private theorem exists_mirror (threads : Nat) (moves : List (Move α)) :
    ∃ moves' π, Mirror ((init threads).run moves) ((System.init threads).run moves') π ∧
      Chronicle ((init threads).run moves) ((System.init threads).run moves') π := by
  have hrun : ∀ {c : Collector α} {moves' : List (AtomicFifo.Move α)} {π : Naming},
      Mirror c ((System.init threads).run moves') π →
      Chronicle c ((System.init threads).run moves') π →
      ∃ moves' π, Mirror (c.run moves) ((System.init threads).run moves') π ∧
        Chronicle (c.run moves) ((System.init threads).run moves') π := by
    -- Each move is mirrored from wherever the moves before it have led.
    induction moves with
    | nil => exact fun {c moves' π} h hk => ⟨moves', π, h, hk⟩
    | cons move moves ih =>
      intro c moves' π h hk
      obtain ⟨moves'', π', hmirror, hchronicle⟩ := h.exists_step hk move
      rw [← System.run_append] at hmirror hchronicle
      exact ih hmirror hchronicle
  exact @hrun _ [] _ (mirror_init threads) (chronicle_init threads)

/-! ### What a run keeps -/

/-- Places are reached from that of a node on the chain as nodes are reached from the node. -/
private theorem Mirror.reaches (h : Mirror c a π) {k : NodeId} {place : NodeId}
    (hk : Reaches a.shared.next a.shared.head k)
    (hreach : Reaches c.shared.next (π.place k) place) :
    ∃ n, Reaches a.shared.next a.shared.head n ∧ π.place n = place := by
  induction hreach with
  | refl => exact ⟨k, hk, rfl⟩
  | tail _ hnext ih =>
    obtain ⟨n, hn, rfl⟩ := ih
    rw [h.alike.next (h.chain hn)] at hnext
    obtain ⟨m, hm, rfl⟩ := Option.map_eq_some_iff.1 hnext
    exact ⟨m, hn.tail hm, rfl⟩

/-- A name that a thread has read still means the same node. -/
theorem Mirror.sound (h : Mirror c a π) {thread : Nat} {call : Call α} {n : NodeId}
    (hat : a.At thread call) (hn : n ∈ call.names) : c.Sound thread (π.place n) := by
  have hlive := h.names_live hat hn
  exact ⟨hlive.allocated, (h.meant hat hn).trans hlive.number.symm⟩

/-- Along every run of every number of threads, whatever places are used again:

* every name that a thread in a call has read means a node that is not freed, and the same one
  as when the thread has read the name; so do the names that it follows and those that it
  expects the head or the tail to have,
* nothing is done to a node that is not due: above all no node is retired or freed twice, and
  its item is taken out once, by the call that has made it the sentinel, and before it is freed,
* what is reached from the head or from the tail is neither freed nor retired. -/
theorem reclamation_run (threads : Nat) (moves : List (Move α)) :
    let s := (init threads).run moves
    (∀ thread call, s.running? thread = some call →
      (∀ place ∈ call.names, s.Sound thread place) ∧
      (∀ place, call.accesses? = some place → s.Sound thread place) ∧
      ∀ place, call.expects? = some place → s.Sound thread place) ∧
    Proper s.deeds ∧
    ∀ place, Reaches s.shared.next s.shared.head place ∨
        Reaches s.shared.next s.shared.tail place →
      s.Allocated place ∧ .retired (s.incarnation place) ∉ s.deeds := by
  obtain ⟨moves', π, h, hk⟩ := exists_mirror threads moves
  have hsound : ∀ thread call, ((init threads).run moves).running? thread = some call →
      ∀ place ∈ call.names, ((init threads).run moves).Sound thread place := by
    intro thread call hrun place hplace
    rw [h.running?_eq] at hrun
    obtain ⟨call', hrun', rfl⟩ := Option.map_eq_some_iff.1 hrun
    rw [Call.names_rename] at hplace
    obtain ⟨n, hn, rfl⟩ := List.mem_map.1 hplace
    exact h.sound (System.running?_eq_some_iff.1 hrun').1 hn
  refine ⟨fun thread call hrun => ⟨hsound thread call hrun, fun place hplace => ?_,
    fun place hplace => ?_⟩, hk.proper, fun place hplace => ?_⟩
  · exact hsound thread call hrun place (Call.mem_names_of_accesses? hplace)
  · exact hsound thread call hrun place (Call.mem_names_of_expects? hplace)
  · obtain ⟨n, hn, rfl⟩ : ∃ n, Reaches ((System.init threads).run moves').shared.next
        ((System.init threads).run moves').shared.head n ∧ π.place n = place := by
      -- The tail is reached from the head, so there is one case only.
      rcases hplace with hplace | hplace
      · rw [h.alike.head] at hplace
        exact h.reaches .refl hplace
      · rw [h.alike.tail] at hplace
        exact h.reaches h.inv.coherent.reaches_tail hplace
    have hlive := h.chain hn
    refine ⟨hlive.allocated, fun hmem => ?_⟩
    rw [Naming.place, hlive.eq] at hmem
    -- A node that has been retired lies before the head.
    obtain ⟨n', hn', hname, m, hm, hreach⟩ := hk.retired hmem
    obtain rfl := h.inj hn' hlive.lt hname
    exact h.inv.coherent.not_reached hm hreach hn

end AtomicFifo.Collector

import AtomicFifo.Proofs.Queue.Turnover
import Mathlib.Data.List.Perm.Basic

/-!
# What became of items and nodes over the lives of queues

Whatever a user does with any number of queues, every item passed to one of them is in one place:
in the queue, returned, handed back, or dropped by the end of the queue; and every node that a
queue has allocated is in its chain until it is retired by a dequeue or freed by the end.

* `Tallies`               what a record says of the items, and one entry more
* `Watched.serve_sound`   one use of a queue
* `Watched.serve_drop`, `Watched.serve_release`  its two ways to end
* `Estate.Settled`, `Estate.accounted_run`  any uses of any queues
-/

namespace AtomicFifo

universe u

variable {α : Type u}

/-! ### The record -/

/-- A record that accounts for all items passed while these ones have not been returned: each item
was accepted or handed back, and the items accepted were returned in their order. -/
structure Tallies (record : List (Entry α)) (left : List α) : Prop where
  passed_perm : (record.filterMap Entry.passed?).Perm
    (record.filterMap Entry.accepted? ++ record.filterMap Entry.handedBack?)
  accepted_eq : record.filterMap Entry.accepted? = record.flatMap Entry.returned ++ left

namespace Tallies

variable {record : List (Entry α)} {left : List α}

/-- Without entries there is nothing to tally. -/
theorem nil : Tallies ([] : List (Entry α)) [] := ⟨.nil, rfl⟩

/-- An enqueue that is accepted adds its item to those that are left. -/
private theorem accepted (h : Tallies record left) (memory : Bool) (a : α) :
    Tallies (record ++ [(.enqueue memory a, .enqueued (.ok ()))]) (left ++ [a]) := by
  constructor
  · simp only [List.filterMap_append]
    -- The new item stands behind those handed back, and belongs before them.
    refine (h.passed_perm.append_right [a]).trans ?_
    show ((_ ++ _) ++ [a]).Perm ((_ ++ [a]) ++ (_ ++ []))
    rw [List.append_nil, List.append_assoc, List.append_assoc]
    exact List.perm_append_comm.append_left _
  · simp only [List.filterMap_append, List.flatMap_append, h.accepted_eq]
    show (_ ++ _) ++ [a] = (_ ++ []) ++ _
    rw [List.append_nil, List.append_assoc]

/-- An enqueue that is refused hands its item back, and none is left of it. -/
private theorem refused (h : Tallies record left) (memory : Bool) (a : α) :
    Tallies (record ++ [(.enqueue memory a, .enqueued (.error ⟨a⟩))]) left := by
  constructor
  · simp only [List.filterMap_append]
    -- The item is the last one handed back, as it is the last one passed.
    refine (h.passed_perm.append_right [a]).trans ?_
    show ((_ ++ _) ++ [a]).Perm ((_ ++ []) ++ (_ ++ [a]))
    rw [List.append_nil, List.append_assoc]
  · simp only [List.filterMap_append, List.flatMap_append, h.accepted_eq]
    show (_ ++ _) ++ [] = (_ ++ []) ++ _
    rw [List.append_nil, List.append_nil]

/-- What comes out where no item was passed. -/
private theorem returned {use : Use α} {report : Report α}
    (h : Tallies record (Entry.returned (use, report) ++ left))
    (huse : ∀ memory a, use ≠ .enqueue memory a) (hreport : ∀ answer, report ≠ .enqueued answer) :
    Tallies (record ++ [(use, report)]) left := by
  -- An entry that is no enqueue passes nothing in and hands nothing back.
  have hnone : Entry.passed? (use, report) = none ∧ Entry.accepted? (use, report) = none ∧
      Entry.handedBack? (use, report) = none := by
    refine ⟨?_, ?_, ?_⟩
    · cases use with
      | enqueue memory a => exact absurd rfl (huse memory a)
      | _ => rfl
    · cases use with
      | enqueue memory a => exact absurd rfl (huse memory a)
      | _ => rfl
    · cases report with
      | enqueued answer => exact absurd rfl (hreport answer)
      | _ => rfl
  obtain ⟨hpassed, haccepted, hback⟩ := hnone
  constructor
  · simpa [List.filterMap_append, hpassed, haccepted, hback] using h.passed_perm
  · simp [List.filterMap_append, haccepted, h.accepted_eq]

end Tallies

/-! ### One queue -/

/-- A queue with its books in order: what its record leaves open is held or was dropped, and the
nodes that it did not retire are in its chain or were freed. -/
inductive Life.Sound : Life α → Prop
  | live {w : Watched α} {record : List (Entry α)} : w.Settled → Tallies record w.queue.toList →
      Sound (.live w record)
  | ended {nodes : Turnover} {record : List (Entry α)} {remains : Queue.Remains α} :
      nodes.allocated = nodes.retired ++ remains.nodes → nodes.allocated.Nodup →
      Tallies record remains.items → Sound (.ended nodes record remains)

namespace Watched

variable {w w' : Watched α} {record : List (Entry α)} {left items : List α}

/-- An enqueue keeps the record sound. -/
private theorem sound_enqueue (hw : w.Settled) (h : Tallies record w.queue.toList) (memory : Bool)
    (a : α) :
    (Life.live (w.enqueue? memory a).1
      (record ++ [(.enqueue memory a, .enqueued (w.enqueue? memory a).2)])).Sound := by
  refine .live (hw.enqueue? memory a) ?_
  cases memory with
  | true =>
    have haccepted := h.accepted true a
    rw [← Queue.toList_enqueue] at haccepted
    exact haccepted
  | false =>
    show Tallies (record ++ [(_, .enqueued (w.queue.enqueue? false a).2)])
      (w.queue.enqueue? false a).1.toList
    rw [Queue.enqueue?_false]
    exact h.refused false a

/-- Whatever comes out of a queue is returned. -/
private theorem sound_items {x : Watched α × List α} {y : Queue α × List α} (hx : Shows x y)
    (h : Tallies record w.queue.toList) (hsplit : w.queue.toList = y.2 ++ y.1.toList)
    {use : Use α} (huse : ∀ memory a, use ≠ .enqueue memory a) :
    (Life.live x.1 (record ++ [(use, .items x.2)])).Sound := by
  refine .live hx.settled (.returned ?_ huse nofun)
  show Tallies record (x.2 ++ x.1.queue.toList)
  rwa [hx.queue_eq, hx.answer_eq, ← hsplit]

/-- The end of a queue leaves the items that it holds and the nodes of its chain. -/
private theorem sound_ended (hw : w.Settled) (h : Tallies record w.queue.toList) {use : Use α}
    {report : Report α} (huse : ∀ memory a, use ≠ .enqueue memory a)
    (hreport : ∀ answer, report ≠ .enqueued answer) (hnone : Entry.returned (use, report) = []) :
    (Life.ended w.nodes (record ++ [(use, report)]) w.queue.dismantle).Sound := by
  -- The sentinel is not asked for an item, so what is dropped is what was not returned.
  rw [Queue.dismantle_eq]
  refine .ended hw.allocated_eq hw.nodup (.returned ?_ huse hreport)
  rwa [hnone]

/-- One use of a queue. -/
theorem serve_sound (hw : w.Settled) (h : Tallies record w.queue.toList) (use : Use α) :
    (w.serve record use).1.Sound := by
  -- Items come out in the order in which they stand, however many are asked for.
  cases use with
  | enqueue memory a => exact sound_enqueue hw h memory a
  | dequeue =>
    have hfirst : Shows (w.dequeue.1, w.dequeue.2.toList)
        (w.queue.dequeue.1, w.queue.dequeue.2.toList) := ⟨hw.dequeue, rfl, rfl⟩
    exact sound_items hfirst h w.queue.toList_split_dequeue nofun
  | drain limit =>
    cases limit with
    | none => exact sound_items hw.drain h w.queue.toList_split_drain nofun
    | some k => exact sound_items (hw.takeUpTo k) h (w.queue.toList_split_takeUpTo k) nofun
  | skip count => exact sound_items (hw.takeNth count) h (w.queue.toList_split_takeNth count) nofun
  | drop => exact sound_ended hw h nofun nofun rfl
  | release => exact sound_ended hw h nofun nofun rfl

/-- A queue that is dropped frees its chain and drops the items that it holds. -/
theorem serve_drop (w : Watched α) (record : List (Entry α)) :
    w.serve record .drop = (.ended w.nodes (record ++ [(.drop, .dropped)])
      ⟨w.queue.chain, w.queue.toList⟩, .dropped, []) := by
  simp only [serve, Queue.dismantle_eq]

/-- A queue that is released does the same, but says so only if it is empty, and else panics. -/
theorem serve_release (w : Watched α) (record : List (Entry α)) :
    let items := w.queue.toList
    let outcome := if items = [] then .ok () else .error (.releasedNonEmpty items.length)
    w.serve record .release = (.ended w.nodes (record ++ [(.release, .released outcome)])
      ⟨w.queue.chain, items⟩, .released outcome, if items = [] then [.released] else []) := by
  intro items outcome
  have hevents : w.queue.release.events = if items = [] then [.released] else [] := by
    simp only [Queue.release, Queue.released, Queue.nodeCount_eq, List.length_eq_zero_iff]
    split <;> rfl
  simp only [serve, Queue.dismantle_eq, Queue.release_outcome, hevents]
  rfl

end Watched

/-! ### All queues -/

/-- What the books of one queue say. Every item passed was accepted or handed back; those accepted
were returned, then dropped, and are still held, in this order; and the nodes allocated, each of
them once, were retired, then freed, and are still in the chain. -/
structure Life.Accounted (l : Life α) : Prop where
  passed_perm : l.passed.Perm (l.accepted ++ l.handedBack)
  accepted_eq : l.accepted = l.returned ++ l.dropped ++ l.held
  allocated_eq : l.nodes.allocated = l.nodes.retired ++ l.freed ++ l.chain
  nodup : l.nodes.allocated.Nodup

namespace Life

variable {l : Life α}

/-- In a sound life all items and nodes are accounted for. -/
private theorem Sound.accounted (h : l.Sound) : l.Accounted := by
  cases h with
  | @live w record hw h =>
    exact {
      passed_perm := h.passed_perm
      accepted_eq := by
        show _ = record.flatMap Entry.returned ++ [] ++ w.queue.toList
        -- A queue that lives has dropped nothing and freed nothing.
        rw [List.append_nil]
        exact h.accepted_eq
      allocated_eq := by
        show _ = w.nodes.retired ++ [] ++ w.queue.chain
        rw [List.append_nil]
        exact hw.allocated_eq
      nodup := hw.nodup }
  | @ended nodes record remains hnodes hnodup h =>
    exact {
      passed_perm := h.passed_perm
      accepted_eq := by
        show _ = record.flatMap Entry.returned ++ remains.items ++ []
        rw [List.append_nil]
        exact h.accepted_eq
      allocated_eq := by
        show _ = nodes.retired ++ remains.nodes ++ []
        rw [List.append_nil]
        exact hnodes
      nodup := hnodup }

/-- Every item that was passed to a queue is in one place. -/
private theorem Accounted.places_perm (h : l.Accounted) :
    l.passed.Perm (l.held ++ l.returned ++ l.handedBack ++ l.dropped) := by
  refine h.passed_perm.trans ?_
  -- The items accepted are in three of the places.
  rw [h.accepted_eq]
  classical
  rw [List.perm_iff_count]
  intro a
  simp only [List.count_append]
  omega

end Life

namespace Estate

variable {e : Estate α}

/-- All queues have their books in order. -/
def Sound (e : Estate α) : Prop := ∀ life ∈ e.lives, life.Sound

/-- Every act keeps all lives sound. -/
theorem Sound.step (h : e.Sound) (act : Act α) : (e.step act).1.Sound := by
  cases act with
  | create =>
    intro life hlife
    rcases List.mem_append.1 hlife with hlife | hlife
    · exact h life hlife
    · obtain rfl := List.mem_singleton.1 hlife
      exact .live Watched.settled_init .nil
  | use queue use =>
    simp only [Estate.step]
    split
    · rename_i w record hqueue
      intro life hlife
      -- Every other queue is as it was.
      rcases List.mem_or_eq_of_mem_set hlife with hlife | rfl
      · exact h life hlife
      · cases h _ (List.mem_of_getElem? hqueue) with
        | live hw h => exact Watched.serve_sound hw h use
    · exact h

/-- Any acts keep all lives sound. -/
theorem Sound.run (h : e.Sound) (acts : List (Act α)) : (e.run acts).Sound := by
  induction acts generalizing e with
  | nil => exact h
  | cons act acts ih => exact ih (h.step act)

/-- A queue that has ended stays as it is. -/
private theorem step_ended {queue : Nat} {nodes : Turnover} {record : List (Entry α)}
    {remains : Queue.Remains α} (h : e.lives[queue]? = some (.ended nodes record remains))
    (act : Act α) : (e.step act).1.lives[queue]? = some (.ended nodes record remains) := by
  cases act with
  | create =>
    obtain ⟨hlt, -⟩ := List.getElem?_eq_some_iff.1 h
    rwa [Estate.step, List.getElem?_append_left hlt]
  | use other use =>
    simp only [Estate.step]
    split
    · rename_i w record' hother
      -- The queue that is used goes on, so it is another one.
      have hne : other ≠ queue := by
        rintro rfl
        rw [h] at hother
        cases hother
      rwa [List.getElem?_set_ne hne]
    · exact h

/-- What a queue has left at its end does not change any more. -/
private theorem run_ended {queue : Nat} {nodes : Turnover} {record : List (Entry α)}
    {remains : Queue.Remains α} (h : e.lives[queue]? = some (.ended nodes record remains))
    (acts : List (Act α)) : (e.run acts).lives[queue]? = some (.ended nodes record remains) := by
  induction acts generalizing e with
  | nil => exact h
  | cons act acts ih => exact ih (step_ended h act)

/-- The items of all queues, up to their order, by the places that they are in. -/
private theorem places_perm (h : ∀ life ∈ e.lives, life.Accounted) :
    (e.lives.flatMap Life.passed).Perm (e.lives.flatMap Life.held ++
      e.lives.flatMap Life.returned ++ e.lives.flatMap Life.handedBack ++
        e.lives.flatMap Life.dropped) := by
  obtain ⟨lives⟩ := e
  -- By induction on the lives; each of them accounts for its own items.
  induction lives with
  | nil => exact .nil
  | cons life lives ih =>
    have hlife := (h life (List.mem_cons_self ..)).places_perm
    have ih := ih fun l hl => h l (List.mem_cons_of_mem _ hl)
    classical
    rw [List.perm_iff_count] at hlife ih ⊢
    intro a
    have hlife := hlife a
    have ih := ih a
    simp only [List.flatMap_cons, List.count_append] at hlife ih ⊢
    omega

/-- An estate in which everything is accounted for, now and when its queues end. -/
structure Settled (e : Estate α) : Prop where
  /-- The books of each queue are in order. -/
  accounted : ∀ life ∈ e.lives, life.Accounted
  /-- Every item that was passed to a queue is in one place: held by it, returned, handed back, or
  dropped by its end. -/
  places : (e.lives.flatMap Life.passed).Perm (e.lives.flatMap Life.held ++
    e.lives.flatMap Life.returned ++ e.lives.flatMap Life.handedBack ++
      e.lives.flatMap Life.dropped)
  /-- A queue that is dropped drops the items that it holds, the oldest first, and frees its
  chain. -/
  drop : ∀ queue w record, e.lives[queue]? = some (.live w record) →
    e.step (.use queue .drop) =
      (⟨e.lives.set queue (.ended w.nodes (record ++ [(.drop, .dropped)])
        ⟨w.queue.chain, w.queue.toList⟩)⟩, some .dropped, [])
  /-- One that is released does the same, and panics with the number of these items if there are
  any, and else logs that it was released. -/
  release : ∀ queue w record, e.lives[queue]? = some (.live w record) →
    let items := w.queue.toList
    let outcome := if items = [] then .ok () else .error (.releasedNonEmpty items.length)
    e.step (.use queue .release) =
      (⟨e.lives.set queue (.ended w.nodes (record ++ [(.release, .released outcome)])
        ⟨w.queue.chain, items⟩)⟩, some (.released outcome),
          if items = [] then [.released] else [])
  /-- After a dequeue the item that came out is still in the sentinel, but not among the items that
  the end would drop. -/
  sentinel : ∀ (queue : Nat) (w : Watched α) (record : List (Entry α)),
    e.lives[queue]? = some (.live w record) → ∀ a rest, w.queue.toList = a :: rest →
      let q := w.queue.dequeue.1
      w.queue.dequeue.2 = some a ∧ q.shared.item q.shared.head = some a ∧
        q.dismantle.items = rest
  /-- A queue that has ended stays as it is, whatever else is done. -/
  final : ∀ (queue : Nat) (nodes : Turnover) (record : List (Entry α))
    (remains : Queue.Remains α), e.lives[queue]? = some (.ended nodes record remains) →
      ∀ more, (e.run more).lives[queue]? = some (.ended nodes record remains)

/-- Let a user create queues and use them in any way. Then everything is accounted for. -/
theorem accounted_run (acts : List (Act α)) : ((⟨[]⟩ : Estate α).run acts).Settled := by
  have hsound : ((⟨[]⟩ : Estate α).run acts).Sound :=
    Sound.run (e := ⟨[]⟩) (fun life hlife => absurd hlife List.not_mem_nil) acts
  have haccounted : ∀ life ∈ ((⟨[]⟩ : Estate α).run acts).lives, life.Accounted :=
    fun life hlife => (hsound life hlife).accounted
  constructor
  case accounted => exact haccounted
  case places => exact places_perm haccounted
  case drop =>
    intro queue w record hlive
    simp only [Estate.step, hlive, Watched.serve_drop]
  case release =>
    intro queue w record hlive items outcome
    simp only [Estate.step, hlive, Watched.serve_release]
    rfl
  -- What the sentinel still holds has come out already, so the end drops only what follows it.
  case sentinel =>
    intro queue w record _ a rest hitems q
    have hfound : w.queue.dequeue.2 = some a := by
      rw [Queue.dequeue_snd, hitems]
      rfl
    refine ⟨hfound, Queue.item_sentinel hfound, ?_⟩
    rw [Queue.dismantle_eq]
    show w.queue.dequeue.1.toList = rest
    rw [Queue.toList_dequeue, hitems]
    rfl
  case final => exact fun queue nodes record remains hended more => run_ended hended more

end Estate

end AtomicFifo

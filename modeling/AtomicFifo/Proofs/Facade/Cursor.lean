import AtomicFifo.Facade.Service
import AtomicFifo.Proofs.Memory.Refinement
import AtomicFifo.Proofs.Session.Custody

/-!
# Drains that stay alive

A drain knows nothing but its queue. So one may ask any drain for its next item, or dequeue from
the queue: there is no telling the difference, not by any answer and not by the queue, and no
drain is over for good. All that a queue answers is what the list of its items answers, wherever
its tail stands.

* `courseOf_eq`      two servers whose answers look the same, one after the other
* `serve_onList`     what is asked of a queue is asked of the list of its items
* `drain_is_cursor`  any number of drains on one queue, and a drain by itself
-/

namespace AtomicFifo

universe u v

/-- If every single answer of two servers looks the same, then so do their courses. -/
theorem courseOf_eq {S T C D A B X : Type*} (serve : S → C → S × A) (serve' : T → D → T × B)
    (state : S → T) (ask : C → D) (see : A → X) (see' : B → X)
    (h : ∀ s c, Prod.map id see' (serve' (state s) (ask c)) = Prod.map state see (serve s c))
    (s : S) (asks : List C) :
    (courseOf serve' (state s) (asks.map ask)).map (Prod.map id see') =
      (courseOf serve s asks).map (Prod.map state see) := by
  induction asks generalizing s with
  | nil => rfl
  | cons c asks ih =>
    have hstate : (serve' (state s) (ask c)).1 = state (serve s c).1 := congrArg Prod.fst (h s c)
    rw [List.map_cons, courseOf, courseOf, List.map_cons, List.map_cons, h, hstate, ih]

namespace Facade

variable {ι : Type u} {α : Type v} (f : Facade ι α)

/-- A drain that is left early does what calls of the queue itself do. -/
private theorem serve_withoutDrain (q : Queue α) (ask : Ask ι) :
    f.serve q ask.withoutDrain = f.serve q ask := by
  cases ask <;> rfl

/-- What is asked of a queue is asked of the list of its items. -/
theorem serve_onList (q : Queue α) (ask : Ask ι) :
    Prod.map f.items id (f.serve q ask) = ask.onList (f.items q) := by
  -- Each ask is one operation of the queue, seen through the facade.
  cases ask with
  | enqueue memory i =>
    cases memory with
    | true =>
      show (f.items (f.enqueue q i), Told.enqueued (.ok ())) = _
      rw [f.items_enqueue]
      rfl
    | false =>
      simp only [serve, f.enqueue?_false]
      rfl
  | dequeue | next =>
    obtain ⟨hitem, hrest⟩ := f.dequeue_eq q
    show (f.items (f.dequeue q).1, Told.item (f.dequeue q).2) = _
    rw [hitem, hrest]
    rfl
  | collect =>
    obtain ⟨htaken, hrest⟩ := q.drain_eq
    show (q.drain.1.toList.map f.unwrap, Told.items (q.drain.2.map f.unwrap)) = _
    rw [htaken, hrest]
    rfl
  | take k =>
    obtain ⟨htaken, hrest⟩ := Queue.takeUpTo_eq k q
    show ((q.takeUpTo k).1.toList.map f.unwrap, Told.items ((q.takeUpTo k).2.map f.unwrap)) = _
    rw [htaken, hrest, List.map_take, List.map_drop]
    rfl
  | nth n =>
    obtain ⟨hdropped, hfound, hrest⟩ := Queue.takeNth_eq n q
    show ((q.takeNth n).1.toList.map f.unwrap,
      Told.found ((q.takeNth n).2.1.map f.unwrap) ((q.takeNth n).2.2.map f.unwrap)) = _
    rw [hdropped, hfound, hrest, List.map_take, List.map_drop, ← List.getElem?_map]
    rfl
  | len =>
    show (f.items q, Told.count q.len) = _
    rw [q.len_eq, ← List.length_map (f := f.unwrap)]
    rfl
  | isEmpty =>
    show (f.items q, Told.flag q.isEmpty) = _
    rw [q.isEmpty_eq, ← List.isEmpty_map (f := f.unwrap)]
    rfl
  | nodeCount =>
    show (f.items q, Told.nodes q.nodeCount) = _
    rw [q.nodeCount_eq, ← List.length_map (f := f.unwrap)]
    rfl

/-! ### One thing after the other -/

/-- A course of any asks is one without drains. -/
private theorem course_withoutDrain (q : Queue α) (asks : List (Ask ι)) :
    f.course q (asks.map Ask.withoutDrain) = f.course q asks := by
  induction asks generalizing q with
  | nil => rfl
  | cons ask asks ih =>
    show f.serve q ask.withoutDrain :: f.course (f.serve q ask.withoutDrain).1 _ =
      f.serve q ask :: f.course (f.serve q ask).1 asks
    rw [f.serve_withoutDrain, ih]

/-- A course is answered as on the list of the items. -/
theorem course_onList (q : Queue α) (asks : List (Ask ι)) :
    (f.course q asks).map (Prod.map f.items id) = courseOf Ask.onList (f.items q) asks := by
  have hcourse := courseOf_eq f.serve Ask.onList f.items id id id
    (fun q ask => (f.serve_onList q ask).symm) q asks
  rw [List.map_id, Prod.map_id, List.map_id] at hcourse
  exact hcourse.symm

/-- Any number of drains on one queue, its tail wherever it stands.

To ask a drain for its next item is to dequeue from the queue, before and after any drain has
answered that there is nothing. All answers are those of the list of items, and after each of them
the queue says of itself what the list does. A drain by itself comes to its end, with all items;
cut off after `k` items it has taken these and leaves the others; and if it looks for the item of
index `n` it drops those before it and leaves those behind it. -/
theorem drain_is_cursor (q : Queue α) (asks : List (Ask ι)) :
    f.course q (asks.map Ask.withoutDrain) = f.course q asks ∧
    (f.course q asks).map (Prod.map f.items id) = courseOf Ask.onList (f.items q) asks ∧
    (∀ step ∈ f.course q asks, step.1.shared.Holds step.1.toList) ∧
    (q.drain.2 = q.toList ∧ q.drain.1.shared.Holds [] ∧
      ∀ bound > q.toList.length, q.shared.drain? bound = some (q.drain.1.shared, q.toList)) ∧
    (∀ k, (q.takeUpTo k).2 = q.toList.take k ∧ (q.takeUpTo k).2.length = min k q.toList.length ∧
      (q.takeUpTo k).1.shared.Holds (q.toList.drop k)) ∧
    ∀ n, (q.takeNth n).2.1 = q.toList.take n ∧ (q.takeNth n).2.2 = q.toList[n]? ∧
      (q.takeNth n).1.shared.Holds (q.toList.drop (n + 1)) := by
  -- A full drain leaves a queue that holds nothing.
  obtain ⟨htaken, hrest⟩ := q.drain_eq
  refine ⟨f.course_withoutDrain q asks, f.course_onList q asks, fun step _ => step.1.holds,
    ⟨htaken, hrest ▸ q.drain.1.holds, fun bound hbound => ?_⟩, fun k => ?_, fun n => ?_⟩
  · rw [Queue.drain?_eq hbound, htaken]
  · obtain ⟨htaken, hrest⟩ := Queue.takeUpTo_eq k q
    exact ⟨htaken, by rw [htaken, List.length_take], hrest ▸ (q.takeUpTo k).1.holds⟩
  · obtain ⟨hdropped, hfound, hrest⟩ := Queue.takeNth_eq n q
    exact ⟨hdropped, hfound, hrest ▸ (q.takeNth n).1.holds⟩

/-- A drain that has run dry answers again, and so does another one. -/
example : ((plain Nat).course .init [.next 0, .enqueue true 7, .enqueue true 8, .next 1,
    .next 0]).map Prod.snd =
      [.item none, .enqueued (.ok ()), .enqueued (.ok ()), .item (some 7), .item (some 8)] :=
  rfl

end Facade

end AtomicFifo

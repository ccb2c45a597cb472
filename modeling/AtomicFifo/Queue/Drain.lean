import AtomicFifo.Queue

/-!
# Draining a queue

A drain is a live cursor: it keeps no place of its own, and asking it for the next item is a
dequeue. So it may be left at any time, other operations may come between two of its steps,
and it gives items again if some were enqueued after it had run dry.

* `drain_eq`      a full drain takes all items in order
* `takeUpTo_eq`   taking at most `k` items takes the first `k`
* `takeNth_eq`    taking the item of index `n` skips those before it
* `toList_split_dequeue`, `toList_split_drain`, `toList_split_takeUpTo`, `toList_split_takeNth`
  the items are those that come out, and then those that stay
-/

namespace AtomicFifo.Queue

universe u

variable {α : Type u}

/-- The next item of a drain. -/
def next (q : Queue α) : Queue α × Option α := q.dequeue

/-- The next item is the first one, and the others stay. -/
theorem next_eq (q : Queue α) : q.next.2 = q.toList.head? ∧ q.next.1.toList = q.toList.tail :=
  q.dequeue_eq

/-- There is no next item in an empty queue, which stays as it is; else it is the first one. -/
theorem next_cases (q : Queue α) :
    (q.toList = [] ∧ q.next = (q, none)) ∨
      ∃ q' a, q.next = (q', some a) ∧ q.toList = a :: q'.toList := by
  cases hl : q.toList with
  | nil => exact .inl ⟨rfl, dequeue_of_nil hl⟩
  | cons a l =>
    obtain ⟨hfound, hrest⟩ := q.next_eq
    rw [hl] at hfound hrest
    exact .inr ⟨q.next.1, a, Prod.ext rfl hfound, by rw [hrest]; rfl⟩

/-- An item that is taken shortens the queue. -/
theorem length_next {q q' : Queue α} {a : α} (h : q.next = (q', some a)) :
    q'.toList.length < q.toList.length := by
  obtain ⟨-, hnext⟩ | ⟨q₁, a₁, hnext, hlist⟩ := q.next_cases
  · cases h.symm.trans hnext
  · cases h.symm.trans hnext
    rw [hlist]
    exact Nat.lt_succ_self _

/-- Takes items until there are none. -/
def drain (q : Queue α) : Queue α × List α :=
  match _h : q.next with
  | (q, none) => (q, [])
  | (q', some a) =>
    let rest := q'.drain
    (rest.1, a :: rest.2)
termination_by q.toList.length
decreasing_by exact length_next _h

/-- Takes at most so many items. -/
def takeUpTo : Nat → Queue α → Queue α × List α
  | 0, q => (q, [])
  | k + 1, q =>
    match q.next with
    | (q, none) => (q, [])
    | (q, some a) =>
      let rest := takeUpTo k q
      (rest.1, a :: rest.2)

/-- Skips so many items and takes the one behind them. The skipped items come with it. -/
def takeNth (n : Nat) (q : Queue α) : Queue α × List α × Option α :=
  match q.takeUpTo n with
  | (q, skipped) =>
    if skipped.length = n then
      let found := q.next
      (found.1, skipped, found.2)
    else (q, skipped, none)

/-- How many items a drain promises: none for sure, and any number at most. -/
def sizeHint : Nat × Option Nat := (0, none)

/-! ### What the drains take -/

/-- A drain ends where there is no next item. -/
theorem drain_of_none {q q' : Queue α} (h : q.next = (q', none)) : q.drain = (q', []) := by
  rw [drain]
  split
  · rename_i hq
    rw [h] at hq
    cases hq
    rfl
  · rename_i hq
    rw [h] at hq
    cases hq

/-- A drain goes on behind an item that it was given. -/
theorem drain_of_some {q q' : Queue α} {a : α} (h : q.next = (q', some a)) :
    q.drain = (q'.drain.1, a :: q'.drain.2) := by
  rw [drain]
  split
  · rename_i hq
    rw [h] at hq
    cases hq
  · rename_i hq
    rw [h] at hq
    cases hq
    rfl

/-- A full drain takes all items in order and leaves none. -/
theorem drain_eq (q : Queue α) : q.drain.2 = q.toList ∧ q.drain.1.toList = [] := by
  generalize hl : q.toList = l
  -- By induction on the items: the drain recurses on the queue without its first one.
  induction l generalizing q with
  | nil =>
    rw [drain_of_none (dequeue_of_nil hl)]
    exact ⟨rfl, hl⟩
  | cons b l ih =>
    obtain ⟨hnil, -⟩ | ⟨q', a, hnext, hlist⟩ := q.next_cases
    · cases hl.symm.trans hnil
    · cases hl.symm.trans hlist
      obtain ⟨htaken, hrest⟩ := ih q' rfl
      rw [drain_of_some hnext]
      exact ⟨congrArg (_ :: ·) htaken, hrest⟩

/-- Taking at most so many items takes that many from the front. -/
theorem takeUpTo_eq (k : Nat) (q : Queue α) :
    (takeUpTo k q).2 = q.toList.take k ∧ (takeUpTo k q).1.toList = q.toList.drop k := by
  induction k generalizing q with
  | zero => exact ⟨rfl, rfl⟩
  | succ k ih =>
    unfold takeUpTo
    obtain ⟨hnil, hnext⟩ | ⟨q', a, hnext, hlist⟩ := q.next_cases
    · -- Without a next item nothing is left to be taken or dropped.
      simp [hnext, hnil]
    · obtain ⟨htaken, hrest⟩ := ih q'
      rw [hnext, hlist]
      exact ⟨congrArg (a :: ·) htaken, hrest⟩

/-- Taking the item of an index skips those before it and leaves those behind it. -/
theorem takeNth_eq (n : Nat) (q : Queue α) :
    (takeNth n q).2.1 = q.toList.take n ∧ (takeNth n q).2.2 = q.toList[n]? ∧
      (takeNth n q).1.toList = q.toList.drop (n + 1) := by
  have h := takeUpTo_eq n q
  unfold takeNth
  generalize q.takeUpTo n = r at h
  obtain ⟨q', skipped⟩ := r
  simp only at h ⊢
  have hn := q'.next_eq
  rw [h.2] at hn
  split
  · -- All items to skip were there, so the next one has index `n`, or there is none.
    refine ⟨h.1, ?_, ?_⟩
    · simpa using hn.1
    · simpa using hn.2
  · -- The queue ran dry among the items to skip, so there is no item of index `n`.
    rename_i hlen
    rw [h.1, List.length_take] at hlen
    have hle : q.toList.length ≤ n := by omega
    refine ⟨h.1, ?_, ?_⟩
    · rw [List.getElem?_eq_none hle]
    · rw [h.2, List.drop_eq_nil_of_le hle, List.drop_eq_nil_of_le (by omega)]

/-! ### What comes out and what stays -/

/-- The items are the one that a dequeue answers and those that it leaves. -/
theorem toList_split_dequeue (q : Queue α) :
    q.toList = q.dequeue.2.toList ++ q.dequeue.1.toList := by
  rw [q.dequeue_snd, q.toList_dequeue]
  cases q.toList <;> rfl

/-- The items are those that a drain takes and those that it leaves. -/
theorem toList_split_drain (q : Queue α) : q.toList = q.drain.2 ++ q.drain.1.toList := by
  obtain ⟨htaken, hrest⟩ := q.drain_eq
  rw [htaken, hrest, List.append_nil]

/-- The items are those that are taken and those that stay. -/
theorem toList_split_takeUpTo (k : Nat) (q : Queue α) :
    q.toList = (takeUpTo k q).2 ++ (takeUpTo k q).1.toList := by
  obtain ⟨htaken, hrest⟩ := takeUpTo_eq k q
  rw [htaken, hrest, List.take_append_drop]

/-- The items are the skipped ones, the one that is taken and those that stay. -/
theorem toList_split_takeNth (n : Nat) (q : Queue α) :
    q.toList = (takeNth n q).2.1 ++ (takeNth n q).2.2.toList ++ (takeNth n q).1.toList := by
  obtain ⟨hskipped, hfound, hrest⟩ := takeNth_eq n q
  rw [hskipped, hfound, hrest, ← List.take_add_one, List.take_append_drop]

end AtomicFifo.Queue

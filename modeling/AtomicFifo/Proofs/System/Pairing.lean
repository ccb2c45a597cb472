import AtomicFifo.Proofs.System.Counter
import AtomicFifo.Proofs.System.Ledger
import Mathlib.Algebra.Order.BigOperators.Group.List
import Mathlib.Algebra.Order.Ring.Nat

/-!
# Threads that give before they take

A thread that alternates begins a dequeue only after one more of its enqueues has been accepted,
and the next enqueue only after that dequeue. Where all threads that dequeue alternate, no
dequeue finds the queue empty, though it usually takes what another thread gave: whoever is
about to dequeue has let one item more enter than it has let leave, and nobody has let more
leave than enter, so something is there.

* `accepted`, `Alternates`   what a caller sees of its enqueues, and what it makes of it
* `Course.takes_le`          who alternates has let enter what it begins to take
* `paired_items_ne_nil`      so there is an item wherever a thread is about to dequeue
* `Legal.exists_deliveries`  who gave an item and who took it, for all items in one order
* `paired_run`               no dequeue misses, and what is there when the threads have ended
-/

namespace AtomicFifo

universe u

variable {α : Type u}

namespace History

/-- The item of the last enqueue, until it is accepted, and the items accepted so far. -/
def accept (made : Option α × List α) : Act α → Option α × List α
  | .called (.enqueue a) => (some a, made.2)
  | .returned .enqueued => (none, made.2 ++ made.1.toList)
  | _ => made

/-- The items of those enqueues of one thread that were accepted. -/
def accepted (l : List (Act α)) : List α := (l.foldl accept (none, [])).2

/-- How many dequeues a thread has begun. -/
def takes (l : List (Act α)) : Nat := l.countP fun
  | .called .dequeue => true
  | _ => false

/-- What an alternating thread may do next: begin an enqueue where its enqueues accepted so far and
its dequeues are equally many, and a dequeue where there is one dequeue less. -/
def Due (l : List (Act α)) : Act α → Prop
  | .called (.enqueue _) => takes l = (accepted l).length
  | .called .dequeue => takes l + 1 = (accepted l).length
  | _ => True

instance (l : List (Act α)) : DecidablePred (Due l) := fun act =>
  match act with
  | .called (.enqueue _) => inferInstanceAs (Decidable (takes l = (accepted l).length))
  | .called .dequeue => inferInstanceAs (Decidable (takes l + 1 = (accepted l).length))
  | .called .isEmpty | .entered _ | .left _ | .returned _ => .isTrue trivial

/-- The acts are those of a thread that alternates. -/
def Alternates (l : List (Act α)) : Prop := ∀ n (h : n < l.length), Due (l.take n) l[n]

instance (l : List (Act α)) : Decidable (Alternates l) :=
  inferInstanceAs (Decidable (∀ n (h : n < l.length), Due (l.take n) l[n]))

/-- Of so many threads those that `pairs` tells alternate, and the others do not dequeue. -/
structure Paired (threads : Nat) (pairs : Nat → Bool) (h : List (Nat × Act α)) : Prop where
  alternates : ∀ t < threads, pairs t = true → Alternates (of t h)
  abstains : ∀ t < threads, pairs t = false → takes (of t h) = 0

/-- What is asked to be taken in two parts is what is asked in both. -/
private theorem takes_append (l l' : List (Act α)) : takes (l ++ l') = takes l + takes l' :=
  List.countP_append ..

/-- The first part of alternating acts alternates. -/
private theorem Alternates.of_append {l l' : List (Act α)} (h : Alternates (l ++ l')) :
    Alternates l := by
  intro n hn
  have := h n (by simp; omega)
  rwa [List.getElem_append_left hn, List.take_append_of_le_length (Nat.le_of_lt hn)] at this

/-- The last act was due. -/
private theorem Alternates.due {l : List (Act α)} {act : Act α} (h : Alternates (l ++ [act])) :
    Due l act := by
  have := h l.length (by simp)
  rwa [List.take_left, List.getElem_concat_length rfl] at this

/-- The first part of a paired history is paired. -/
private theorem Paired.of_append {threads : Nat} {pairs : Nat → Bool} {h h' : List (Nat × Act α)}
    (hp : Paired threads pairs (h ++ h')) : Paired threads pairs h where
  alternates t hlt ht := by
    have := hp.alternates t hlt ht
    rw [History.of_append] at this
    exact this.of_append
  abstains t hlt ht := by
    have := hp.abstains t hlt ht
    rw [History.of_append, takes_append] at this
    omega

end History

open History

/-! ### One thread -/

/-- What a thread has let enter, by what its caller has seen so far. -/
def Standing.Keeps (entered : List α) : Standing α → Option α × List α → Prop
  | .asked (.enqueue a), made => made = (some a, entered)
  | .entered, made => made.2 ++ made.1.toList = entered
  | _, made => made.2 = entered

/-- One more dequeue has been begun than items have left, while nothing has left for it. -/
def Standing.toLeave : Standing α → Nat
  | .asked .dequeue => 1
  | _ => 0

namespace Course

variable {l : List (Act α)} {st : Standing α}

/-- The last act led to where the thread stands. -/
private theorem of_concat {act : Act α} {st' : Standing α} (h : Course (l ++ [act]) st') :
    ∃ st, Course l st ∧ st.Goes act st' := by
  generalize hl : l ++ [act] = l' at h
  cases h with
  | nil => simp at hl
  | snoc h hgo =>
    obtain ⟨rfl, hact⟩ := List.append_inj' hl rfl
    obtain rfl : act = _ := List.singleton_inj.1 hact
    exact ⟨_, h, hgo⟩

/-- What the caller has seen of a thread tells what the thread has let enter. -/
private theorem keeps (h : Course l st) :
    st.Keeps (l.filterMap Act.entered?) (l.foldl accept (none, [])) := by
  induction h with
  | nil => rfl
  | @snoc l act st st' _ hgo ih =>
    rw [List.filterMap_append, List.foldl_append]
    generalize l.foldl accept (none, []) = made at ih
    -- The item of an enqueue is known from its call on, and counts from its return on.
    cases hgo with
    | called request =>
      have hmade : made.2 = l.filterMap Act.entered? := ih
      cases request <;> simp [Act.entered?, Standing.Keeps, accept, hmade]
    | entered a =>
      obtain rfl : made = (some a, l.filterMap Act.entered?) := ih
      simp [Act.entered?, Standing.Keeps, accept]
    | refused a =>
      obtain rfl : made = (some a, l.filterMap Act.entered?) := ih
      simp [List.filterMap_cons, Act.entered?, Standing.Keeps, accept]
    | _ => simpa [List.filterMap_cons, Act.entered?, Standing.Keeps, accept] using ih

/-- The caller of a thread that is in no call knows what has entered. -/
private theorem accepted_eq (h : Course l .idle) : accepted l = l.filterMap Act.entered? := h.keeps

/-- A dequeue that is begun lets an item leave, unless it misses. -/
private theorem takes_eq (h : Course l st) (hmissed : Act.returned (.dequeued none) ∉ l) :
    takes l = (l.filterMap Act.left?).length + st.toLeave := by
  induction h with
  | nil => rfl
  | @snoc l act st st' _ hgo ih =>
    have ih := ih fun ha => hmissed (List.mem_append_left _ ha)
    rw [takes_append, ih, List.filterMap_append]
    cases hgo with
    | called request =>
      cases request <;> simp [takes, List.filterMap_cons, Act.left?, Standing.toLeave]
    | missed => exact absurd (List.mem_append_right _ (List.mem_singleton.2 rfl)) hmissed
    | _ => simp [takes, List.filterMap_cons, Act.left?, Standing.toLeave]

/-- Who alternates has let an item enter for each dequeue that it begins. -/
theorem takes_le (h : Course l st) (halternates : Alternates l) :
    takes l ≤ (l.filterMap Act.entered?).length := by
  induction h with
  | nil => exact Nat.le_refl 0
  | @snoc l act st st' hl hgo ih =>
    have ih := ih halternates.of_append
    rw [takes_append, List.filterMap_append]
    cases hgo with
    | called request =>
      have hdue := halternates.due
      cases request with
      | dequeue =>
        -- Only here a dequeue is begun, and one more enqueue has been accepted before.
        simp only [Due, hl.accepted_eq] at hdue
        simp only [takes, List.length_append] at hdue ⊢
        exact Nat.le_add_right_of_le (Nat.le_of_eq hdue)
      | _ =>
        simp only [takes, List.length_append]
        exact Nat.le_add_right_of_le ih
    | _ =>
      simp only [List.length_append]
      exact Nat.le_add_right_of_le ih

end Course

/-! ### The queue -/

namespace Legal

variable {threads : Nat} {h : List (Nat × Act α)} {l : List α}

/-- How many items are there. -/
private theorem length_eq (hl : Legal h l) (hlt : ∀ x ∈ h, x.1 < threads) :
    ((List.range threads).map fun t => ((of t h).filterMap Act.entered?).length).sum =
      ((List.range threads).map fun t => ((of t h).filterMap Act.left?).length).sum +
        l.length := by
  simpa [List.length_flatMap] using (hl.entered_perm hlt).length_eq

end Legal

/-- Where nothing has been missed yet and a thread is about to let an item leave, there is one:
no thread has let more leave than enter, and this one has let less leave. -/
theorem paired_items_ne_nil {threads : Nat} {pairs : Nat → Bool} {h : List (Nat × Act α)}
    {l : List α} (hl : Legal h l) (hlt : ∀ x ∈ h, x.1 < threads) (hpaired : Paired threads pairs h)
    (hcourse : ∀ t, ∃ st, Course (of t h) st)
    (hmissed : ∀ t, Act.returned (.dequeued none) ∉ of t h) {thread : Nat}
    (hthread : thread < threads) (hst : Course (of thread h) (.asked .dequeue)) : l ≠ [] := by
  have hle : ∀ t < threads, takes (of t h) ≤ ((of t h).filterMap Act.entered?).length := by
    intro t hlt
    cases ht : pairs t with
    | false => rw [hpaired.abstains t hlt ht]; exact Nat.zero_le _
    | true =>
      obtain ⟨st, hst⟩ := hcourse t
      exact hst.takes_le (hpaired.alternates t hlt ht)
  -- This thread has one dequeue more to answer, so fewer items have left than entered.
  have hsum : ((List.range threads).map fun t => ((of t h).filterMap Act.left?).length).sum <
      ((List.range threads).map fun t => ((of t h).filterMap Act.entered?).length).sum := by
    apply List.sum_lt_sum
    · intro t ht
      obtain ⟨st, hst⟩ := hcourse t
      have htakes := hst.takes_eq (hmissed t)
      have := hle t (List.mem_range.1 ht)
      omega
    · refine ⟨thread, List.mem_range.2 hthread, ?_⟩
      have htakes : takes (of thread h) = ((of thread h).filterMap Act.left?).length + 1 :=
        hst.takes_eq (hmissed thread)
      have := hle thread hthread
      omega
  rw [hl.length_eq hlt] at hsum
  rintro rfl
  exact Nat.lt_irrefl _ hsum

/-- An item on its way from the thread that enqueued it to the one that dequeued it. -/
structure Delivery (α : Type u) where
  giver : Nat
  taker : Nat
  item : α

/-- The items that one thread gave and that are delivered or waiting, in this order. -/
def Delivery.given (deliveries : List (Delivery α)) (waiting : List (Nat × α)) (thread : Nat) :
    List α :=
  (deliveries.filter (·.giver = thread)).map (·.item) ++
    (waiting.filter (·.1 = thread)).map (·.2)

/-- The items that one thread took. -/
def Delivery.taken (deliveries : List (Delivery α)) (thread : Nat) : List α :=
  (deliveries.filter (·.taker = thread)).map (·.item)

/-- The items that left can be listed with the threads that gave and took them, and those that
are there with the threads that gave them, in one order for all threads. -/
theorem Legal.exists_deliveries {h : List (Nat × Act α)} {l : List α} (hl : Legal h l) :
    ∃ (deliveries : List (Delivery α)) (waiting : List (Nat × α)), waiting.map (·.2) = l ∧
      ∀ t, Delivery.given deliveries waiting t = (of t h).filterMap Act.entered? ∧
        Delivery.taken deliveries t = (of t h).filterMap Act.left? := by
  induction hl with
  | nil => exact ⟨[], [], rfl, fun t => ⟨rfl, rfl⟩⟩
  | @snoc h x before after _ haff ih =>
    obtain ⟨deliveries, waiting, hwaiting, hboth⟩ := ih
    obtain ⟨thread, act⟩ := x
    -- Any other act than those of the two exchanges leaves both lists as they are.
    have hrest : act.entered? = none → act.left? = none → after = before →
        ∃ (deliveries : List (Delivery α)) (waiting : List (Nat × α)), waiting.map (·.2) = after ∧
          ∀ t, Delivery.given deliveries waiting t =
              (of t (h ++ [(thread, act)])).filterMap Act.entered? ∧
            Delivery.taken deliveries t = (of t (h ++ [(thread, act)])).filterMap Act.left? := by
      rintro hentered hleft rfl
      refine ⟨deliveries, waiting, hwaiting, fun t => ?_⟩
      obtain ⟨hgiven, htaken⟩ := hboth t
      rw [History.of_append, List.filterMap_append, List.filterMap_append, hgiven, htaken]
      by_cases ht : thread = t <;> simp [of, ht, hentered, hleft]
    cases act with
    | entered a =>
      obtain rfl : after = before ++ [a] := haff
      refine ⟨deliveries, waiting ++ [(thread, a)], by simp [hwaiting], fun t => ?_⟩
      obtain ⟨hgiven, htaken⟩ := hboth t
      rw [History.of_append, List.filterMap_append, List.filterMap_append, ← hgiven, ← htaken]
      by_cases ht : thread = t <;> simp [Delivery.given, of, ht, Act.entered?, Act.left?]
    | left a =>
      -- The item that has waited for the longest time goes to this thread.
      obtain rfl : before = a :: after := haff
      obtain ⟨⟨giver, a⟩, waiting, rfl, rfl, rfl⟩ := List.map_eq_cons_iff.1 hwaiting
      refine ⟨deliveries ++ [⟨giver, thread, a⟩], waiting, rfl, fun t => ?_⟩
      obtain ⟨hgiven, htaken⟩ := hboth t
      rw [History.of_append, List.filterMap_append, List.filterMap_append, ← hgiven, ← htaken]
      constructor
      · by_cases ht : giver = t <;>
          by_cases ht' : thread = t <;> simp [Delivery.given, of, ht, ht', Act.entered?]
      · by_cases ht : thread = t <;> simp [Delivery.taken, of, ht, Act.left?]
    | called request => exact hrest rfl rfl haff
    | returned reply =>
      refine hrest rfl rfl ?_
      cases reply with
      | dequeued item =>
        cases item with
        | none => exact haff.2
        | some a => exact haff
      | _ => exact haff

namespace System

variable {threads : Nat} {pairs : Nat → Bool} {moves : List (Move α)}

/-- No dequeue misses. -/
private theorem paired_not_missed (hpaired : Paired threads pairs ((init threads).history moves))
    (t : Nat) :
    Act.returned (.dequeued none) ∉ of t ((init threads).history moves) := by
  -- The first dequeue that misses is the last act of a run without one before.
  induction moves using List.reverseRecOn generalizing t with
  | nil => simp [history, of]
  | append_singleton moves move ih =>
    have hcourse := course_run threads (moves ++ [move])
    rw [history_concat] at hpaired hcourse ⊢
    have ih := ih hpaired.of_append
    cases hact : ((init threads).run moves).act? move with
    | none => simpa using ih t
    | some x =>
      obtain ⟨thread, act⟩ := x
      rw [hact] at hcourse
      rw [History.of_append, List.mem_append]
      refine not_or.2 ⟨ih t, fun hmissed => ?_⟩
      obtain ⟨rfl, rfl⟩ : thread = t ∧ act = .returned (.dequeued none) := by
        simpa [of, eq_comm] using hmissed
      -- The thread had begun a dequeue, and read a null link in an empty queue.
      obtain ⟨st', -, hst'⟩ := hcourse thread
      obtain ⟨st, hst, hgo⟩ : ∃ st, Course (of thread ((init threads).history moves)) st ∧
          st.Goes (.returned (.dequeued none)) st' :=
        Course.of_concat (by simpa [of] using hst')
      have haffects := ((Reachable.init threads).run moves).inv.affects move
      rw [hact] at haffects
      cases hgo
      have hthread : thread < threads := by simpa using lt_of_act? hact
      refine paired_items_ne_nil (legal_run threads moves) ?_ hpaired.of_append ?_ ih hthread hst
        haffects.1
      · intro x hx
        simpa using lt_of_mem_history hx
      · intro t
        obtain ⟨st, -, hst⟩ := course_run threads moves t
        exact ⟨st, hst⟩

/-- A list gathered from the members that `p` does not tell has the lengths of their lists. -/
private theorem length_flatMap_filter {β γ : Type*} (p : β → Bool) (f : β → List γ) (l : List β) :
    ((l.filter (!p ·)).flatMap f).length =
      (l.map fun b => if p b then 0 else (f b).length).sum := by
  induction l with
  | nil => rfl
  | cons b l ih => cases hb : p b <;> simp [hb, ih]

/-- What a run of alternating threads, none of which is in a call, tells of one of its threads:
what it was accepted has entered and what it was answered has left, and where it has made all
its dequeues these are equally many. -/
structure AtRest (pairs : Bool) (acts : List (Act α)) : Prop where
  accepted_eq : accepted acts = acts.filterMap Act.entered?
  answered_eq : acts.filterMap Act.answered? = acts.filterMap Act.left?
  length_eq : (acts.filterMap Act.entered?).length = (acts.filterMap Act.left?).length +
    if pairs then 0 else (accepted acts).length

/-- In a paired history a thread that has come to rest has taken as often as it has enqueued. -/
private theorem paired_atRest (hpaired : Paired threads pairs ((init threads).history moves))
    {t : Nat} (hlt : t < threads) (hidle : ((init threads).run moves).running? t = none)
    (hended : pairs t = true → takes (of t ((init threads).history moves)) =
      (accepted (of t ((init threads).history moves))).length) :
    AtRest (pairs t) (of t ((init threads).history moves)) := by
  obtain ⟨st, hst, hcourse⟩ := course_run threads moves t
  cases hst.symm.trans (standing?_of_not_running hidle)
  have haccepted := hcourse.accepted_eq
  have htakes := hcourse.takes_eq (paired_not_missed hpaired t)
  refine ⟨haccepted, by simpa [Standing.toAnswer] using hcourse.left_eq.symm, ?_⟩
  cases ht : pairs t with
  | false =>
    rw [hpaired.abstains t hlt ht] at htakes
    simp only [Bool.false_eq_true, if_false, haccepted]
    omega
  | true =>
    rw [hended ht, haccepted] at htakes
    simpa [Standing.toLeave] using htakes

/-- Let the threads that `pairs` tells alternate accepted enqueues with dequeues, and the others
dequeue nothing, in a run of any number of threads. Then no dequeue is answered that the queue is
empty. And once no thread is in a call and all that alternate have made their last dequeue, the
counter and a walk over the nodes both tell as many items as were accepted from the others; the
items answered and those in the queue are the items accepted, each as often; and all of them
stand in one order in which each thread has been accepted its items and each thread has been
answered those that it took. -/
theorem paired_run (threads : Nat) (pairs : Nat → Bool) (moves : List (Move α))
    (hpaired : Paired threads pairs ((init threads).history moves)) :
    let s := (init threads).run moves
    let acts := fun t => of t ((init threads).history moves)
    let answered := fun t => (acts t).filterMap Act.answered?
    (∀ t, Act.returned (.dequeued none) ∉ acts t) ∧
      ((∀ t < threads, s.running? t = none) →
        (∀ t < threads, pairs t = true → takes (acts t) = (accepted (acts t)).length) →
        let prefill := ((List.range threads).filter (!pairs ·)).flatMap (accepted <| acts ·)
        s.shared.items.length = prefill.length ∧
          s.shared.nodeCount? = some prefill.length ∧
          s.shared.count = UInt64.ofNat prefill.length ∧
          ((List.range threads).flatMap (accepted <| acts ·)).Perm
            ((List.range threads).flatMap answered ++ s.shared.items) ∧
          ∃ (deliveries : List (Delivery α)) (waiting : List (Nat × α)),
            waiting.map (·.2) = s.shared.items ∧
              ∀ t < threads, Delivery.given deliveries waiting t = accepted (acts t) ∧
                Delivery.taken deliveries t = answered t) := by
  intro s acts answered
  refine ⟨paired_not_missed hpaired, fun hidle hended => ?_⟩
  intro prefill
  have hrest : ∀ t < threads, AtRest (pairs t) (acts t) := fun t ht =>
    paired_atRest hpaired ht (hidle t ht) (hended t ht)
  have hlegal := legal_run threads moves
  have hlt : ∀ x ∈ (init threads).history moves, x.1 < threads := by
    intro x hx
    simpa using lt_of_mem_history hx
  have hlength : s.shared.items.length = prefill.length := by
    have hsum := hlegal.length_eq hlt
    -- Thread by thread, what has entered and not left is what the others were accepted.
    have hthread : ∀ t ∈ List.range threads, ((acts t).filterMap Act.entered?).length =
        ((acts t).filterMap Act.left?).length +
          if pairs t then 0 else (accepted (acts t)).length :=
      fun t ht => (hrest t (List.mem_range.1 ht)).length_eq
    rw [List.map_congr_left hthread, List.sum_map_add] at hsum
    rw [length_flatMap_filter]
    exact (Nat.add_left_cancel hsum).symm
  refine ⟨hlength, ?_, ?_, ?_, ?_⟩
  · rw [← hlength]
    exact ((Reachable.init threads).run moves).inv.coherent.nodeCount?_eq
  · -- The counter is ahead of the chain in no thread.
    have hquiet : ∀ t, s.running? t = none := by
      intro t
      cases hrun : s.running? t with
      | none => rfl
      | some call =>
        have ht : t < threads := by simpa [s] using running?_lt hrun
        rw [hidle t ht] at hrun
        cases hrun
    have hcount : s.Counted := count_run threads moves
    unfold Counted at hcount
    rwa [ahead_eq_zero hquiet, Nat.add_zero, hlength] at hcount
  · have haccepted : (List.range threads).flatMap (accepted <| acts ·) =
        (List.range threads).flatMap fun t => (acts t).filterMap Act.entered? :=
      List.flatMap_congr fun t ht => (hrest t (List.mem_range.1 ht)).accepted_eq
    have hanswered : (List.range threads).flatMap answered =
        (List.range threads).flatMap fun t => (acts t).filterMap Act.left? :=
      List.flatMap_congr fun t ht => (hrest t (List.mem_range.1 ht)).answered_eq
    rw [haccepted, hanswered]
    exact hlegal.entered_perm hlt
  · obtain ⟨deliveries, waiting, hwaiting, hboth⟩ := hlegal.exists_deliveries
    refine ⟨deliveries, waiting, hwaiting, fun t ht => ?_⟩
    obtain ⟨hgiven, htaken⟩ := hboth t
    exact ⟨hgiven.trans (hrest t ht).accepted_eq.symm, htaken.trans (hrest t ht).answered_eq.symm⟩

/-- Two threads that alternate, and one item put there by a third. The first thread has counted
its item and not linked it yet when the second enqueues and takes what was there before; then the
first takes what the second gave, and its own item stays. -/
theorem paired_run_crossing :
    let moves : List (Move Nat) := .start 2 (.enqueue 9) :: List.replicate 7 (.advance 2 true) ++
      [.start 0 (.enqueue 1), .advance 0 true, .advance 0 true, .start 1 (.enqueue 2)] ++
      List.replicate 7 (.advance 1 true) ++ .start 1 .dequeue ::
      List.replicate 6 (.advance 1 true) ++ List.replicate 5 (.advance 0 true) ++
      .start 0 .dequeue :: List.replicate 6 (.advance 0 true)
    let pairs := fun t => decide (t < 2)
    let s := (init 3).run moves
    let acts := fun t => of t ((init 3).history moves)
    Paired 3 pairs ((init 3).history moves) ∧ (∀ t < 3, s.running? t = none) ∧
      (∀ t < 3, pairs t = true → takes (acts t) = (accepted (acts t)).length) ∧
      (∀ t, Act.returned (.dequeued none) ∉ acts t) ∧ s.shared.nodeCount? = some 1 ∧
      s.shared.count = 1 ∧ [1, 2, 9].Perm ([2, 9] ++ s.shared.items) := by
  intro moves pairs s acts
  -- Two threads alternate, and the third only enqueues.
  have hpaired : Paired 3 pairs ((init 3).history moves) := ⟨by decide +kernel, by decide +kernel⟩
  have hidle : ∀ t < 3, s.running? t = none := by
    intro t ht
    have hnone : ∀ t < 3, (s.running? t).isNone = true := by decide +kernel
    exact Option.isNone_iff_eq_none.1 (hnone t ht)
  have hended : ∀ t < 3, pairs t = true → takes (acts t) = (accepted (acts t)).length := by
    decide +kernel
  obtain ⟨hmissed, hrest⟩ := paired_run 3 pairs moves hpaired
  obtain ⟨-, hnodes, hcount, hperm, -⟩ := hrest hidle hended
  exact ⟨hpaired, hidle, hended, hmissed, hnodes, hcount, hperm⟩

end System

end AtomicFifo

import AtomicFifo.Proofs.Crowd.Threads
import AtomicFifo.Proofs.System.Counter

/-!
# The balance of a crowd that has ended

When all threads of a crowd on a linked queue have ended, every tag that was enqueued is either
with the thread that has taken it or still in the queue, once and not twice; every thread has
taken the tags of each producer in the order in which they were enqueued; and both ways to ask
for the size agree with what is left.

* `Accounts`          what each thread has asked for and been answered
* `Balanced`          what holds of a crowd that has ended
* `Traced.balanced`   it holds
-/

namespace AtomicFifo

universe u

variable {α : Type u} {f : Facade Word α} {plan : Plan}

/-- A list that is read off the places of another one, place by place. -/
private theorem flatMap_range {β γ : Type*} {l : List β} {g : Nat → List γ} {k : β → List γ}
    (h : ∀ i x, l[i]? = some x → g i = k x) :
    (List.range l.length).flatMap g = l.flatMap k := by
  induction l generalizing g with
  | nil => rfl
  | cons x l ih =>
    rw [List.length_cons, List.range_succ_eq_map, List.flatMap_cons, List.flatMap_map,
      List.flatMap_cons, h 0 x rfl, ih fun i y hy => h (i + 1) y hy]

/-- What holds of all entries of an array holds at every index. -/
private theorem forall_mem_iff_getElem? {β : Type*} {xs : Array β} {P : β → Prop} :
    (∀ x ∈ xs, P x) ↔ ∀ (i : Nat) (x : β), xs[i]? = some x → P x := by
  constructor
  · intro h i x hx
    exact h x (Array.mem_of_getElem? hx)
  · intro h x hx
    obtain ⟨i, hi⟩ := Array.getElem?_of_mem hx
    exact h i x hi

/-- The tags of all producers are the numbers from 0 on. -/
private theorem Plan.flatMap_tags (plan : Plan) (n : Nat) :
    (List.range n).flatMap (fun p => plan.tags p plan.items.toNat) =
      (List.range (n * plan.items.toNat)).map UInt64.ofNat := by
  induction n with
  | zero => simp
  | succ n ih =>
    rw [List.range_succ, List.flatMap_append, ih, Nat.succ_mul, List.range_add, List.map_append]
    simp [tags, tag, Function.comp_def]

/-- A tag divided by the number of tags of each producer gives the producer. -/
private theorem Plan.Fits.origin (h : plan.Fits) {p : Nat} (hp : p < plan.producers.toNat)
    {tag : Word} (htag : tag ∈ plan.tags p plan.items.toNat) :
    tag.toNat / plan.items.toNat = p := by
  obtain ⟨i, hi, rfl⟩ := List.mem_map.1 htag
  have hi := List.mem_range.1 hi
  rw [h.toNat_tag hp hi, Nat.mul_comm, Nat.mul_add_div (by omega), Nat.div_eq_of_lt hi]
  rfl

/-- A producer enqueues its tags in increasing order. -/
theorem Plan.Fits.pairwise_tags (h : plan.Fits) {p : Nat} (hp : p < plan.producers.toNat) :
    (plan.tags p plan.items.toNat).Pairwise (·.toNat < ·.toNat) := by
  unfold tags
  rw [List.pairwise_map]
  refine List.Pairwise.imp_of_mem (fun {i j} hi hj hij => ?_) List.pairwise_lt_range
  rw [h.toNat_tag hp (List.mem_range.1 hi), h.toNat_tag hp (List.mem_range.1 hj)]
  omega

namespace Crowd

variable {crowd : Crowd (Shared α) (Call α)} {moves : List (Move α)}

/-- All threads of a crowd that has ended have ended. -/
theorem ended_iff {σ : Type*} {κ : Type*} {crowd : Crowd σ κ} :
    crowd.ended = true ↔ crowd.finished = true ∧
      (∀ (p : Nat) (x : Producer κ), crowd.producers[p]? = some x → ∃ e, x.phase = .ended e) ∧
      ∀ (c : Nat) (y : Consumer κ), crowd.consumers[c]? = some y → ∃ e, y.phase = .ended e := by
  simp only [ended, Bool.and_eq_true, Array.all_eq_true', Option.isSome_iff_exists,
    Producer.ending?_eq_some_iff, Consumer.ending?_eq_some_iff, forall_mem_iff_getElem?, and_assoc]

/-- What the threads have asked for and been answered, each of them, when none is in a call. -/
structure Accounts (f : Facade Word α) (plan : Plan) (crowd : Crowd (Shared α) (Call α))
    (moves : List (Move α)) (asked answered : Nat → List α) : Prop where
  ledger : ∀ t < plan.threads,
    System.Ledger plan.threads moves t none (asked t) (answered t)
  pushed : ∀ p x, crowd.producers[p]? = some x →
    asked p = (plan.tags p plan.items.toNat).map f.wrap
  popped : ∀ p x, crowd.producers[p]? = some x → (answered p).map f.unwrap = x.taken.reverse
  silent : ∀ c y, crowd.consumers[c]? = some y → asked (plan.producers.toNat + c) = []
  taken : ∀ c y, crowd.consumers[c]? = some y →
    (answered (plan.producers.toNat + c)).map f.unwrap = y.taken.reverse

/-- The accounts of a crowd that has ended are what its history says. -/
private theorem Traced.exists_accounts (h : crowd.Traced f plan moves)
    (hended : crowd.ended = true) :
    ∃ asked answered, crowd.Accounts f plan moves asked answered := by
  obtain ⟨-, hproducers, hconsumers⟩ := ended_iff.1 hended
  have hproducer : ∀ p x, crowd.producers[p]? = some x → ∃ answered,
      System.Ledger plan.threads moves p none ((plan.tags p plan.items.toNat).map f.wrap)
        answered ∧ answered.map f.unwrap = x.taken.reverse := by
    intro p x hx
    obtain ⟨e, he⟩ := hproducers p x hx
    obtain ⟨answered, hledger, htaken⟩ := (h.producer hx).ledger
    have hall := ((h.producer hx).ended he).2
    simp only [Producer.call?, Producer.begun, he, hall] at hledger
    exact ⟨answered, hledger, htaken⟩
  have hconsumer : ∀ c y, crowd.consumers[c]? = some y → ∃ answered,
      System.Ledger plan.threads moves (plan.producers.toNat + c) none [] answered ∧
        answered.map f.unwrap = y.taken.reverse := by
    intro c y hy
    obtain ⟨e, he⟩ := hconsumers c y hy
    obtain ⟨answered, hledger, htaken⟩ := (h.consumer hy).ledger
    simp only [Consumer.call?, he] at hledger
    exact ⟨answered, hledger, htaken⟩
  -- The history gives the accounts, and the ledger of each thread says what they are.
  refine ⟨fun t => (History.of t ((System.init plan.threads).history moves)).filterMap
      Act.asked?, fun t => (History.of t ((System.init plan.threads).history moves)).filterMap
      Act.answered?, {
    ledger := fun t ht => ?_
    pushed := fun p x hx => ?_
    popped := fun p x hx => ?_
    silent := fun c y hy => ?_
    taken := fun c y hy => ?_ }⟩
  · rcases h.thread_cases ht with ⟨x, hx⟩ | ⟨c, y, rfl, hy⟩
    · obtain ⟨answered, hledger, -⟩ := hproducer t x hx
      exact ⟨hledger.running, rfl, rfl, hledger.granted⟩
    · obtain ⟨answered, hledger, -⟩ := hconsumer c y hy
      exact ⟨hledger.running, rfl, rfl, hledger.granted⟩
  · obtain ⟨answered, hledger, -⟩ := hproducer p x hx
    exact hledger.asked_eq
  · obtain ⟨answered, hledger, htaken⟩ := hproducer p x hx
    exact (congrArg (List.map f.unwrap) hledger.answered_eq).trans htaken
  · obtain ⟨answered, hledger, -⟩ := hconsumer c y hy
    exact hledger.asked_eq
  · obtain ⟨answered, hledger, htaken⟩ := hconsumer c y hy
    exact (congrArg (List.map f.unwrap) hledger.answered_eq).trans htaken

section Accounts

variable {asked answered : Nat → List α}

/-- What the threads have, producers first and consumers behind them. -/
private theorem flatMap_threads (h : crowd.Traced f plan moves) (g : Nat → List Word) :
    (List.range plan.threads).flatMap g =
      (List.range crowd.producers.toList.length).flatMap g ++
        (List.range crowd.consumers.toList.length).flatMap
          fun c => g (plan.producers.toNat + c) := by
  rw [Plan.threads, List.range_add, List.flatMap_append, List.flatMap_map, Array.length_toList,
    Array.length_toList, h.producers_size, h.consumers_size]

/-- Every tag is with the thread that has taken it or in the queue. -/
theorem Accounts.perm (hacc : crowd.Accounts f plan moves asked answered)
    (h : crowd.Traced f plan moves) :
    ((List.range (plan.producers.toNat * plan.items.toNat)).map UInt64.ofNat).Perm
      (crowd.producers.toList.flatMap (·.taken.reverse) ++
        crowd.consumers.toList.flatMap (·.taken.reverse) ++ crowd.queue.items.map f.unwrap) := by
  -- What all threads have asked for is read off thread by thread, and so is what they have.
  have hperm := (System.asked_perm hacc.ledger).map f.unwrap
  rw [List.map_append, List.map_flatMap, List.map_flatMap, h.queue, flatMap_threads h,
    flatMap_threads h] at hperm
  have hpushed : (List.range crowd.producers.toList.length).flatMap
      (fun t => (asked t).map f.unwrap) =
        (List.range (plan.producers.toNat * plan.items.toNat)).map UInt64.ofNat := by
    rw [← Plan.flatMap_tags, Array.length_toList, h.producers_size]
    refine List.flatMap_congr fun t ht => ?_
    obtain ⟨x, hx⟩ := h.exists_producer (List.mem_range.1 ht)
    rw [hacc.pushed t x hx, List.map_map]
    simp [Function.comp_def, f.unwrap_wrap]
  have hnone : (List.range crowd.consumers.toList.length).flatMap
      (fun c => (asked (plan.producers.toNat + c)).map f.unwrap) = [] := by
    refine List.flatMap_eq_nil_iff.2 fun c hc => ?_
    have hc : c < crowd.consumers.size := by simpa using hc
    rw [hacc.silent c _ (Array.getElem?_eq_getElem hc)]
    rfl
  have hfirst : (List.range crowd.producers.toList.length).flatMap
      (fun t => (answered t).map f.unwrap) =
        crowd.producers.toList.flatMap (·.taken.reverse) :=
    flatMap_range fun p x hx => hacc.popped p x (by simpa using hx)
  have hsecond : (List.range crowd.consumers.toList.length).flatMap
      (fun c => (answered (plan.producers.toNat + c)).map f.unwrap) =
        crowd.consumers.toList.flatMap (·.taken.reverse) :=
    flatMap_range fun c y hy => hacc.taken c y (by simpa using hy)
  rwa [hpushed, hnone, hfirst, hsecond, List.append_nil] at hperm

/-- A tag tells which producer has enqueued it. -/
private theorem Accounts.origin (hacc : crowd.Accounts f plan moves asked answered)
    (h : crowd.Traced f plan moves) (hfits : plan.Fits) {t : Nat} (ht : t < plan.threads) {a : α}
    (ha : a ∈ asked t) : (f.unwrap a).toNat / plan.items.toNat = t := by
  rcases h.thread_cases ht with ⟨x, hx⟩ | ⟨c, y, rfl, hy⟩
  · rw [hacc.pushed t x hx] at ha
    obtain ⟨tag, htag, rfl⟩ := List.mem_map.1 ha
    rw [f.unwrap_wrap]
    exact hfits.origin (h.producer_lt hx) htag
  · rw [hacc.silent c y hy] at ha
    cases ha

/-- A consumer has taken the tags of each producer in their order. -/
private theorem Accounts.order (hacc : crowd.Accounts f plan moves asked answered)
    (h : crowd.Traced f plan moves) (hfits : plan.Fits) {y : Consumer (Call α)}
    (hy : y ∈ crowd.consumers) {p : Nat} (hp : p < plan.producers.toNat) :
    (y.taken.reverse.filter fun tag => tag.toNat / plan.items.toNat = p).Sublist
      (plan.tags p plan.items.toNat) := by
  obtain ⟨c, hc⟩ := Array.getElem?_of_mem hy
  obtain ⟨x, hx⟩ := h.exists_producer hp
  have hgiver : p < plan.threads := Nat.lt_of_lt_of_le hp (Nat.le_add_right _ _)
  have hsub := (System.answered_sublist hacc.ledger
    (fun t ht a ha => hacc.origin h hfits ht ha) (h.consumer_lt hc) hgiver).map f.unwrap
  -- Wrapping a tag and unwrapping it again gives the tag.
  have hid : f.unwrap ∘ f.wrap = id := funext f.unwrap_wrap
  rw [hacc.pushed p x hx, List.map_map, hid, List.map_id] at hsub
  rw [← hacc.taken c y hc, List.filter_map]
  exact hsub

/-- Nobody is in a call, so nobody is ahead of the chain. -/
private theorem Accounts.count_eq (hacc : crowd.Accounts f plan moves asked answered)
    (h : crowd.Traced f plan moves) :
    crowd.queue.count = UInt64.ofNat crowd.queue.items.length := by
  have hidle : ∀ t, ((System.init plan.threads : System α).run moves).running? t = none := by
    intro t
    by_cases ht : t < plan.threads
    · exact (hacc.ledger t ht).running
    · cases hrun : ((System.init plan.threads : System α).run moves).running? t with
      | none => rfl
      | some call =>
        -- There is no such thread.
        have hlt := System.running?_lt hrun
        rw [System.length_run, System.length_init] at hlt
        exact absurd hlt ht
  have hcount := System.count_run plan.threads moves
  unfold System.Counted at hcount
  rw [System.ahead_eq_zero hidle, h.queue] at hcount
  exact hcount

end Accounts

/-- What holds of a crowd on a linked queue when all its threads have ended. -/
structure Balanced (f : Facade Word α) (plan : Plan) (crowd : Crowd (Shared α) (Call α)) :
    Prop where
  /-- Every tag is with the thread that has taken it or in the queue. -/
  perm : ((List.range (plan.producers.toNat * plan.items.toNat)).map UInt64.ofNat).Perm
    (crowd.producers.toList.flatMap (·.taken.reverse) ++
      crowd.consumers.toList.flatMap (·.taken.reverse) ++ crowd.queue.items.map f.unwrap)
  /-- A consumer has taken the tags of each producer in their order. -/
  order : ∀ y ∈ crowd.consumers, ∀ p < plan.producers.toNat,
    (y.taken.reverse.filter fun tag => tag.toNat / plan.items.toNat = p).Sublist
      (plan.tags p plan.items.toNat)
  count_eq : crowd.queue.count = UInt64.ofNat crowd.queue.items.length
  nodeCount?_eq : crowd.queue.nodeCount? = some crowd.queue.items.length

/-- A crowd whose threads have all ended has balanced accounts. -/
theorem Traced.balanced (h : crowd.Traced f plan moves) (hfits : plan.Fits)
    (hended : crowd.ended = true) : crowd.Balanced f plan := by
  obtain ⟨asked, answered, hacc⟩ := h.exists_accounts hended
  have hinv := ((System.Reachable.init plan.threads).run moves).inv
  -- Each part of the balance is read off the two accounts, the last off the chain.
  exact {
    perm := hacc.perm h
    order := fun y hy p hp => hacc.order h hfits hy hp
    count_eq := hacc.count_eq h
    nodeCount?_eq := by
      rw [← h.queue]
      exact hinv.coherent.nodeCount?_eq }

end Crowd

end AtomicFifo

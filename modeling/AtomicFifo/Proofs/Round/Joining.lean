import AtomicFifo.Proofs.Crowd.Protocol
import AtomicFifo.Round
import Mathlib.Algebra.Order.Ring.Nat

/-!
# Joining the threads of a round

The threads of a round stand in an order: the producers, then the consumers. The main thread joins
them in this order, up to the first that has failed. What becomes of the round depends on this
thread and on those behind it, which nobody joins; what the threads before it were doing at the
time does not matter.

* `map_endings`          the endings of the threads, in their order
* `join_completed`       all threads have ended normally
* `join_failed`          the first thread that has failed, and the threads behind it
* `join_eq_ok_iff`       when joining does not fail
* `join_capacityOverflow`  the list of the tags finds no memory
* `conclude_completed`   a round without a failure is verified
* `conclude_failed`      a round with a failure ends at once
* `exists_play_eq`       a whole round whose tags are few enough
-/

namespace AtomicFifo.Round

universe u v

/-! ### The order of the threads -/

section Endings

variable {σ : Type u} {κ : Type v} {crowd : Crowd σ κ}

/-- How the threads of a crowd have ended, in the order in which they are joined. -/
def endings (crowd : Crowd σ κ) : List Ending := producerEndings crowd ++ consumerEndings crowd

/-- The endings are those of the producers and of the consumers. -/
theorem mem_endings {e : Ending} : e ∈ endings crowd ↔
    (∃ (p : Nat) (x : Producer κ), crowd.producers[p]? = some x ∧ x.phase = .ended e) ∨
      ∃ (c : Nat) (y : Consumer κ), crowd.consumers[c]? = some y ∧ y.phase = .ended e := by
  unfold endings producerEndings consumerEndings
  rw [List.mem_append, List.mem_filterMap, List.mem_filterMap]
  simp only [Producer.ending?_eq_some_iff, Consumer.ending?_eq_some_iff, List.mem_iff_getElem?,
    Array.getElem?_toList]
  constructor
  · rintro (⟨x, ⟨p, hx⟩, he⟩ | ⟨y, ⟨c, hy⟩, he⟩)
    · exact .inl ⟨p, x, hx, he⟩
    · exact .inr ⟨c, y, hy, he⟩
  · rintro (⟨p, x, hx, he⟩ | ⟨c, y, hy, he⟩)
    · exact .inl ⟨x, ⟨p, hx⟩, he⟩
    · exact .inr ⟨y, ⟨c, hy⟩, he⟩

/-- Where everything has a value, the values are all there. -/
private theorem map_some_filterMap {β : Type u} {γ : Type v} {l : List β} {g : β → Option γ}
    (h : ∀ x ∈ l, (g x).isSome) : (l.filterMap g).map some = l.map g := by
  rw [List.map_filterMap_some_eq_filter_map_isSome,
    List.filter_eq_self.2 (List.forall_mem_map.2 h)]

/-- In a crowd that has ended every thread has an ending. -/
private theorem isSome_of_ended (hended : crowd.ended = true) :
    (∀ x ∈ crowd.producers.toList, x.ending?.isSome) ∧
      ∀ y ∈ crowd.consumers.toList, y.ending?.isSome := by
  simp only [Crowd.ended, Bool.and_eq_true, Array.all_eq_true'] at hended
  obtain ⟨⟨-, hp⟩, hc⟩ := hended
  exact ⟨fun x hx => hp x (Array.mem_toList_iff.1 hx), fun y hy => hc y (Array.mem_toList_iff.1 hy)⟩

/-- In a crowd that has ended the endings of the producers are in their order. -/
private theorem map_producerEndings (hended : crowd.ended = true) :
    (producerEndings crowd).map some = crowd.producers.toList.map (·.ending?) :=
  map_some_filterMap (isSome_of_ended hended).1

/-- When all threads have ended, each of them has its place in the order. -/
theorem map_endings (hended : crowd.ended = true) :
    (endings crowd).map some =
      crowd.producers.toList.map (·.ending?) ++ crowd.consumers.toList.map (·.ending?) := by
  rw [endings, List.map_append, map_producerEndings hended]
  exact congrArg _ (map_some_filterMap (isSome_of_ended hended).2)

/-- The place of a producer is its number. -/
theorem getElem?_endings (hended : crowd.ended = true) {p : Nat} {x : Producer κ} {e : Ending}
    (hx : crowd.producers[p]? = some x) (he : x.phase = .ended e) :
    (endings crowd)[p]? = some e := by
  obtain ⟨hlt, -⟩ := Array.getElem?_eq_some_iff.1 hx
  have hmap : ((endings crowd).map some)[p]? = some (some e) := by
    rw [map_endings hended, List.getElem?_append_left (by simpa using hlt), List.getElem?_map,
      Array.getElem?_toList, hx, Option.map_some, Producer.ending?_eq_some_iff.2 he]
  rw [List.getElem?_map, Option.map_eq_some_iff] at hmap
  obtain ⟨e', he', heq⟩ := hmap
  rw [he', Option.some.inj heq]

/-- In a crowd that has ended there is an ending for every producer. -/
private theorem length_producerEndings (hended : crowd.ended = true) :
    (producerEndings crowd).length = crowd.producers.size := by
  have h := congrArg List.length (map_producerEndings hended)
  simpa using h

end Endings

/-! ### Joining -/

section Join

variable {producers consumers : List Ending} {total : Word} {refusal : Word → ErrorChain}

/-- Joining threads that have ended normally finds no failure. -/
private theorem joinEach_completed {threads : List Ending} (h : ∀ e ∈ threads, e = .completed) :
    joinEach threads = none := by
  induction threads with
  | nil => rfl
  | cons e threads ih =>
    obtain rfl := h e (List.mem_cons_self ..)
    exact ih fun e he => h e (List.mem_cons_of_mem _ he)

/-- Joining finds no failure exactly if all threads have ended normally. -/
private theorem joinEach_eq_none_iff {threads : List Ending} :
    joinEach threads = none ↔ ∀ e ∈ threads, e = .completed := by
  refine ⟨fun h => ?_, joinEach_completed⟩
  -- By induction on the threads, which are joined in their order.
  induction threads with
  | nil => simp
  | cons e threads ih =>
    cases e with
    | completed => simpa using ih h
    | _ => cases h

/-- The threads before the first that has failed do not count. -/
private theorem joinEach_failed {done rest : List Ending} {e : Ending}
    (hdone : ∀ d ∈ done, d = .completed) (he : e ≠ .completed) :
    joinEach (done ++ e :: rest) = some (e, rest) := by
  induction done with
  | nil =>
    cases e with
    | completed => exact absurd rfl he
    | _ => rfl
  | cons d done ih =>
    obtain rfl := hdone d (List.mem_cons_self ..)
    exact ih fun d hd => hdone d (List.mem_cons_of_mem _ hd)

/-- A scope whose body fails with an error lets through no panic of a thread that nobody has
joined. -/
private theorem scope_error (unjoined : List Ending) (error : RoundError) :
    scope unjoined (.error (.error error)) =
      .error (if .panicked ∈ unjoined then .panic .scopedThread else .error error) := by
  simp only [scope, List.contains_iff_mem]
  split <;> rfl

/-- Joining succeeds where all threads have ended normally and there is room for the tags. -/
theorem join_completed (hproducers : ∀ e ∈ producers, e = .completed)
    (hconsumers : ∀ e ∈ consumers, e = .completed) (hroom : allocatable total = true) :
    join refusal producers consumers total = .ok () := by
  rw [join, joinEach_completed hproducers, joinEach_completed hconsumers, hroom]
  rfl

/-- The first thread that has failed says how the round ends, unless one of the threads behind it
has panicked. -/
theorem join_failed {done rest : List Ending} {e : Ending}
    (hthreads : producers ++ consumers = done ++ e :: rest)
    (hdone : ∀ d ∈ done, d = .completed) (he : e ≠ .completed)
    (hroom : allocatable total = true) :
    join refusal producers consumers total =
      .error (if .panicked ∈ rest then .panic .scopedThread
        else .error (if done.length < producers.length then producerError refusal e
          else .consumerPanicked)) := by
  rcases List.append_eq_append_iff.1 hthreads with ⟨done', rfl, hconsumers⟩ | ⟨rest', hp, hrest⟩
  · -- All producers have ended normally, and a consumer is the first that has not.
    have hlen : ¬ (producers ++ done').length < producers.length := by
      rw [List.length_append]
      omega
    have hproducers : joinEach producers = none :=
      joinEach_completed fun d hd => hdone d (List.mem_append_left _ hd)
    have hfirst : joinEach consumers = some (e, rest) := by
      rw [hconsumers]
      exact joinEach_failed (fun d hd => hdone d (List.mem_append_right _ hd)) he
    rw [join, hproducers, hfirst, hroom, if_neg hlen]
    exact scope_error rest .consumerPanicked
  · cases rest' with
    | nil =>
      -- The producers end where the first failure is, so it is that of the first consumer.
      rw [List.append_nil] at hp
      rw [List.nil_append] at hrest
      have hlen : ¬ done.length < producers.length := by
        rw [hp]
        omega
      have hproducers : joinEach producers = none := by
        rw [hp]
        exact joinEach_completed hdone
      have hfirst : joinEach consumers = some (e, rest) := by
        have hnil : ∀ d ∈ ([] : List Ending), d = .completed := by simp
        rw [← hrest]
        exact joinEach_failed hnil he
      rw [join, hproducers, hfirst, hroom, if_neg hlen]
      exact scope_error rest .consumerPanicked
    | cons d rest' =>
      -- It is that of a producer; the producers behind it are not joined either.
      rw [List.cons_append, List.cons.injEq] at hrest
      obtain ⟨rfl, rfl⟩ := hrest
      have hlen : done.length < producers.length := by
        rw [hp, List.length_append, List.length_cons]
        omega
      have hfirst : joinEach producers = some (e, rest') := by
        rw [hp]
        exact joinEach_failed hdone he
      rw [join, hfirst, if_pos hlen]
      exact scope_error (rest' ++ consumers) (producerError refusal e)

/-- A scope whose body has failed fails as well. -/
private theorem scope_error_ne_ok (unjoined : List Ending) (failure : Failure) :
    scope unjoined (.error failure) ≠ .ok () := by
  cases failure with
  | panic p => simp [scope]
  | error e => simp [scope_error]

/-- The threads of a round are joined without a failure exactly if all of them have ended normally
and there is memory for the list of the tags. -/
theorem join_eq_ok_iff : join refusal producers consumers total = .ok () ↔
    (∀ e ∈ producers ++ consumers, e = .completed) ∧ allocatable total = true := by
  constructor
  · intro h
    unfold join at h
    -- The producers are joined first, then room is made, then the consumers are joined.
    split at h
    · exact absurd h (scope_error_ne_ok _ _)
    · rename_i hproducers
      cases hroom : allocatable total with
      | false =>
        simp only [hroom, Bool.not_false, if_true] at h
        exact absurd h (scope_error_ne_ok _ _)
      | true =>
        simp only [hroom, Bool.not_true, Bool.false_eq_true, if_false] at h
        split at h
        · exact absurd h (scope_error_ne_ok _ _)
        · rename_i hconsumers
          rw [joinEach_eq_none_iff] at hproducers hconsumers
          exact ⟨fun e he => (List.mem_append.1 he).elim (hproducers e) (hconsumers e), rfl⟩
  · rintro ⟨hall, hroom⟩
    exact join_completed (fun e he => hall e (List.mem_append_left _ he))
      (fun e he => hall e (List.mem_append_right _ he)) hroom

/-- Joining the threads does not multiply anything. -/
theorem join_ne_multiplyOverflow :
    join refusal producers consumers total ≠ .error (.panic .multiplyOverflow) := by
  unfold join
  split
  · rw [scope_error]
    split <;> simp
  · split
    · simp [scope]
    · split
      · rw [scope_error]
        split <;> simp
      · simp [scope]

/-- If there is no memory for the list of the tags, the round panics where it has joined its
producers, whatever becomes of the consumers. -/
theorem join_capacityOverflow (hproducers : ∀ e ∈ producers, e = .completed)
    (hroom : allocatable total = false) :
    join refusal producers consumers total = .error (.panic .capacityOverflow) := by
  rw [join, joinEach_completed hproducers, hroom]
  rfl

end Join

/-! ### The end of a round -/

section Subjects

variable {σ : Type u} {κ : Type v} {subject : Subject σ κ} {crowd : Crowd σ κ} {total : Word}

/-- Tags that take less than half of the address space can be held. -/
theorem allocatable_of_lt (h : 8 * total.toNat < 2 ^ 63) : allocatable total = true := by
  unfold allocatable
  rw [decide_eq_true_iff]
  omega

/-- A round whose threads have all ended normally ends as its verification does. -/
theorem conclude_completed (hended : crowd.ended = true)
    (hall : ∀ e ∈ endings crowd, e = .completed) (hroom : allocatable total = true) :
    conclude subject total crowd =
      { verify subject total crowd.queue (taken crowd) with
        events := crowd.log.reverse ++
          (verify subject total crowd.queue (taken crowd)).events } := by
  have hjoin : join subject.refusal (producerEndings crowd) (consumerEndings crowd) total =
      .ok () :=
    join_completed (fun e he => hall e (List.mem_append_left _ he))
      (fun e he => hall e (List.mem_append_right _ he)) hroom
  simp [conclude, hended, hjoin]

/-- A round with a thread that has failed ends without a question to the queue, and drops it. -/
theorem conclude_failed {done rest : List Ending} {e : Ending} (hended : crowd.ended = true)
    (hthreads : endings crowd = done ++ e :: rest) (hdone : ∀ d ∈ done, d = .completed)
    (he : e ≠ .completed) (hroom : allocatable total = true) :
    conclude subject total crowd =
      ⟨⟨.failed (if .panicked ∈ rest then .panic .scopedThread
        else .error (if done.length < crowd.producers.size
          then producerError subject.refusal e else .consumerPanicked)),
        crowd.log.reverse⟩, some crowd.queue⟩ := by
  have hjoin : join subject.refusal (producerEndings crowd) (consumerEndings crowd) total = _ :=
    join_failed hthreads hdone he hroom
  rw [length_producerEndings hended] at hjoin
  simp [conclude, hended, hjoin]

/-- A round whose tags are few enough for their list ends as its threads have ended. -/
theorem exists_play_eq {plan : Plan} (subject : Subject σ κ) (queue : σ) (schedule : List Agent)
    (hroom : 8 * (plan.producers.toNat * plan.items.toNat) < 2 ^ 63) :
    ∃ total, plan.total? = some total ∧
      total.toNat = plan.producers.toNat * plan.items.toNat ∧ allocatable total = true ∧
      play subject plan queue schedule =
        conclude subject total (Crowd.follow subject.toFifo plan (.init plan queue) schedule) := by
  have hfits : plan.producers.toNat * plan.items.toNat < UInt64.size := by
    show _ < 2 ^ 64
    omega
  obtain ⟨total, htotal, htotal_eq⟩ := Word.exists_mul?_eq_some hfits
  refine ⟨total, htotal, htotal_eq, allocatable_of_lt (htotal_eq ▸ hroom), ?_⟩
  rw [play, show plan.total? = some total from htotal]

end Subjects

end AtomicFifo.Round

import AtomicFifo.Crowd

/-!
# How a crowd comes to its end

The main thread sets the mark `finished` once it has joined all producers, or has met one that
failed. A consumer ends on an empty poll only if it had read the mark as set before the poll
began, and it says how much it has taken as it ends. None of this depends on what the queue
does.

`Crowd.Steps` lists what one step of an agent can do to a crowd; everything else is derived
from it.

* `step_steps`         a step of an agent is one of these
* `Protocol.follow`    what the mark says, after every schedule
* `Reported.follow`    what the consumers have reported, after every schedule
-/

namespace AtomicFifo

universe u v

variable {σ : Type u} {κ : Type v}

/-- What a step of a producer does to the queue and to the producer, and the events that it
emits. -/
inductive Producer.Goes (f : Fifo σ κ) (plan : Plan) (index : Nat) (queue : σ) (x : Producer κ) :
    σ → Producer κ → List Event → Prop
  | begin (h : x.phase = .ready) :
      Goes f plan index queue x queue (Crowd.beginPush f plan index x) []
  | push {call : κ} (h : x.phase = .pushing call) :
      Goes f plan index queue x (f.step queue call).state
        (Crowd.afterPush f plan x (f.step queue call).progress) (f.step queue call).event.toList
  | pop {call : κ} (h : x.phase = .popping call) :
      Goes f plan index queue x (f.step queue call).state
        (Crowd.afterPop x (f.step queue call).progress) (f.step queue call).event.toList

/-- What a step of a consumer does to the queue and to the consumer while the mark has this
value, and the events that it emits. -/
inductive Consumer.Goes (f : Fifo σ κ) (index : Nat) (finished : Bool) (queue : σ)
    (y : Consumer κ) : σ → Consumer κ → List Event → Prop
  | begin (h : y.phase = .ready) :
      Goes f index finished queue y queue
        { y with phase := .polling finished (f.start .dequeue) } []
  | poll {seen : Bool} {call : κ} (h : y.phase = .polling seen call) :
      Goes f index finished queue y (f.step queue call).state
        (Crowd.afterPoll index seen y (f.step queue call).progress).1
        ((Crowd.afterPoll index seen y (f.step queue call).progress).2.toList ++
          (f.step queue call).event.toList)

/-- A producer has an ending just if its phase says that it has ended so. -/
theorem Producer.ending?_eq_some_iff {x : Producer κ} {e : Ending} :
    x.ending? = some e ↔ x.phase = .ended e := by
  unfold ending?
  split <;> simp_all

/-- A consumer has an ending just if its phase says that it has ended so. -/
theorem Consumer.ending?_eq_some_iff {y : Consumer κ} {e : Ending} :
    y.ending? = some e ↔ y.phase = .ended e := by
  unfold ending?
  split <;> simp_all

/-- How much a consumer says that it has taken, as it ends. -/
def Event.report? : Event → Option (Nat × Nat)
  | .drained consumer items => some (consumer, items)
  | _ => none

/-- The queue itself reports nothing as a consumer does. -/
def Fifo.Quiet (f : Fifo σ κ) : Prop :=
  ∀ queue call, (f.step queue call).event.bind Event.report? = none

/-- The events of a quiet queue are no reports. -/
private theorem Fifo.Quiet.filterMap_report {f : Fifo σ κ} (hf : f.Quiet) (queue : σ) (call : κ) :
    (f.step queue call).event.toList.filterMap Event.report? = [] := by
  have := hf queue call
  cases h : (f.step queue call).event with
  | none => rfl
  | some e =>
    rw [h] at this
    exact List.filterMap_cons_none this

section Threads

variable {f : Fifo σ κ} {plan : Plan} {index : Nat} {finished : Bool} {queue queue' : σ}
  {events : List Event}

/-- A producer that has ended takes no more steps. -/
theorem Producer.Goes.not_ended {x x' : Producer κ}
    (h : x.Goes f plan index queue queue' x' events) (e : Ending) : x.phase ≠ .ended e := by
  intro he
  cases h <;> simp_all

/-- Producers report nothing. -/
private theorem Producer.Goes.no_report {x x' : Producer κ} (hf : f.Quiet)
    (h : x.Goes f plan index queue queue' x' events) : events.filterMap Event.report? = [] := by
  cases h with
  | begin h => rfl
  | push h | pop h => exact hf.filterMap_report queue _

/-- A consumer that polls after it has read the mark as set has read it just now or before. -/
private theorem Consumer.Goes.polling {y y' : Consumer κ} {call : κ}
    (h : y.Goes f index finished queue queue' y' events) (h' : y'.phase = .polling true call) :
    finished = true ∨ ∃ call, y.phase = .polling true call := by
  cases h with
  | begin h =>
    cases h'
    exact .inl rfl
  | @poll seen call h =>
    -- Of the outcomes of a poll only the one that goes on leaves the consumer polling.
    refine .inr ⟨call, ?_⟩
    unfold Crowd.afterPoll at h'
    split at h'
    · cases h'
      exact h
    · cases h'
    · split at h'
      · cases h'
      · split at h' <;> cases h'

/-- A consumer ends normally by an empty poll that began after it had read the mark as set. -/
private theorem Consumer.Goes.ended {y y' : Consumer κ}
    (h : y.Goes f index finished queue queue' y' events) (h' : y'.phase = .ended .completed) :
    ∃ call reply, y.phase = .polling true call ∧ queue' = (f.step queue call).state ∧
      (f.step queue call).progress = .returned reply ∧ reply.item? = none := by
  cases h with
  | begin h => cases h'
  | @poll seen call h =>
    cases hp : (f.step queue call).progress with
    | running c => simp [Crowd.afterPoll, hp] at h'
    | panicked => simp [Crowd.afterPoll, hp] at h'
    | returned reply =>
      -- Only a dequeue that finds nothing, after the mark was seen, ends a consumer normally.
      cases hitem : reply.item? with
      | some tag => simp [Crowd.afterPoll, hp, hitem] at h'
      | none =>
        cases seen with
        | false => simp [Crowd.afterPoll, hp, hitem] at h'
        | true => exact ⟨call, reply, h, rfl, hp, hitem⟩

/-- What a consumer reports: how much it has taken, if it ends normally, and nothing else. -/
private theorem Consumer.Goes.reports {y y' : Consumer κ} (hf : f.Quiet)
    (h : y.Goes f index finished queue queue' y' events) :
    (y'.phase = .ended .completed ∧ events.filterMap Event.report? = [(index, y'.taken.length)]) ∨
      (y'.phase ≠ .ended .completed ∧ events.filterMap Event.report? = []) := by
  cases h with
  | begin h => exact .inr ⟨by simp, rfl⟩
  | @poll seen call h =>
    have hquiet := hf.filterMap_report queue call
    rw [List.filterMap_append, hquiet, List.append_nil]
    -- The queue itself reports nothing, so what is left is what the poll says at its end.
    cases hp : (f.step queue call).progress with
    | running c => exact .inr ⟨by simp [Crowd.afterPoll], rfl⟩
    | panicked => exact .inr ⟨by simp [Crowd.afterPoll], rfl⟩
    | returned reply =>
      cases hitem : reply.item? with
      | some tag =>
        simp only [Crowd.afterPoll, hitem]
        exact .inr ⟨by simp, rfl⟩
      | none =>
        cases seen with
        | false =>
          simp only [Crowd.afterPoll, hitem]
          exact .inr ⟨by simp, rfl⟩
        | true =>
          simp only [Crowd.afterPoll, hitem]
          exact .inl ⟨rfl, rfl⟩

/-- A consumer that takes a step has not ended. -/
private theorem Consumer.Goes.not_ended {y y' : Consumer κ}
    (h : y.Goes f index finished queue queue' y' events) (e : Ending) : y.phase ≠ .ended e := by
  intro he
  cases h <;> simp_all

end Threads

namespace Crowd

variable {f : Fifo σ κ} {plan : Plan} {crowd crowd' : Crowd σ κ}

/-- What a step of an agent does to a crowd. -/
inductive Steps (f : Fifo σ κ) (plan : Plan) (crowd : Crowd σ κ) : Crowd σ κ → Prop
  | rest : Steps f plan crowd crowd
  | producer {index : Nat} {x x' : Producer κ} {queue : σ} {events : List Event}
      (hx : crowd.producers[index]? = some x)
      (h : x.Goes f plan index crowd.queue queue x' events) :
      Steps f plan crowd { crowd with
        queue := queue
        producers := crowd.producers.setIfInBounds index x'
        log := events ++ crowd.log }
  | consumer {index : Nat} {y y' : Consumer κ} {queue : σ} {events : List Event}
      (hy : crowd.consumers[index]? = some y)
      (h : y.Goes f index crowd.finished crowd.queue queue y' events) :
      Steps f plan crowd { crowd with
        queue := queue
        consumers := crowd.consumers.setIfInBounds index y'
        log := events ++ crowd.log }
  -- The main thread goes on from a producer that has ended normally.
  | join {x : Producer κ} (hopen : crowd.finished = false)
      (hx : crowd.producers[crowd.joined]? = some x) (h : x.phase = .ended .completed) :
      Steps f plan crowd { crowd with joined := crowd.joined + 1 }
  -- It sets the mark behind the last producer, or at one that has failed.
  | finish (hopen : crowd.finished = false)
      (h : ∀ x, crowd.producers[crowd.joined]? = some x →
        ∃ e, x.phase = .ended e ∧ e ≠ .completed) :
      Steps f plan crowd { crowd with finished := true }

/-- A producer that has not ended takes a step. -/
theorem step_producer (f : Fifo σ κ) (plan : Plan) {index : Nat} {x : Producer κ}
    (hx : crowd.producers[index]? = some x) (hrun : x.ending? = none) :
    ∃ x' queue events, x.Goes f plan index crowd.queue queue x' events ∧
      crowd.step f plan (.producer index) = { crowd with
        queue := queue
        producers := crowd.producers.setIfInBounds index x'
        log := events ++ crowd.log } := by
  -- In each phase but the last there is one thing to do.
  cases hphase : x.phase with
  | ready =>
    refine ⟨_, _, _, .begin hphase, ?_⟩
    simp only [step, hx, hphase]
    rfl
  | pushing call =>
    refine ⟨_, _, _, .push hphase, ?_⟩
    simp only [step, hx, hphase]
  | popping call =>
    refine ⟨_, _, _, .pop hphase, ?_⟩
    simp only [step, hx, hphase]
  | ended e =>
    rw [Producer.ending?_eq_some_iff.2 hphase] at hrun
    cases hrun

/-- A consumer that has not ended takes a step. -/
theorem step_consumer (f : Fifo σ κ) (plan : Plan) {index : Nat} {y : Consumer κ}
    (hy : crowd.consumers[index]? = some y) (hrun : y.ending? = none) :
    ∃ y' queue events, y.Goes f index crowd.finished crowd.queue queue y' events ∧
      crowd.step f plan (.consumer index) = { crowd with
        queue := queue
        consumers := crowd.consumers.setIfInBounds index y'
        log := events ++ crowd.log } := by
  -- In each phase but the last there is one thing to do.
  cases hphase : y.phase with
  | ready =>
    refine ⟨_, _, _, .begin hphase, ?_⟩
    simp only [step, hy, hphase]
    rfl
  | polling seen call =>
    refine ⟨_, _, _, .poll hphase, ?_⟩
    simp only [step, hy, hphase, List.append_assoc]
  | ended e =>
    rw [Consumer.ending?_eq_some_iff.2 hphase] at hrun
    cases hrun

/-- Every step of an agent is one of the steps that there are. -/
theorem step_steps (f : Fifo σ κ) (plan : Plan) (crowd : Crowd σ κ) (agent : Agent) :
    Steps f plan crowd (crowd.step f plan agent) := by
  cases agent with
  | producer index =>
    -- A thread that does not exist, or that has ended, takes no step.
    cases hx : crowd.producers[index]? with
    | none =>
      simp only [step, hx]
      exact .rest
    | some x =>
      cases hend : x.ending? with
      | some e =>
        simp only [step, hx, Producer.ending?_eq_some_iff.1 hend]
        exact .rest
      | none =>
        obtain ⟨x', queue, events, hgo, hstep⟩ := step_producer f plan hx hend
        rw [hstep]
        exact .producer hx hgo
  | consumer index =>
    cases hy : crowd.consumers[index]? with
    | none =>
      simp only [step, hy]
      exact .rest
    | some y =>
      cases hend : y.ending? with
      | some e =>
        simp only [step, hy, Consumer.ending?_eq_some_iff.1 hend]
        exact .rest
      | none =>
        obtain ⟨y', queue, events, hgo, hstep⟩ := step_consumer f plan hy hend
        rw [hstep]
        exact .consumer hy hgo
  | main =>
    obtain ⟨queue, producers, consumers, joined, finished, log⟩ := crowd
    cases finished with
    | true => exact .rest
    | false =>
      cases hx : producers[joined]? with
      | none =>
        simp only [step, hx]
        exact .finish rfl fun x h => by simp [hx] at h
      | some x =>
        -- The mark is set as soon as the producer that is waited for has ended by a failure.
        have hfail : ∀ e, x.phase = .ended e → e ≠ .completed →
            Steps f plan ⟨queue, producers, consumers, joined, false, log⟩
              ⟨queue, producers, consumers, joined, true, log⟩ := by
          intro e hphase he
          refine .finish rfl fun x' h => ?_
          cases hx.symm.trans h
          exact ⟨e, hphase, he⟩
        cases hphase : x.phase with
        | ended e =>
          simp only [step, hx, hphase]
          cases e with
          | completed => exact .join rfl hx hphase
          | refused item => exact hfail _ hphase (by simp)
          | panicked => exact hfail _ hphase (by decide)
        | _ =>
          simp only [step, hx, hphase]
          exact .rest

/-- What every step keeps holds after every schedule. -/
theorem follow_induction {P : Crowd σ κ → Prop}
    (hstep : ∀ crowd crowd', P crowd → Steps f plan crowd crowd' → P crowd') (h : P crowd)
    (schedule : List Agent) : P (follow f plan crowd schedule) := by
  induction schedule generalizing crowd with
  | nil => exact h
  | cons agent schedule ih => exact ih (hstep _ _ h (step_steps f plan crowd agent))

/-! ### The mark -/

/-- What an array holds after one of its places has been written. -/
theorem set_cases {β : Type u} {xs : Array β} {i j : Nat} {a b : β}
    (h : (xs.setIfInBounds i a)[j]? = some b) : (j = i ∧ b = a) ∨ (j ≠ i ∧ xs[j]? = some b) := by
  rw [Array.getElem?_setIfInBounds] at h
  split at h
  · rename_i heq
    split at h
    · cases h
      exact .inl ⟨heq.symm, rfl⟩
    · cases h
  · rename_i hne
    exact .inr ⟨Ne.symm hne, h⟩

/-- What it means that the mark is set, and who has read it as set. -/
structure Protocol (crowd : Crowd σ κ) : Prop where
  joined_le : crowd.joined ≤ crowd.producers.size
  joined : ∀ {p : Nat} {x : Producer κ}, p < crowd.joined → crowd.producers[p]? = some x →
    x.phase = .ended .completed
  /-- All producers have ended normally, or one of them has failed. -/
  finished : crowd.finished = true →
    (∀ (p : Nat) (x : Producer κ), crowd.producers[p]? = some x → x.phase = .ended .completed) ∨
      ∃ (p : Nat) (x : Producer κ) (e : Ending), crowd.producers[p]? = some x ∧
        x.phase = .ended e ∧ e ≠ .completed
  polling : ∀ {c : Nat} {y : Consumer κ} {call : κ}, crowd.consumers[c]? = some y →
    y.phase = .polling true call → crowd.finished = true
  ended : ∀ {c : Nat} {y : Consumer κ}, crowd.consumers[c]? = some y →
    y.phase = .ended .completed → crowd.finished = true

/-- At the start no producer is joined, and no consumer has seen the mark. -/
theorem Protocol.init (plan : Plan) (queue : σ) : (init plan queue : Crowd σ κ).Protocol where
  joined_le := Nat.zero_le _
  joined h := absurd h (Nat.not_lt_zero _)
  finished h := by cases h
  polling h h' := by
    simp only [Crowd.init, Array.getElem?_replicate] at h
    split at h <;> cases h
    cases h'
  ended h h' := by
    simp only [Crowd.init, Array.getElem?_replicate] at h
    split at h <;> cases h
    cases h'

/-- Every step keeps the protocol. -/
theorem Protocol.steps (h : crowd.Protocol) (hsteps : Steps f plan crowd crowd') :
    crowd'.Protocol := by
  cases hsteps with
  | rest => exact h
  | @producer index x x' queue events hx hgo =>
    -- The producer that takes the step has not ended, and what the others do stays as it is.
    have hne : ∀ {p : Nat} {x₁ : Producer κ} {e : Ending}, crowd.producers[p]? = some x₁ →
        x₁.phase = .ended e → p ≠ index := by
      rintro p x₁ e hp he rfl
      cases hx.symm.trans hp
      exact hgo.not_ended e he
    have hother : ∀ {p : Nat} {x₁ : Producer κ}, p ≠ index → crowd.producers[p]? = some x₁ →
        (crowd.producers.setIfInBounds index x')[p]? = some x₁ := by
      intro p x₁ hp h₁
      rwa [Array.getElem?_setIfInBounds_ne (Ne.symm hp)]
    exact { h with
      joined_le := by simpa using h.joined_le
      joined := fun {p x₁} hp hx₁ => by
        rcases set_cases hx₁ with ⟨rfl, -⟩ | ⟨-, hx₁⟩
        · exact absurd (h.joined hp hx) (hgo.not_ended _)
        · exact h.joined hp hx₁
      finished := fun hfin => by
        rcases h.finished hfin with hall | ⟨p, x₁, e, hx₁, he, hfail⟩
        · exact absurd (hall index x hx) (hgo.not_ended _)
        · exact .inr ⟨p, x₁, e, hother (hne hx₁ he) hx₁, he, hfail⟩ }
  | @consumer index y y' queue events hy hgo =>
    -- A consumer does not touch the mark; it can only have read it.
    exact { h with
      polling := fun {c y₁ call} hy₁ hpoll => by
        rcases set_cases hy₁ with ⟨-, rfl⟩ | ⟨-, hy₁⟩
        · rcases hgo.polling hpoll with hfin | ⟨call, hold⟩
          · exact hfin
          · exact h.polling hy hold
        · exact h.polling hy₁ hpoll
      ended := fun {c y₁} hy₁ hend => by
        rcases set_cases hy₁ with ⟨-, rfl⟩ | ⟨-, hy₁⟩
        · obtain ⟨call, reply, hold, -⟩ := hgo.ended hend
          exact h.polling hy hold
        · exact h.ended hy₁ hend }
  -- One more producer is known to have ended normally.
  | @join x hopen hx he =>
    exact { h with
      joined_le := by
        obtain ⟨hlt, -⟩ := Array.getElem?_eq_some_iff.1 hx
        exact hlt
      joined := fun {p x₁} hp hx₁ => by
        by_cases hjoined : p = crowd.joined
        · subst hjoined
          cases hx.symm.trans hx₁
          exact he
        · refine h.joined ?_ hx₁
          simp only at hp
          omega }
  | finish hopen hfin =>
    exact { h with
      finished := fun _ => by
        cases hx : crowd.producers[crowd.joined]? with
        | some x =>
          obtain ⟨e, he, hfail⟩ := hfin x hx
          exact .inr ⟨_, x, e, hx, he, hfail⟩
        | none =>
          -- No producer is left to join.
          refine .inl fun p x hp => h.joined ?_ hp
          obtain ⟨hlt, -⟩ := Array.getElem?_eq_some_iff.1 hp
          exact Nat.lt_of_lt_of_le hlt (Array.getElem?_eq_none_iff.1 hx)
      polling := fun _ _ => rfl
      ended := fun _ _ => rfl }

/-- What the mark means, after every schedule. -/
theorem Protocol.follow (f : Fifo σ κ) (plan : Plan) (queue : σ) (schedule : List Agent) :
    (follow f plan (.init plan queue) schedule).Protocol :=
  follow_induction (fun _ _ h hsteps => h.steps hsteps) (.init plan queue) schedule

/-! ### The reports -/

/-- The consumers that have ended normally have reported how much they have taken, each of them
once, and nobody else has. -/
structure Reported (crowd : Crowd σ κ) : Prop where
  mem : ∀ {c n : Nat}, (c, n) ∈ crowd.log.filterMap Event.report? ↔
    ∃ y, crowd.consumers[c]? = some y ∧ y.phase = .ended .completed ∧ y.taken.length = n
  nodup : (crowd.log.filterMap Event.report?).Nodup

/-- At the start nobody has ended, and there are no reports. -/
private theorem Reported.init (plan : Plan) (queue : σ) :
    (init plan queue : Crowd σ κ).Reported where
  mem := by
    intro c n
    constructor
    · rintro ⟨⟩
    · rintro ⟨y, hy, hend, -⟩
      simp only [Crowd.init, Array.getElem?_replicate] at hy
      split at hy <;> cases hy
      cases hend
  nodup := .nil

/-- Every step keeps one report for each consumer that has ended normally. -/
private theorem Reported.steps (h : crowd.Reported) (hf : f.Quiet)
    (hsteps : Steps f plan crowd crowd') : crowd'.Reported := by
  cases hsteps with
  | rest => exact h
  | producer hx hgo =>
    exact {
      mem := fun {c n} => by
        simpa only [List.filterMap_append, hgo.no_report hf, List.nil_append] using h.mem
      nodup := by
        simpa only [List.filterMap_append, hgo.no_report hf, List.nil_append] using h.nodup }
  | @consumer index y y' queue events hy hgo =>
    -- The reports from before are those of the other consumers.
    have hother : ∀ {c n : Nat}, (c, n) ∈ crowd.log.filterMap Event.report? ↔
        c ≠ index ∧ ∃ y₁, (crowd.consumers.setIfInBounds index y')[c]? = some y₁ ∧
          y₁.phase = .ended .completed ∧ y₁.taken.length = n := by
      intro c n
      rw [h.mem]
      by_cases hc : c = index
      · subst hc
        refine ⟨?_, fun hne => absurd rfl hne.1⟩
        rintro ⟨y₁, hy₁, hend, -⟩
        cases hy.symm.trans hy₁
        exact absurd hend (hgo.not_ended _)
      · rw [Array.getElem?_setIfInBounds_ne (Ne.symm hc)]
        exact ⟨fun hy₁ => ⟨hc, hy₁⟩, And.right⟩
    have hown : ∀ y₁, (crowd.consumers.setIfInBounds index y')[index]? = some y₁ ↔ y' = y₁ := by
      obtain ⟨hlt, -⟩ := Array.getElem?_eq_some_iff.1 hy
      intro y₁
      rw [Array.getElem?_setIfInBounds_self_of_lt hlt, Option.some.injEq]
    rcases hgo.reports hf with ⟨hend, hrep⟩ | ⟨hend, hrep⟩
    -- The consumer ends by this step, and its report is the first of the log.
    · refine ⟨fun {c n} => ?_, ?_⟩
      · simp only [List.filterMap_append, hrep, List.singleton_append, List.mem_cons, hother,
          Prod.mk.injEq]
        constructor
        · rintro (⟨rfl, rfl⟩ | ⟨-, hy₁⟩)
          · exact ⟨y', (hown y').2 rfl, hend, rfl⟩
          · exact hy₁
        · rintro ⟨y₁, hy₁, hend₁, rfl⟩
          by_cases hc : c = index
          · subst hc
            rw [(hown y₁).1 hy₁]
            exact .inl ⟨rfl, rfl⟩
          · exact .inr ⟨hc, y₁, hy₁, hend₁, rfl⟩
      · simp only [List.filterMap_append, hrep, List.singleton_append, List.nodup_cons, hother]
        exact ⟨fun hne => hne.1 rfl, h.nodup⟩
    -- It does not end, so there is no report of it.
    · refine ⟨fun {c n} => ?_, ?_⟩
      · simp only [List.filterMap_append, hrep, List.nil_append, hother]
        refine ⟨And.right, fun hy₁ => ⟨?_, hy₁⟩⟩
        rintro rfl
        obtain ⟨y₁, hy₁, hend₁, -⟩ := hy₁
        rw [← (hown y₁).1 hy₁] at hend₁
        exact hend hend₁
      · simpa only [List.filterMap_append, hrep, List.nil_append] using h.nodup
  | join hopen hx he => exact ⟨h.mem, h.nodup⟩
  | finish hopen hfin => exact ⟨h.mem, h.nodup⟩

/-- What has been reported, after every schedule. -/
theorem Reported.follow (hf : f.Quiet) (plan : Plan) (queue : σ) (schedule : List Agent) :
    (follow f plan (.init plan queue) schedule).Reported :=
  follow_induction (fun _ _ h hsteps => h.steps hf hsteps) (.init plan queue) schedule

end Crowd

end AtomicFifo

import AtomicFifo.Proofs.Crowd.Protocol

/-!
# How the main thread comes to set the mark

The main thread waits for the producers only, and for none behind the first that has failed. So
the mark is set without a step of a consumer, and it may be set while later producers are still
at work. Where the main thread has stopped tells who has failed. None of this depends on what the
queue does.

* `Marked.follow`    where the main thread stands once the mark is set
* `exists_marked`    the main thread can set the mark by itself
* `ended_follow`     a thread that has ended stays as it is
* `Logged.follow`    where the events of a crowd come from
-/

namespace AtomicFifo

universe u v

variable {σ : Type u} {κ : Type v}

/-- A consumer is never refused anything. -/
private theorem Consumer.Goes.not_refused {f : Fifo σ κ} {index : Nat} {finished : Bool}
    {queue queue' : σ} {events : List Event} {y y' : Consumer κ}
    (h : y.Goes f index finished queue queue' y' events) (item : Word) :
    y'.phase ≠ .ended (.refused item) := by
  intro hend
  -- A consumer asks for dequeues only, and none of them is refused.
  cases h with
  | begin h => cases hend
  | @poll seen call h =>
    unfold Crowd.afterPoll at hend
    split at hend
    · cases hend
    · cases hend
    · split at hend
      · cases hend
      · split at hend <;> cases hend

/-- What a consumer emits is its own report, or comes from its call. -/
private theorem Consumer.Goes.mem_events {f : Fifo σ κ} {index : Nat} {finished : Bool}
    {queue queue' : σ} {events : List Event} {y y' : Consumer κ}
    (h : y.Goes f index finished queue queue' y' events) {event : Event} (hmem : event ∈ events) :
    (∃ items, event = .drained index items) ∨
      ∃ queue call, (f.step queue call).event = some event := by
  cases h with
  | begin h => cases hmem
  | @poll seen call h =>
    -- A poll emits its own report, and what the queue emits.
    rcases List.mem_append.1 hmem with hmem | hmem
    · refine .inl ?_
      rw [Option.mem_toList] at hmem
      unfold Crowd.afterPoll at hmem
      split at hmem
      · cases hmem
      · cases hmem
      · split at hmem
        · cases hmem
        · split at hmem
          · cases hmem
            exact ⟨_, rfl⟩
          · cases hmem
    · exact .inr ⟨_, _, Option.mem_toList.1 hmem⟩

/-- What a producer emits comes from its call. -/
private theorem Producer.Goes.mem_events {f : Fifo σ κ} {plan : Plan} {index : Nat}
    {queue queue' : σ} {events : List Event} {x x' : Producer κ}
    (h : x.Goes f plan index queue queue' x' events)
    {event : Event} (hmem : event ∈ events) :
    ∃ queue call, (f.step queue call).event = some event := by
  cases h with
  | begin h => cases hmem
  | push h | pop h => exact ⟨_, _, Option.mem_toList.1 hmem⟩

namespace Crowd

variable {f : Fifo σ κ} {plan : Plan} {crowd crowd' : Crowd σ κ}

/-! ### The threads -/

/-- The threads are those of the plan, and no consumer has been refused anything. -/
structure Manned (plan : Plan) (crowd : Crowd σ κ) : Prop where
  producers_size : crowd.producers.size = plan.producers.toNat
  consumers_size : crowd.consumers.size = plan.consumers.toNat
  not_refused : ∀ {c : Nat} {y : Consumer κ}, crowd.consumers[c]? = some y →
    ∀ item, y.phase ≠ .ended (.refused item)

/-- A crowd begins with all its threads, and none of them has been refused. -/
private theorem Manned.init (plan : Plan) (queue : σ) :
    (init plan queue : Crowd σ κ).Manned plan where
  producers_size := Array.size_replicate
  consumers_size := Array.size_replicate
  not_refused h item hend := by
    simp only [Crowd.init, Array.getElem?_replicate] at h
    split at h <;> cases h
    cases hend

/-- No step changes the number of threads, or lets a consumer be refused. -/
private theorem Manned.steps (h : crowd.Manned plan) (hsteps : Steps f plan crowd crowd') :
    crowd'.Manned plan := by
  cases hsteps with
  | rest => exact h
  | producer hx hgo => exact ⟨by simpa using h.producers_size, h.consumers_size, h.not_refused⟩
  | consumer hy hgo =>
    refine ⟨h.producers_size, by simpa using h.consumers_size, fun {c y₁} hy₁ item => ?_⟩
    rcases set_cases hy₁ with ⟨-, rfl⟩ | ⟨-, hy₁⟩
    · exact hgo.not_refused item
    · exact h.not_refused hy₁ item
  | join hopen hx he => exact ⟨h.producers_size, h.consumers_size, h.not_refused⟩
  | finish hopen hfin => exact ⟨h.producers_size, h.consumers_size, h.not_refused⟩

/-- After every schedule the crowd is manned as its plan says. -/
theorem Manned.follow (f : Fifo σ κ) (plan : Plan) (queue : σ) (schedule : List Agent) :
    (follow f plan (.init plan queue) schedule).Manned plan :=
  follow_induction (fun _ _ h hsteps => h.steps hsteps) (.init plan queue) schedule

/-- A producer that has ended stays as it is. -/
theorem ended_follow {p : Nat} {x : Producer κ} {e : Ending}
    (hx : crowd.producers[p]? = some x) (he : x.phase = .ended e) (schedule : List Agent) :
    (follow f plan crowd schedule).producers[p]? = some x := by
  refine follow_induction (P := fun crowd => crowd.producers[p]? = some x)
    (fun crowd crowd' hx hsteps => ?_) hx schedule
  cases hsteps with
  | @producer index y y' queue events hy hgo =>
    have hne : index ≠ p := by
      rintro rfl
      cases hy.symm.trans hx
      exact hgo.not_ended e he
    show (crowd.producers.setIfInBounds index y')[p]? = some x
    rwa [Array.getElem?_setIfInBounds_ne hne]
  | _ => exact hx

/-! ### The mark -/

/-- Once the mark is set, the main thread stands behind the last producer or at one that has
failed. -/
def Marked (crowd : Crowd σ κ) : Prop :=
  crowd.finished = true → ∀ x, crowd.producers[crowd.joined]? = some x →
    ∃ e, x.phase = .ended e ∧ e ≠ .completed

/-- At the start nothing is marked as finished. -/
private theorem Marked.init (plan : Plan) (queue : σ) : (init plan queue : Crowd σ κ).Marked := by
  intro hfin
  cases hfin

/-- A mark stays justified by how a producer has ended. -/
private theorem Marked.steps (h : crowd.Marked) (hsteps : Steps f plan crowd crowd') :
    crowd'.Marked := by
  cases hsteps with
  | rest => exact h
  | @producer index x x' queue events hx hgo =>
    intro hfin x₁ hx₁
    -- The producer at which the main thread has stopped has ended, so another one takes the step.
    rcases set_cases hx₁ with ⟨hjoined, -⟩ | ⟨-, hx₁⟩
    · obtain ⟨e, he, -⟩ := h hfin x (hjoined ▸ hx)
      exact absurd he (hgo.not_ended e)
    · exact h hfin x₁ hx₁
  | consumer hy hgo => exact h
  -- The main thread joins only while nothing is marked.
  | join hopen hx he =>
    intro hfin
    cases hopen.symm.trans hfin
  | finish hopen hfail => exact fun _ => hfail

/-- Where the main thread stands once the mark is set, after every schedule. -/
theorem Marked.follow (f : Fifo σ κ) (plan : Plan) (queue : σ) (schedule : List Agent) :
    (follow f plan (.init plan queue) schedule).Marked :=
  follow_induction (fun _ _ h hsteps => h.steps hsteps) (.init plan queue) schedule

/-- If the producers below `k` have ended normally, and there are no more or the next one has
failed, the main thread sets the mark without a step of anybody else. -/
theorem exists_marked {k : Nat} (f : Fifo σ κ) (plan : Plan) (h : crowd.joined ≤ k)
    (hdone : ∀ p < k, ∃ x, crowd.producers[p]? = some x ∧ x.phase = .ended .completed)
    (hlast : ∀ x, crowd.producers[k]? = some x → ∃ e, x.phase = .ended e ∧ e ≠ .completed) :
    ∃ n, (follow f plan crowd (List.replicate n .main)).finished = true := by
  obtain ⟨queue, producers, consumers, joined, finished, log⟩ := crowd
  simp only at h hdone hlast
  cases finished with
  | true => exact ⟨0, rfl⟩
  | false =>
    -- By induction on how many producers the main thread has still to join.
    obtain ⟨m, rfl⟩ := Nat.exists_eq_add_of_le h
    induction m generalizing joined with
    | zero =>
      refine ⟨1, ?_⟩
      show (step f plan ⟨queue, producers, consumers, joined, false, log⟩ .main).finished = true
      cases hx : producers[joined]? with
      | none => simp [step, hx]
      | some x =>
        obtain ⟨e, he, hfail⟩ := hlast x hx
        cases e with
        | completed => exact absurd rfl hfail
        | _ => simp [step, hx, he]
    | succ m ih =>
      obtain ⟨x, hx, he⟩ := hdone joined (by omega)
      have hstep : step f plan ⟨queue, producers, consumers, joined, false, log⟩ .main =
          ⟨queue, producers, consumers, joined + 1, false, log⟩ := by
        simp [step, hx, he]
      have hsum : joined + 1 + m = joined + (m + 1) := by omega
      obtain ⟨n, hn⟩ := ih (joined + 1) (by omega) (hsum ▸ hdone) (hsum ▸ hlast)
      refine ⟨n + 1, ?_⟩
      show (follow f plan (step f plan _ .main) (List.replicate n .main)).finished = true
      rw [hstep]
      exact hn

/-! ### The log -/

/-- Whatever has been emitted is the report of a consumer, or comes from a call on the queue. -/
def Logged (f : Fifo σ κ) (crowd : Crowd σ κ) : Prop :=
  ∀ event ∈ crowd.log, (∃ consumer items, event = .drained consumer items) ∨
    ∃ queue call, (f.step queue call).event = some event

/-- Every event of a step is one of the queue or the report of a consumer. -/
private theorem Logged.steps (h : crowd.Logged f) (hsteps : Steps f plan crowd crowd') :
    crowd'.Logged f := by
  cases hsteps with
  | producer hx hgo =>
    intro event hmem
    rcases List.mem_append.1 hmem with hmem | hmem
    · exact .inr (hgo.mem_events hmem)
    · exact h event hmem
  | @consumer index y y' queue events hy hgo =>
    intro event hmem
    rcases List.mem_append.1 hmem with hmem | hmem
    · -- Only consumers report.
      rcases hgo.mem_events hmem with ⟨items, rfl⟩ | hcall
      · exact .inl ⟨index, items, rfl⟩
      · exact .inr hcall
    · exact h event hmem
  | _ => exact h

/-- Where the events come from, after every schedule. -/
theorem Logged.follow (f : Fifo σ κ) (plan : Plan) (queue : σ) (schedule : List Agent) :
    (follow f plan (.init plan queue) schedule).Logged f :=
  follow_induction (fun _ _ h hsteps => h.steps hsteps) (fun _ h => by cases h) schedule

end Crowd

end AtomicFifo

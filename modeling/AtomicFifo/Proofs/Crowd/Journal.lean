import AtomicFifo.Proofs.Crowd.Threads
import AtomicFifo.Proofs.Round.Verification

/-!
# A journal of what is enqueued

Any queue can be given a journal, in which every enqueue writes its tag down with its first step.
The journal is no part of the queue: what a crowd does to the queue with the journal is, without
the journal, what it does to the queue. So it shows what the producers of a crowd ask for on any
queue whatever, also on one that loses or alters it: each tag at most once, and every tag once
all of them have been enqueued.

* `Fifo.journaled`       a queue with a journal
* `forget_follow`        nobody notices the journal
* `Plan.Fits.tag_inj`    no two producers, and no two enqueues of one, have the same tag
* `Recorded.follow`      what the journal says, after every schedule
* `Recorded.perm`        what it says once all producers have ended normally
-/

namespace AtomicFifo

universe u v

variable {σ : Type u} {κ : Type v}

/-- A progress with its call seen as another one. -/
def Progress.map {μ : Type*} (g : κ → μ) : Progress κ → Progress μ
  | .running call => .running (g call)
  | .returned reply => .returned reply
  | .panicked => .panicked

/-- A call on a queue with a journal: before its first step, or after it. -/
inductive Journaling (κ : Type v)
  | asked (request : Request Word)
  | going (call : κ)

namespace Journaling

/-- The call without the journal. -/
def call (f : Fifo σ κ) : Journaling κ → κ
  | .asked request => f.start request
  | .going call => call

/-- What the next step of a call writes down. -/
def entry : Journaling κ → List Word
  | .asked (.enqueue tag) => [tag]
  | _ => []

end Journaling

/-- A queue with a journal of the tags that are enqueued. -/
def Fifo.journaled (f : Fifo σ κ) : Fifo (σ × List Word) (Journaling κ) where
  start := .asked
  step s c :=
    match f.step s.1 (c.call f) with
    | ⟨queue, progress, event⟩ => ⟨(queue, s.2 ++ c.entry), progress.map .going, event⟩

/-- A step with the journal is the step without it, and an entry at the first one. -/
private theorem Fifo.journaled_step (f : Fifo σ κ) (s : σ × List Word) (c : Journaling κ) :
    f.journaled.step s c =
      ⟨((f.step s.1 (c.call f)).state, s.2 ++ c.entry),
        (f.step s.1 (c.call f)).progress.map .going, (f.step s.1 (c.call f)).event⟩ := rfl

/-! ### The journal is not noticed -/

/-- A producer without the journal. -/
def Producer.forget (f : Fifo σ κ) (x : Producer (Journaling κ)) : Producer κ :=
  { x with phase := match x.phase with
    | .ready => .ready
    | .pushing c => .pushing (c.call f)
    | .popping c => .popping (c.call f)
    | .ended e => .ended e }

/-- A consumer without the journal. -/
def Consumer.forget (f : Fifo σ κ) (y : Consumer (Journaling κ)) : Consumer κ :=
  { y with phase := match y.phase with
    | .ready => .ready
    | .polling seen c => .polling seen (c.call f)
    | .ended e => .ended e }

namespace Crowd

variable {f : Fifo σ κ} {plan : Plan}

/-- A crowd without the journal. -/
def forget (f : Fifo σ κ) (crowd : Crowd (σ × List Word) (Journaling κ)) : Crowd σ κ where
  queue := crowd.queue.1
  producers := crowd.producers.map (·.forget f)
  consumers := crowd.consumers.map (·.forget f)
  joined := crowd.joined
  finished := crowd.finished
  log := crowd.log

/-- Without their journals a crowd begins as any other. -/
private theorem forget_init (plan : Plan) (queue : σ) (journal : List Word) :
    (init plan (queue, journal)).forget f = init plan queue := by
  simp [forget, init, Producer.forget, Consumer.forget, Producer.init, Consumer.init]

/-- A producer asks for the same enqueue without the journal. -/
private theorem forget_beginPush (index : Nat) (x : Producer (Journaling κ)) :
    (beginPush f.journaled plan index x).forget f = beginPush f plan index (x.forget f) := by
  unfold beginPush
  -- Either all tags are pushed, or the next one is asked for, if there is such a word.
  by_cases hall : x.pushed = plan.items
  · simp [hall, Producer.forget]
  · cases htag : plan.tag? (UInt64.ofNat index) x.pushed <;>
      simp [hall, htag, Producer.forget, Journaling.call, Fifo.journaled]

/-- A producer goes on after an enqueue as it does without the journal. -/
private theorem forget_afterPush (x : Producer (Journaling κ)) (progress : Progress κ) :
    (afterPush f.journaled plan x (progress.map .going)).forget f =
      afterPush f plan (x.forget f) progress := by
  cases progress with
  | returned reply =>
    cases reply with
    | refused tag => rfl
    | _ => cases hpairs : plan.pairs <;> simp [afterPush, Progress.map, Producer.forget, hpairs,
        Journaling.call, Fifo.journaled]
  | _ => rfl

/-- A producer goes on after a dequeue as it does without the journal. -/
private theorem forget_afterPop (x : Producer (Journaling κ)) (progress : Progress κ) :
    (afterPop x (progress.map .going)).forget f = afterPop (x.forget f) progress := by
  cases progress with
  | returned reply => cases hitem : reply.item? <;> simp [afterPop, Progress.map, hitem,
      Producer.forget]
  | _ => rfl

/-- A consumer goes on after a dequeue, and reports, as it does without the journal. -/
private theorem forget_afterPoll (index : Nat) (seen : Bool) (y : Consumer (Journaling κ))
    (progress : Progress κ) :
    (afterPoll index seen y (progress.map .going)).1.forget f =
        (afterPoll index seen (y.forget f) progress).1 ∧
      (afterPoll index seen y (progress.map .going)).2 =
        (afterPoll index seen (y.forget f) progress).2 := by
  cases progress with
  | returned reply =>
    cases hitem : reply.item? <;> cases seen <;>
      simp [afterPoll, Progress.map, hitem, Consumer.forget]
  | _ => exact ⟨rfl, rfl⟩

/-- A step of an agent does to the crowd without the journal what it does with it. -/
private theorem forget_step (crowd : Crowd (σ × List Word) (Journaling κ)) (agent : Agent) :
    (crowd.step f.journaled plan agent).forget f = (crowd.forget f).step f plan agent := by
  obtain ⟨queue, producers, consumers, joined, finished, log⟩ := crowd
  -- By the agent and its phase; each step is the same one, and only the journal is left out.
  cases agent with
  | producer index =>
    cases hx : producers[index]? with
    | none => simp [step, forget, hx]
    | some x =>
      have hget : (producers.map (·.forget f))[index]? = some (x.forget f) := by simp [hx]
      cases hphase : x.phase with
      | ready =>
        have hphase' : (x.forget f).phase = .ready := by simp [Producer.forget, hphase]
        simp only [step, forget, hx, hget, hphase, hphase', Array.map_setIfInBounds,
          forget_beginPush]
      | pushing c =>
        have hphase' : (x.forget f).phase = .pushing (c.call f) := by
          simp [Producer.forget, hphase]
        simp only [step, forget, hx, hget, hphase, hphase', f.journaled_step,
          Array.map_setIfInBounds, forget_afterPush]
      | popping c =>
        have hphase' : (x.forget f).phase = .popping (c.call f) := by
          simp [Producer.forget, hphase]
        simp only [step, forget, hx, hget, hphase, hphase', f.journaled_step,
          Array.map_setIfInBounds, forget_afterPop]
      | ended e =>
        have hphase' : (x.forget f).phase = .ended e := by simp [Producer.forget, hphase]
        simp only [step, forget, hx, hget, hphase, hphase']
  | consumer index =>
    cases hy : consumers[index]? with
    | none => simp [step, forget, hy]
    | some y =>
      have hget : (consumers.map (·.forget f))[index]? = some (y.forget f) := by simp [hy]
      cases hphase : y.phase with
      | ready =>
        have hphase' : (y.forget f).phase = .ready := by simp [Consumer.forget, hphase]
        simp only [step, forget, hy, hget, hphase, hphase', Array.map_setIfInBounds]
        rfl
      | polling seen c =>
        have hphase' : (y.forget f).phase = .polling seen (c.call f) := by
          simp [Consumer.forget, hphase]
        obtain ⟨hconsumer, hreport⟩ :=
          forget_afterPoll (f := f) index seen y (f.step queue.1 (c.call f)).progress
        simp only [step, forget, hy, hget, hphase, hphase', f.journaled_step,
          Array.map_setIfInBounds, hconsumer, hreport]
      | ended e =>
        have hphase' : (y.forget f).phase = .ended e := by simp [Consumer.forget, hphase]
        simp only [step, forget, hy, hget, hphase, hphase']
  -- The main thread does not look at the calls of the others, only at how they ended.
  | main =>
    cases finished with
    | true => rfl
    | false =>
      cases hx : producers[joined]? with
      | none => simp [step, forget, hx]
      | some x =>
        have hget : (producers.map (·.forget f))[joined]? = some (x.forget f) := by simp [hx]
        cases hphase : x.phase with
        | ended e =>
          have hphase' : (x.forget f).phase = .ended e := by simp [Producer.forget, hphase]
          cases e <;> simp [step, forget, hx, hphase, hphase']
        | _ => simp [step, forget, hx, Producer.forget, hphase]

/-- Without the journal a crowd comes to what it comes to on the queue itself. -/
theorem forget_follow (f : Fifo σ κ) (plan : Plan) (queue : σ) (journal : List Word)
    (schedule : List Agent) :
    (follow f.journaled plan (.init plan (queue, journal)) schedule).forget f =
      follow f plan (.init plan queue) schedule := by
  induction schedule using List.reverseRecOn with
  | nil => exact forget_init plan queue journal
  | append_singleton schedule agent ih =>
    simp only [follow, List.foldl_append, List.foldl_cons, List.foldl_nil] at ih ⊢
    rw [forget_step, ih]

end Crowd

/-! ### The tags of a plan -/

namespace Plan

variable {plan : Plan} {p q n m : Nat}

/-- Producer and number stand for a place below the total. -/
theorem place_lt (hp : p < plan.producers.toNat) (hn : n < plan.items.toNat) :
    p * plan.items.toNat + n < plan.producers.toNat * plan.items.toNat :=
  calc p * plan.items.toNat + n
      < p * plan.items.toNat + plan.items.toNat := Nat.add_lt_add_left hn _
    _ = (p + 1) * plan.items.toNat := (Nat.succ_mul ..).symm
    _ ≤ plan.producers.toNat * plan.items.toNat := Nat.mul_le_mul_right _ hp

/-- A tag tells which producer enqueues it, and as which of its tags. -/
theorem Fits.tag_inj (h : plan.Fits) (hp : p < plan.producers.toNat) (hn : n < plan.items.toNat)
    (hq : q < plan.producers.toNat) (hm : m < plan.items.toNat)
    (heq : plan.tag p n = plan.tag q m) : p = q ∧ n = m := by
  have hval : n + plan.items.toNat * p = m + plan.items.toNat * q := by
    have hval := congrArg UInt64.toNat heq
    rwa [h.toNat_tag hp hn, h.toNat_tag hq hm, Nat.add_comm, Nat.mul_comm, Nat.add_comm _ m,
      Nat.mul_comm q] at hval
  have hpos : 0 < plan.items.toNat := Nat.zero_lt_of_lt hn
  have hdiv := congrArg (· / plan.items.toNat) hval
  have hmod := congrArg (· % plan.items.toNat) hval
  simp only [Nat.add_mul_div_left _ _ hpos, Nat.div_eq_of_lt hn, Nat.div_eq_of_lt hm,
    Nat.zero_add] at hdiv
  simp only [Nat.add_mul_mod_self_left, Nat.mod_eq_of_lt hn, Nat.mod_eq_of_lt hm] at hmod
  exact ⟨hdiv, hmod⟩

/-- Every word below the total is the tag of some producer. -/
theorem exists_tag_eq {tag : Word}
    (h : tag.toNat < plan.producers.toNat * plan.items.toNat) :
    ∃ p < plan.producers.toNat, ∃ n < plan.items.toNat, tag = plan.tag p n := by
  have hpos : 0 < plan.items.toNat := Nat.pos_of_mul_pos_left (Nat.zero_lt_of_lt h)
  refine ⟨tag.toNat / plan.items.toNat, Nat.div_lt_of_lt_mul (Nat.mul_comm .. ▸ h),
    tag.toNat % plan.items.toNat, Nat.mod_lt _ hpos, ?_⟩
  rw [Plan.tag, Nat.div_add_mod', UInt64.ofNat_toNat]

end Plan

/-! ### What the producers write down -/

/-- Where producer `p` stands that has enqueued this many tags and has written down the first `n`
of its tags. It is one ahead of the tags that it has enqueued from the first step of an enqueue
on, and stays so if the enqueue fails. -/
def Plan.Writes (plan : Plan) (p : Nat) (pushed : Word) (n : Nat) :
    ProducerPhase (Journaling κ) → Prop
  | .ready => n = pushed.toNat
  | .pushing (.asked request) =>
    n = pushed.toNat ∧ n < plan.items.toNat ∧ request = .enqueue (plan.tag p n)
  | .pushing (.going _) => n = pushed.toNat + 1
  | .popping c => n = pushed.toNat ∧ c.entry = []
  | .ended .completed => n = pushed.toNat ∧ pushed = plan.items
  | .ended _ => True

/-- A producer has written down the first `n` of its tags. -/
structure Producer.Writes (plan : Plan) (p n : Nat) (x : Producer (Journaling κ)) : Prop where
  le : n ≤ plan.items.toNat
  phase : plan.Writes p x.pushed n x.phase

/-- A consumer writes nothing down. -/
def Consumer.Silent (y : Consumer (Journaling κ)) : Prop :=
  ∀ seen c, y.phase = .polling seen c → c.entry = []

section Threads

variable {f : Fifo σ κ} {plan : Plan} {p n index : Nat} {queue queue' : σ × List Word}
  {events : List Event}

/-- A producer that begins an enqueue has its next tag still to write. -/
private theorem Producer.Writes.begin {x : Producer (Journaling κ)} (h : x.Writes plan p n)
    (hfits : plan.Fits) (hp : p < plan.producers.toNat) (hphase : x.phase = .ready) :
    (Crowd.beginPush f.journaled plan p x).Writes plan p n := by
  obtain ⟨hle, hwrites⟩ := h
  rw [hphase] at hwrites
  obtain rfl : n = x.pushed.toNat := hwrites
  unfold Crowd.beginPush
  -- Having pushed all, it ends; else the tag of its next number is a word.
  by_cases hall : x.pushed = plan.items
  · rw [if_pos hall]
    exact ⟨hle, rfl, hall⟩
  · have hlt : x.pushed.toNat < plan.items.toNat := Word.toNat_lt_of_ne hle hall
    rw [if_neg hall, hfits.tag?_eq hp hlt]
    exact ⟨hle, rfl, hlt, rfl⟩

/-- After a step of its enqueue a producer has written down the tag of this enqueue. -/
private theorem Producer.writes_afterPush {x : Producer (Journaling κ)} (progress : Progress κ)
    (hlt : x.pushed.toNat < plan.items.toNat) :
    (Crowd.afterPush f.journaled plan x (progress.map .going)).Writes plan p
      (x.pushed.toNat + 1) := by
  have hsucc := plan.toNat_succ hlt
  cases progress with
  | running call => exact ⟨hlt, rfl⟩
  | panicked => exact ⟨hlt, trivial⟩
  -- The tag was written with the first step, however the call goes on.
  | returned reply =>
    cases reply with
    | refused tag => exact ⟨hlt, trivial⟩
    | _ =>
      cases hpairs : plan.pairs with
      | false =>
        simp only [Crowd.afterPush, Progress.map, hpairs]
        exact ⟨hlt, hsucc.symm⟩
      | true =>
        simp only [Crowd.afterPush, Progress.map, hpairs]
        exact ⟨hlt, hsucc.symm, rfl⟩

/-- A dequeue of a producer writes nothing. -/
private theorem Producer.writes_afterPop {x : Producer (Journaling κ)} (progress : Progress κ)
    (hle : x.pushed.toNat ≤ plan.items.toNat) :
    (Crowd.afterPop x (progress.map .going)).Writes plan p x.pushed.toNat := by
  cases progress with
  | running call => exact ⟨hle, rfl, rfl⟩
  | panicked => exact ⟨hle, trivial⟩
  | returned reply =>
    cases hitem : reply.item? <;> simp only [Crowd.afterPop, Progress.map, hitem] <;>
      exact ⟨hle, rfl⟩

/-- A step of a producer writes down its next tag, or nothing. -/
private theorem Producer.Writes.goes {x x' : Producer (Journaling κ)} (h : x.Writes plan p n)
    (hfits : plan.Fits) (hp : p < plan.producers.toNat)
    (hgo : x.Goes f.journaled plan p queue queue' x' events) :
    (queue'.2 = queue.2 ∧ x'.Writes plan p n) ∨
      (queue'.2 = queue.2 ++ [plan.tag p n] ∧ x'.Writes plan p (n + 1)) := by
  cases hgo with
  | begin hphase => exact .inl ⟨rfl, h.begin hfits hp hphase⟩
  | @push c hphase =>
    obtain ⟨hle, hwrites⟩ := h
    rw [hphase] at hwrites
    cases c with
    | asked request =>
      -- The first step of the enqueue is the one that writes.
      obtain ⟨rfl, hlt, rfl⟩ := hwrites
      exact .inr ⟨rfl, x.writes_afterPush _ hlt⟩
    | going call =>
      obtain rfl : n = x.pushed.toNat + 1 := hwrites
      exact .inl ⟨List.append_nil _, x.writes_afterPush _ hle⟩
  | @pop c hphase =>
    obtain ⟨hle, hwrites⟩ := h
    rw [hphase] at hwrites
    obtain ⟨rfl, hentry⟩ := hwrites
    refine .inl ⟨?_, x.writes_afterPop _ hle⟩
    rw [f.journaled_step, hentry]
    exact List.append_nil _

/-- A step of a consumer writes nothing down. -/
private theorem Consumer.Silent.goes {finished : Bool} {y y' : Consumer (Journaling κ)}
    (h : y.Silent) (hgo : y.Goes f.journaled index finished queue queue' y' events) :
    queue'.2 = queue.2 ∧ y'.Silent := by
  -- Consumers ask for dequeues, and a dequeue leaves no entry.
  cases hgo with
  | begin hphase =>
    refine ⟨rfl, fun seen c hpoll => ?_⟩
    cases hpoll
    rfl
  | @poll seen c hphase =>
    have hentry := h seen c hphase
    rw [f.journaled_step, hentry]
    refine ⟨List.append_nil _, fun seen' c' hpoll => ?_⟩
    cases hprogress : (f.step queue.1 (c.call f)).progress with
    | running call =>
      simp only [hprogress, Progress.map, Crowd.afterPoll] at hpoll
      cases hpoll
      rfl
    | panicked => simp [hprogress, Progress.map, Crowd.afterPoll] at hpoll
    | returned reply =>
      cases hitem : reply.item? <;> cases seen <;>
        simp [hprogress, Progress.map, Crowd.afterPoll, hitem] at hpoll

end Threads

namespace Crowd

variable {f : Fifo σ κ} {plan : Plan} {crowd crowd' : Crowd (σ × List Word) (Journaling κ)}

/-- The journal has the first tags of each producer, so many as `written` says, each of them once,
and nothing else. -/
structure Recorded (plan : Plan) (crowd : Crowd (σ × List Word) (Journaling κ))
    (written : Nat → Nat) : Prop where
  size : crowd.producers.size = plan.producers.toNat
  producer : ∀ {p : Nat} {x : Producer (Journaling κ)}, crowd.producers[p]? = some x →
    x.Writes plan p (written p)
  consumer : ∀ {c : Nat} {y : Consumer (Journaling κ)}, crowd.consumers[c]? = some y → y.Silent
  mem : ∀ {tag : Word}, tag ∈ crowd.queue.2 ↔
    ∃ p < plan.producers.toNat, ∃ n < written p, tag = plan.tag p n
  nodup : crowd.queue.2.Nodup

/-- At the start the journal is empty, and no producer has written a tag. -/
private theorem Recorded.init (plan : Plan) (queue : σ) :
    (init plan (queue, []) : Crowd (σ × List Word) (Journaling κ)).Recorded plan
      fun _ => 0 where
  size := Array.size_replicate
  producer h := by
    simp only [Crowd.init, Array.getElem?_replicate] at h
    split at h <;> cases h
    exact ⟨Nat.zero_le _, rfl⟩
  consumer h := by
    simp only [Crowd.init, Array.getElem?_replicate] at h
    split at h <;> cases h
    rintro seen c ⟨⟩
  mem := by simp [Crowd.init]
  -- An empty journal has no tag twice.
  nodup := .nil

variable {written : Nat → Nat}

/-- There is a producer for every index below their number. -/
private theorem Recorded.exists_producer (h : crowd.Recorded plan written) {p : Nat}
    (hp : p < plan.producers.toNat) : ∃ x, crowd.producers[p]? = some x :=
  ⟨_, Array.getElem?_eq_getElem (h.size ▸ hp)⟩

/-- The next tag of a producer is not in the journal. -/
theorem Recorded.not_mem (h : crowd.Recorded plan written) (hfits : plan.Fits) {p : Nat}
    (hp : p < plan.producers.toNat) (hlt : written p < plan.items.toNat) :
    plan.tag p (written p) ∉ crowd.queue.2 := by
  intro hmem
  obtain ⟨q, hq, n, hn, heq⟩ := h.mem.1 hmem
  obtain ⟨x, hx⟩ := h.exists_producer hq
  have hnlt : n < plan.items.toNat := Nat.lt_of_lt_of_le hn (h.producer hx).le
  obtain ⟨rfl, rfl⟩ := Plan.Fits.tag_inj hfits hp hlt hq hnlt heq
  exact Nat.lt_irrefl _ hn

/-- When one producer writes one tag more, this is the only tag that is new. -/
private theorem exists_lt_update_iff {index : Nat} (hp : index < plan.producers.toNat)
    {tag : Word} :
    (∃ p < plan.producers.toNat,
        ∃ n < Function.update written index (written index + 1) p, tag = plan.tag p n) ↔
      (∃ p < plan.producers.toNat, ∃ n < written p, tag = plan.tag p n) ∨
        tag = plan.tag index (written index) := by
  constructor
  · rintro ⟨p, hp, n, hn, rfl⟩
    -- One more tag of this producer; the others have as many as before.
    by_cases hpi : p = index
    · subst hpi
      rw [Function.update_self] at hn
      rcases Nat.lt_succ_iff_lt_or_eq.1 hn with hn | rfl
      · exact .inl ⟨p, hp, n, hn, rfl⟩
      · exact .inr rfl
    · rw [Function.update_of_ne hpi] at hn
      exact .inl ⟨p, hp, n, hn, rfl⟩
  · rintro (⟨p, hp, n, hn, rfl⟩ | rfl)
    · refine ⟨p, hp, n, ?_, rfl⟩
      by_cases hpi : p = index
      · subst hpi
        rw [Function.update_self]
        exact Nat.lt_succ_of_lt hn
      · rwa [Function.update_of_ne hpi]
    · refine ⟨index, hp, written index, ?_, rfl⟩
      rw [Function.update_self]
      exact Nat.lt_succ_self _

/-- The journal goes on saying what the producers have written. -/
private theorem Recorded.steps (h : crowd.Recorded plan written) (hfits : plan.Fits)
    (hsteps : Steps f.journaled plan crowd crowd') : ∃ written', crowd'.Recorded plan written' := by
  cases hsteps with
  | rest => exact ⟨written, h⟩
  | @producer index x x' queue events hx hgo =>
    have hp : index < plan.producers.toNat := h.size ▸ (Array.getElem?_eq_some_iff.1 hx).1
    have hsize : (crowd.producers.setIfInBounds index x').size = plan.producers.toNat := by
      simpa using h.size
    -- A step of a producer writes its next tag or nothing.
    rcases (h.producer hx).goes hfits hp hgo with ⟨hsame, hx'⟩ | ⟨hnext, hx'⟩
    · exact ⟨written, {
        size := hsize
        producer := fun {p x₁} hx₁ => by
          rcases set_cases hx₁ with ⟨rfl, rfl⟩ | ⟨-, hx₁⟩
          · exact hx'
          · exact h.producer hx₁
        consumer := h.consumer
        mem := by
          rw [hsame]
          exact h.mem
        nodup := by
          rw [hsame]
          exact h.nodup }⟩
    · -- The tag is the next one of this producer, and new.
      exact ⟨Function.update written index (written index + 1), {
        size := hsize
        producer := fun {p x₁} hx₁ => by
          rcases set_cases hx₁ with ⟨rfl, rfl⟩ | ⟨hne, hx₁⟩
          · rw [Function.update_self]
            exact hx'
          · rw [Function.update_of_ne hne]
            exact h.producer hx₁
        consumer := h.consumer
        mem := fun {tag} => by
          rw [hnext, List.mem_append, h.mem, List.mem_singleton, exists_lt_update_iff hp]
        nodup := by
          rw [hnext, ← List.concat_eq_append]
          exact (List.nodup_concat ..).2 ⟨h.not_mem hfits hp hx'.le, h.nodup⟩ }⟩
  -- The other threads write nothing.
  | @consumer index y y' queue events hy hgo =>
    obtain ⟨hsame, hy'⟩ := (h.consumer hy).goes hgo
    exact ⟨written, {
      size := h.size
      producer := h.producer
      consumer := fun {c y₁} hy₁ => by
        rcases set_cases hy₁ with ⟨-, rfl⟩ | ⟨-, hy₁⟩
        · exact hy'
        · exact h.consumer hy₁
      mem := by
        rw [hsame]
        exact h.mem
      nodup := by
        rw [hsame]
        exact h.nodup }⟩
  | join hopen hx he | finish hopen hfin =>
    exact ⟨written, h.size, h.producer, h.consumer, h.mem, h.nodup⟩

/-- What the journal says, after every schedule. -/
theorem Recorded.follow (f : Fifo σ κ) (hfits : plan.Fits) (queue : σ) (schedule : List Agent) :
    ∃ written, (follow f.journaled plan (.init plan (queue, [])) schedule).Recorded plan
      written :=
  follow_induction (P := fun crowd => ∃ written, crowd.Recorded plan written)
    (fun _ _ ⟨_, h⟩ hsteps => h.steps hfits hsteps) ⟨_, .init plan queue⟩ schedule

/-- The journal has tags below the total only. -/
theorem Recorded.toNat_lt (h : crowd.Recorded plan written) (hfits : plan.Fits) {tag : Word}
    (hmem : tag ∈ crowd.queue.2) :
    tag.toNat < plan.producers.toNat * plan.items.toNat := by
  obtain ⟨p, hp, n, hn, rfl⟩ := h.mem.1 hmem
  obtain ⟨x, hx⟩ := h.exists_producer hp
  have hnlt : n < plan.items.toNat := Nat.lt_of_lt_of_le hn (h.producer hx).le
  rw [hfits.toNat_tag hp hnlt]
  exact Plan.place_lt hp hnlt

/-- Once all producers have ended normally, the journal has every tag below the total. -/
theorem Recorded.perm (h : crowd.Recorded plan written) (hfits : plan.Fits) {total : Word}
    (htotal : total.toNat = plan.producers.toNat * plan.items.toNat)
    (hall : ∀ (p : Nat) (x : Producer (Journaling κ)), crowd.producers[p]? = some x →
      x.phase = .ended .completed) :
    crowd.queue.2.Perm (Verification.tagsBelow total.toNat) := by
  -- A producer that has ended normally has written all its tags.
  have hwritten : ∀ p < plan.producers.toNat, written p = plan.items.toNat := by
    intro p hp
    obtain ⟨x, hx⟩ := h.exists_producer hp
    have hwrites := (h.producer hx).phase
    rw [hall p x hx] at hwrites
    rw [hwrites.1, hwrites.2]
  refine (List.perm_ext_iff_of_nodup h.nodup (Verification.nodup_tagsBelow total)).2
    fun tag => ?_
  rw [Verification.mem_tagsBelow, htotal]
  constructor
  · exact h.toNat_lt hfits
  · intro hlt
    obtain ⟨p, hp, n, hn, rfl⟩ := Plan.exists_tag_eq hlt
    exact h.mem.2 ⟨p, hp, n, (hwritten p hp).symm ▸ hn, rfl⟩

end Crowd

end AtomicFifo

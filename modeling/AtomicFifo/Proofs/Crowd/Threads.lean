import AtomicFifo.Proofs.Crowd.Protocol
import AtomicFifo.Proofs.System.Ledger

/-!
# A crowd on a linked queue

On a linked queue a crowd is a system of threads: the producers are its first threads and the
consumers come behind them. A schedule of a crowd is a run of the system, and what a producer
has pushed and what a thread has taken is what its ledger says.

A consumer ends only on an empty queue that nobody enqueues to any more, so what was enqueued
late is not left behind by all of them.

* `Crowd.Traced`          a crowd is where a run of its threads is, each with its ledger
* `Crowd.Drained`         the queue is empty as soon as a consumer has ended
* `Crowd.traced_follow`   both hold on every schedule
-/

namespace AtomicFifo

universe u v

variable {α : Type u} {f : Facade Word α} {plan : Plan}

/-- A request without its item. -/
def Reply.kind : Reply α → Request Unit
  | .enqueued | .refused _ => .enqueue ()
  | .dequeued _ => .dequeue
  | .emptiness _ => .isEmpty

namespace Call

/-- What is asked by a call. -/
def kind : Call α → Request Unit
  | .allocate _ | .announce _ | .pin _ | .readTail _ | .readTailLink _ _ | .helpTail _ _ _
  | .link _ _ | .swingTail _ _ => .enqueue ()
  | .readHead | .readHeadTail _ | .readHeadLink _ _ | .helpHead _ _ | .unlink _ _
  | .takeItem _ _ | .discount _ => .dequeue
  | .probeHead | .probeLink _ => .isEmpty
  | .done reply => reply.kind

/-- A call stays an enqueue, a dequeue or a question from step to step. -/
private theorem kind_step (grant : Grant) (s : Shared α) (c : Call α) :
    (c.step grant s).2.kind = c.kind := by
  -- By the step; each of them leads on within its own call or to its reply.
  cases c with
  | allocate item =>
    simp only [step]
    split <;> rfl
  | readTailLink node tail =>
    simp only [step]
    split <;> rfl
  | link node tail =>
    simp only [step]
    split <;> rfl
  | readHeadLink head tail =>
    simp only [step]
    split
    · rfl
    · split <;> rfl
  | unlink head next =>
    simp only [step]
    split <;> rfl
  | _ => rfl

end Call

namespace Plan

/-- How many threads there are. -/
def threads (plan : Plan) : Nat := plan.producers.toNat + plan.consumers.toNat

/-- The tag that producer `p` enqueues as number `i`. -/
def tag (plan : Plan) (p i : Nat) : Word := UInt64.ofNat (p * plan.items.toNat + i)

/-- The first tags of producer `p`. -/
def tags (plan : Plan) (p n : Nat) : List Word := (List.range n).map (plan.tag p)

/-- The tags are so few that each of them is a word. -/
def Fits (plan : Plan) : Prop := plan.producers.toNat * plan.items.toNat < UInt64.size

/-- One more tag is added at the end. -/
private theorem tags_succ (plan : Plan) (p n : Nat) :
    plan.tags p (n + 1) = plan.tags p n ++ [plan.tag p n] := by
  simp [tags, List.range_succ]

/-- A producer that has not enqueued all its tags can count one more. -/
theorem toNat_succ (plan : Plan) {pushed : Word} (h : pushed.toNat < plan.items.toNat) :
    (pushed + 1).toNat = pushed.toNat + 1 :=
  Word.toNat_succ h

/-- Where the total fits a word, so does every tag. -/
private theorem Fits.lt (h : plan.Fits) {p i : Nat} (hp : p < plan.producers.toNat)
    (hi : i < plan.items.toNat) : p * plan.items.toNat + i < UInt64.size := by
  unfold Fits at h
  -- The tags of a producer end where those of the next one begin.
  have : (p + 1) * plan.items.toNat ≤ plan.producers.toNat * plan.items.toNat :=
    Nat.mul_le_mul_right _ hp
  rw [Nat.succ_mul] at this
  omega

/-- Where the total fits a word, no tag wraps. -/
theorem Fits.toNat_tag (h : plan.Fits) {p i : Nat} (hp : p < plan.producers.toNat)
    (hi : i < plan.items.toNat) : (plan.tag p i).toNat = p * plan.items.toNat + i :=
  UInt64.toNat_ofNat_of_lt (h.lt hp hi)

/-- Where the total fits a word, every tag is computed. -/
theorem Fits.tag?_eq (h : plan.Fits) {p : Nat} {i : Word} (hp : p < plan.producers.toNat)
    (hi : i.toNat < plan.items.toNat) :
    plan.tag? (UInt64.ofNat p) i = some (plan.tag p i.toNat) := by
  unfold tag?
  have hindex : (UInt64.ofNat p).toNat = p :=
    UInt64.toNat_ofNat_of_lt (Nat.lt_trans hp plan.producers.toNat_lt)
  rw [Word.mulAdd?_eq_some, h.toNat_tag hp hi, hindex]

end Plan

namespace Fifo

/-- A call of a linked queue that has not returned goes on. -/
theorem progress_running {unwrap : α → Word} {c : Call α} (h : c.reply? = none) :
    progress unwrap c = .running c := by
  cases c with
  | done reply => cases h
  | _ => rfl

/-- A call that has returned is seen to have returned, with its item unwrapped. -/
theorem progress_returned {unwrap : α → Word} {c : Call α} {reply : Reply α}
    (h : c.reply? = some reply) : progress unwrap c = .returned (reply.map unwrap) := by
  cases c with
  | done reply =>
    cases h
    rfl
  | _ => cases h

end Fifo

namespace Call

variable {c : Call α}

/-- A call without a reply is unfinished. -/
private theorem unfinished?_of_none (h : c.reply? = none) : c.unfinished? = some c := by
  simp [unfinished?, h]

/-- A call with a reply is finished. -/
private theorem unfinished?_of_some {reply : Reply α} (h : c.reply? = some reply) :
    c.unfinished? = none := by
  simp [unfinished?, h]

/-- A reply is one to the kind of call that was made. -/
private theorem kind_of_reply {reply : Reply α} (h : c.reply? = some reply) :
    c.kind = reply.kind := by
  cases c with
  | done reply =>
    cases h
    rfl
  | _ => cases h

/-- An enqueue owes nobody an item. -/
theorem toAnswer_eq_nil {s : Shared α} {st : Standing α} (hkind : c.kind = .enqueue ())
    (h : c.standing? s = some st) : st.toAnswer = [] := by
  cases hnode : c.node? with
  | some n =>
    rw [standing?_of_node? hnode] at h
    obtain ⟨a, -, rfl⟩ := Option.map_eq_some_iff.1 h
    rfl
  | none =>
    cases c with
    | allocate item | swingTail node tail | done reply => cases h; rfl
    | announce node | pin node | readTail node => cases hnode
    | readTailLink node tail | link node tail => cases hnode
    | helpTail node tail next => cases hnode
    | _ => cases hkind

end Call

/-- The reply to an enqueue that is not refused. -/
theorem Reply.eq_enqueued {reply : Reply α} (h : reply.kind = .enqueue ())
    (hgranted : ∀ a, reply ≠ .refused a) : reply = .enqueued := by
  cases reply with
  | enqueued => rfl
  | refused a => exact absurd rfl (hgranted a)
  | dequeued item => cases h
  | emptiness empty => cases h

/-- The reply to a dequeue. -/
theorem Reply.eq_dequeued {reply : Reply α} (h : reply.kind = .dequeue) :
    reply = .dequeued reply.item? := by
  cases reply with
  | dequeued item => rfl
  | _ => cases h

/-- A thread takes a step of its call on the linked queue: the call goes on, or it returns and is
not refused. -/
theorem System.Ledger.turn {threads thread : Nat} {moves : List (Move α)} {call : Call α}
    {asked answered : List α} (h : Ledger threads moves thread (some call) asked answered)
    (f : Facade Word α) :
    let turn := (Fifo.linked f).step ((System.init threads).run moves).shared call
    let moves' := moves ++ [.advance thread true]
    ((System.init threads).run moves').shared = turn.state ∧
      ((∃ next : Call α, turn.progress = .running next ∧ next.kind = call.kind ∧
          Ledger threads moves' thread (some next) asked answered) ∨
        ∃ reply : Reply α, turn.progress = .returned (reply.map f.unwrap) ∧ reply.kind = call.kind ∧
          call.act? .fresh ((System.init threads).run moves).shared = some (.returned reply) ∧
          (∀ a, reply ≠ .refused a) ∧
          Ledger threads moves' thread none asked (answered ++ reply.item?.toList)) := by
  intro turn moves'
  have hadvance := h.advance
  have hkind := call.kind_step .fresh ((System.init threads).run moves).shared
  have hrunning := (System.running?_eq_some_iff.1 h.running).2
  have hgranted := Call.step_not_refused (s := ((System.init threads).run moves).shared) hrunning
  refine ⟨h.advance_shared, ?_⟩
  have hprogress : turn.progress = Fifo.progress f.unwrap
      (call.step .fresh ((System.init threads).run moves).shared).2 := rfl
  have hact : ∀ reply, call.act? .fresh ((System.init threads).run moves).shared =
        some (.returned reply) ↔
      (call.step .fresh ((System.init threads).run moves).shared).2.reply? = some reply :=
    fun reply => Call.act?_returned_iff
  rw [hprogress]
  generalize (call.step .fresh ((System.init threads).run moves).shared).2 = next at *
  -- The turn is one step of the call, which goes on or returns by it.
  cases hreply : next.reply? with
  | none =>
    rw [Call.unfinished?_of_none hreply, hreply] at hadvance
    exact .inl ⟨next, Fifo.progress_running hreply, hkind, by simpa using hadvance⟩
  | some reply =>
    rw [Call.unfinished?_of_some hreply, hreply] at hadvance
    exact .inr ⟨reply, Fifo.progress_returned hreply, (Call.kind_of_reply hreply).symm.trans hkind,
      (hact reply).2 hreply, fun a ha => hgranted a (by rw [hreply, ha]), hadvance⟩

/-! ### Producers -/

/-- The call that a producer is in. -/
def Producer.call? (x : Producer (Call α)) : Option (Call α) :=
  match x.phase with
  | .pushing call | .popping call => some call
  | _ => none

/-- How many enqueues a producer has begun. -/
def Producer.begun (x : Producer (Call α)) : Nat :=
  match x.phase with
  | .pushing _ => x.pushed.toNat + 1
  | _ => x.pushed.toNat

/-- What a producer does in each phase, once it has enqueued so many tags. No producer fails. -/
def Plan.Allows (plan : Plan) (pushed : Word) : ProducerPhase (Call α) → Prop
  | .ready => True
  | .pushing call => call.kind = .enqueue () ∧ pushed.toNat < plan.items.toNat
  | .popping call => call.kind = .dequeue ∧ plan.pairs = true
  | .ended e => e = .completed ∧ pushed = plan.items

/-- A producer is a thread of a run. -/
structure Producer.Traced (f : Facade Word α) (plan : Plan) (moves : List (Move α)) (p : Nat)
    (x : Producer (Call α)) : Prop where
  ledger : ∃ answered, System.Ledger plan.threads moves p x.call?
    ((plan.tags p x.begun).map f.wrap) answered ∧ answered.map f.unwrap = x.taken.reverse
  pushed_le : x.pushed.toNat ≤ plan.items.toNat
  allows : plan.Allows x.pushed x.phase
  /-- Only producers of pairs take anything. -/
  taken_nil : plan.pairs = false → x.taken = []

/-- A producer that has not pushed all its tags has pushed fewer than all. -/
theorem Producer.Traced.pushed_lt {moves : List (Move α)} {p : Nat} {x : Producer (Call α)}
    (h : x.Traced f plan moves p) (hne : x.pushed ≠ plan.items) :
    x.pushed.toNat < plan.items.toNat :=
  Word.toNat_lt_of_ne h.pushed_le hne

/-- On a queue that refuses nothing a producer ends normally, having pushed all its tags. -/
theorem Producer.Traced.ended {moves : List (Move α)} {p : Nat} {x : Producer (Call α)}
    {e : Ending} (h : x.Traced f plan moves p) (he : x.phase = .ended e) :
    e = .completed ∧ x.pushed = plan.items := by
  have hallows := h.allows
  rwa [he] at hallows

/-- The moves of other threads leave a producer as it is. -/
private theorem Producer.Traced.others {moves : List (Move α)} {p : Nat} {x : Producer (Call α)}
    (h : x.Traced f plan moves p) {more : List (Move α)} (hmore : ∀ m ∈ more, m.thread ≠ p) :
    x.Traced f plan (moves ++ more) p := by
  obtain ⟨answered, hledger, htaken⟩ := h.ledger
  exact ⟨⟨answered, hledger.others hmore, htaken⟩, h.pushed_le, h.allows, h.taken_nil⟩

section ProducerSteps

variable {moves : List (Move α)} {p : Nat} {x : Producer (Call α)} {call : Call α}

/-- A producer begins its next enqueue, or has made all of them and ends. -/
private theorem Producer.Traced.begin (h : x.Traced f plan moves p) (hfits : plan.Fits)
    (hp : p < plan.producers.toNat) (hphase : x.phase = .ready) :
    ∃ more : List (Move α), (∀ m ∈ more, m.thread = p) ∧
      ((System.init plan.threads).run (moves ++ more)).shared =
        ((System.init plan.threads).run moves).shared ∧
      (Crowd.beginPush (.linked f) plan p x).Traced f plan (moves ++ more) p := by
  obtain ⟨answered, hledger, htaken⟩ := h.ledger
  have hthread : p < plan.threads := Nat.lt_of_lt_of_le hp (Nat.le_add_right _ _)
  simp only [call?, begun, hphase] at hledger
  unfold Crowd.beginPush
  by_cases hall : x.pushed = plan.items
  · -- No move at all: the end of a producer is nothing that the queue sees.
    rw [if_pos hall]
    refine ⟨[], by simp, by simp, ⟨answered, ?_, htaken⟩, h.pushed_le, ⟨rfl, hall⟩, h.taken_nil⟩
    rw [List.append_nil]
    exact hledger
  · have hlt := h.pushed_lt hall
    rw [if_neg hall, hfits.tag?_eq hp hlt]
    have hstart := hledger.start hthread (.enqueue (f.wrap (plan.tag p x.pushed.toNat)))
    refine ⟨[.start p (.enqueue (f.wrap (plan.tag p x.pushed.toNat)))], by simp [Move.thread],
      hledger.start_shared hthread _, ⟨answered, ?_, htaken⟩, h.pushed_le, ⟨rfl, hlt⟩,
      h.taken_nil⟩
    simp only [call?, begun, plan.tags_succ, List.map_append]
    exact hstart

/-- A producer takes a step of its enqueue. When the enqueue returns, the tag is counted, and a
producer of pairs begins a dequeue at once. -/
private theorem Producer.Traced.push (h : x.Traced f plan moves p) (hp : p < plan.producers.toNat)
    (hphase : x.phase = .pushing call) :
    let turn := (Fifo.linked f).step ((System.init plan.threads).run moves).shared call
    ∃ more : List (Move α), (∀ m ∈ more, m.thread = p) ∧
      ((System.init plan.threads).run (moves ++ more)).shared = turn.state ∧
      (Crowd.afterPush (.linked f) plan x turn.progress).Traced f plan (moves ++ more) p := by
  intro turn
  obtain ⟨answered, hledger, htaken⟩ := h.ledger
  have hthread : p < plan.threads := Nat.lt_of_lt_of_le hp (Nat.le_add_right _ _)
  have hallows := h.allows
  simp only [call?, begun, hphase] at hledger
  rw [hphase] at hallows
  obtain ⟨hkind, hlt⟩ := hallows
  obtain ⟨hshared, ⟨next, hprogress, hnext, hledger'⟩ |
    ⟨reply, hprogress, hreply, -, hgranted, hledger'⟩⟩ := hledger.turn f
  · rw [hprogress]
    exact ⟨[.advance p true], by simp [Move.thread], hshared, ⟨answered, hledger', htaken⟩,
      h.pushed_le, ⟨hnext.trans hkind, hlt⟩, h.taken_nil⟩
  · obtain rfl := Reply.eq_enqueued (hreply.trans hkind) hgranted
    have hsucc := plan.toNat_succ hlt
    have hle : (x.pushed + 1).toNat ≤ plan.items.toNat := by
      rw [hsucc]
      exact hlt
    rw [hprogress]
    simp only [Crowd.afterPush, Reply.map]
    simp only [Reply.item?, Option.toList_none, List.append_nil, ← hsucc] at hledger'
    cases hpairs : plan.pairs with
    | false =>
      exact ⟨[.advance p true], by simp [Move.thread], hshared, ⟨answered, hledger', htaken⟩,
        hle, trivial, fun _ => h.taken_nil hpairs⟩
    | true =>
      -- The return of the enqueue and the start of the dequeue are two moves of the thread.
      have hstart := hledger'.start hthread .dequeue
      have hsame := hledger'.start_shared hthread .dequeue
      simp only [Request.item?, Option.toList_none, List.append_nil, List.append_assoc,
        List.singleton_append] at hstart hsame
      refine ⟨[.advance p true, .start p .dequeue], by simp [Move.thread], hsame.trans hshared,
        ⟨answered, hstart, htaken⟩, hle, ⟨rfl, hpairs⟩, fun hne => ?_⟩
      simp [hpairs] at hne

/-- A producer of pairs takes a step of its dequeue, whose answer may be that there is nothing. -/
private theorem Producer.Traced.pop (h : x.Traced f plan moves p)
    (hphase : x.phase = .popping call) :
    let turn := (Fifo.linked f).step ((System.init plan.threads).run moves).shared call
    ∃ more : List (Move α), (∀ m ∈ more, m.thread = p) ∧
      ((System.init plan.threads).run (moves ++ more)).shared = turn.state ∧
      (Crowd.afterPop x turn.progress).Traced f plan (moves ++ more) p := by
  intro turn
  obtain ⟨answered, hledger, htaken⟩ := h.ledger
  have hallows := h.allows
  simp only [call?, begun, hphase] at hledger
  rw [hphase] at hallows
  obtain ⟨hkind, hpairs⟩ := hallows
  obtain ⟨hshared, ⟨next, hprogress, hnext, hledger'⟩ |
    ⟨reply, hprogress, hreply, -, -, hledger'⟩⟩ := hledger.turn f
  · rw [hprogress]
    exact ⟨[.advance p true], by simp [Move.thread], hshared, ⟨answered, hledger', htaken⟩,
      h.pushed_le, ⟨hnext.trans hkind, hpairs⟩, h.taken_nil⟩
  · rw [hprogress]
    rw [Reply.eq_dequeued (hreply.trans hkind)]
    cases hitem : reply.item? with
    | none =>
      simp only [hitem, Option.toList_none, List.append_nil] at hledger'
      exact ⟨[.advance p true], by simp [Move.thread], hshared, ⟨answered, hledger', htaken⟩,
        h.pushed_le, trivial, h.taken_nil⟩
    | some a =>
      simp only [hitem, Option.toList_some] at hledger'
      refine ⟨[.advance p true], by simp [Move.thread], hshared, ⟨_, hledger', ?_⟩,
        h.pushed_le, trivial, fun hne => ?_⟩
      · -- What was answered last stands first in `taken`.
        simp [Crowd.afterPop, Reply.map, Reply.item?, htaken]
      · simp [hpairs] at hne

/-- A step of a producer is made of moves of its thread. -/
private theorem Producer.Traced.goes {x' : Producer (Call α)} {queue : Shared α}
    {events : List Event} (h : x.Traced f plan moves p) (hfits : plan.Fits)
    (hp : p < plan.producers.toNat)
    (hgo : x.Goes (.linked f) plan p ((System.init plan.threads).run moves).shared queue x'
      events) :
    ∃ more : List (Move α), (∀ m ∈ more, m.thread = p) ∧
      ((System.init plan.threads).run (moves ++ more)).shared = queue ∧
      x'.Traced f plan (moves ++ more) p := by
  cases hgo with
  | begin hphase => exact h.begin hfits hp hphase
  | push hphase => exact h.push hp hphase
  | pop hphase => exact h.pop hphase

end ProducerSteps

/-! ### Consumers -/

/-- The call that a consumer is in. -/
def Consumer.call? (y : Consumer (Call α)) : Option (Call α) :=
  match y.phase with
  | .polling _ call => some call
  | _ => none

/-- What a consumer does in each phase. No consumer fails. -/
def ConsumerPhase.Allowed : ConsumerPhase (Call α) → Prop
  | .ready => True
  | .polling _ call => call.kind = .dequeue
  | .ended e => e = .completed

/-- A consumer is a thread of a run. -/
structure Consumer.Traced (f : Facade Word α) (plan : Plan) (moves : List (Move α)) (thread : Nat)
    (y : Consumer (Call α)) : Prop where
  ledger : ∃ answered, System.Ledger plan.threads moves thread y.call? [] answered ∧
    answered.map f.unwrap = y.taken.reverse
  allowed : y.phase.Allowed

/-- A consumer that polls is in a dequeue. -/
private theorem Consumer.Traced.polling {moves : List (Move α)} {thread : Nat}
    {y : Consumer (Call α)} {seen : Bool} {call : Call α} (h : y.Traced f plan moves thread)
    (hphase : y.phase = .polling seen call) : call.kind = .dequeue := by
  have hallowed := h.allowed
  rwa [hphase] at hallowed

/-- On a linked queue a consumer ends normally. -/
theorem Consumer.Traced.ended {moves : List (Move α)} {thread : Nat} {y : Consumer (Call α)}
    {e : Ending} (h : y.Traced f plan moves thread) (he : y.phase = .ended e) :
    e = .completed := by
  have hallowed := h.allowed
  rwa [he] at hallowed

/-- The moves of other threads leave a consumer as it is. -/
private theorem Consumer.Traced.others {moves : List (Move α)} {thread : Nat}
    {y : Consumer (Call α)} (h : y.Traced f plan moves thread) {more : List (Move α)}
    (hmore : ∀ m ∈ more, m.thread ≠ thread) : y.Traced f plan (moves ++ more) thread := by
  obtain ⟨answered, hledger, htaken⟩ := h.ledger
  exact ⟨⟨answered, hledger.others hmore, htaken⟩, h.allowed⟩

/-- A step of a consumer is made of moves of its thread. -/
private theorem Consumer.Traced.goes {moves : List (Move α)} {index thread : Nat} {finished : Bool}
    {y y' : Consumer (Call α)} {queue : Shared α} {events : List Event}
    (h : y.Traced f plan moves thread) (hthread : thread < plan.threads)
    (hgo : y.Goes (.linked f) index finished ((System.init plan.threads).run moves).shared queue
      y' events) :
    ∃ more : List (Move α), (∀ m ∈ more, m.thread = thread) ∧
      ((System.init plan.threads).run (moves ++ more)).shared = queue ∧
      y'.Traced f plan (moves ++ more) thread := by
  obtain ⟨answered, hledger, htaken⟩ := h.ledger
  cases hgo with
  | begin hphase =>
    simp only [call?, hphase] at hledger
    exact ⟨[.start thread .dequeue], by simp [Move.thread], hledger.start_shared hthread _,
      ⟨answered, hledger.start hthread .dequeue, htaken⟩, rfl⟩
  | @poll seen call hphase =>
    simp only [call?, hphase] at hledger
    have hkind := h.polling hphase
    obtain ⟨hshared, ⟨next, hprogress, hnext, hledger'⟩ |
      ⟨reply, hprogress, hreply, -, -, hledger'⟩⟩ := hledger.turn f
    · rw [hprogress]
      exact ⟨[.advance thread true], by simp [Move.thread], hshared,
        ⟨answered, hledger', htaken⟩, hnext.trans hkind⟩
    · rw [hprogress]
      rw [Reply.eq_dequeued (hreply.trans hkind)]
      cases hitem : reply.item? with
      | some a =>
        -- The consumer polls again, with one item more.
        simp only [hitem, Option.toList_some] at hledger'
        refine ⟨[.advance thread true], by simp [Move.thread], hshared, ⟨_, hledger', ?_⟩,
          trivial⟩
        simp [Crowd.afterPoll, Reply.map, Reply.item?, htaken]
      | none =>
        -- It ends if it had read the mark as set, and polls again if not; the queue is the same.
        simp only [hitem, Option.toList_none, List.append_nil] at hledger'
        cases seen with
        | false =>
          exact ⟨[.advance thread true], by simp [Move.thread], hshared,
            ⟨answered, hledger', htaken⟩, trivial⟩
        | true =>
          exact ⟨[.advance thread true], by simp [Move.thread], hshared,
            ⟨answered, hledger', htaken⟩, rfl⟩

/-! ### The crowd as a whole -/

/-- A step of a dequeue lets nothing enter, and it finds nothing only in an empty queue. -/
private theorem System.Ledger.dequeue_items {threads thread : Nat} {moves : List (Move α)}
    {call : Call α} {asked answered : List α}
    (h : Ledger threads moves thread (some call) asked answered)
    (hkind : call.kind = .dequeue) (f : Facade Word α) :
    let s := ((System.init threads).run moves).shared
    let turn := (Fifo.linked f).step s call
    turn.state.items <:+ s.items ∧
      ∀ reply, turn.progress = .returned reply → reply.item? = none → turn.state.items = [] := by
  intro s turn
  have haffects := ((Reachable.init threads).run moves).inv.affects (.advance thread true)
  have hact := h.act?_advance
  have hstate : (((System.init threads).run moves).step (.advance thread true)).shared =
      turn.state := by
    have := h.advance_shared
    rwa [run_append, run_cons, run_nil] at this
  rw [hact, hstate] at haffects
  constructor
  · cases hact : call.act? .fresh s with
    | none =>
      rw [hact] at haffects
      have hsame : turn.state.items = s.items := haffects
      exact hsame ▸ List.suffix_rfl
    | some act =>
      -- A return lets the items be, an unlink takes the first of them, and a dequeue never links.
      rw [hact] at haffects
      rcases Call.act?_cases hact with
        ⟨reply, rfl⟩ | ⟨node, tail, a, rfl, rfl⟩ | ⟨head, next, a, rfl, rfl⟩
      · have hsame : turn.state.items = s.items := by
          cases reply with
          | dequeued item =>
            cases item with
            | none => exact haffects.2
            | some a => exact haffects
          | _ => exact haffects
        exact hsame ▸ List.suffix_rfl
      · cases hkind
      · rw [show s.items = a :: turn.state.items from haffects]
        exact List.suffix_cons _ _
  · intro reply hprogress hnone
    obtain ⟨-, ⟨next, hrunning, -⟩ | ⟨reply', hreturned, hkind', hact, -⟩⟩ := h.turn f
    · cases hprogress.symm.trans hrunning
    · cases hprogress.symm.trans hreturned
      have hdequeued := Reply.eq_dequeued (hkind'.trans hkind)
      have hitem : reply'.item? = none := by
        rw [hdequeued] at hnone
        simpa [Reply.map, Reply.item?] using hnone
      -- The step that answers nothing is the one that finds the queue empty.
      rw [hdequeued, hitem] at hact
      rw [hact] at haffects
      obtain ⟨hbefore, hafter⟩ := haffects
      rw [hafter, hbefore]

namespace Crowd

variable {crowd crowd' : Crowd (Shared α) (Call α)} {moves : List (Move α)}

/-- A crowd has come about by a run of its threads. -/
structure Traced (f : Facade Word α) (plan : Plan) (crowd : Crowd (Shared α) (Call α))
    (moves : List (Move α)) : Prop where
  queue : ((System.init plan.threads).run moves).shared = crowd.queue
  producers_size : crowd.producers.size = plan.producers.toNat
  consumers_size : crowd.consumers.size = plan.consumers.toNat
  producer : ∀ {p : Nat} {x : Producer (Call α)}, crowd.producers[p]? = some x →
    x.Traced f plan moves p
  consumer : ∀ {c : Nat} {y : Consumer (Call α)}, crowd.consumers[c]? = some y →
    y.Traced f plan moves (plan.producers.toNat + c)

/-- A crowd begins as no moves at all. -/
theorem Traced.init (f : Facade Word α) (plan : Plan) :
    (init plan .init : Crowd (Shared α) (Call α)).Traced f plan [] where
  queue := rfl
  producers_size := by simp [Crowd.init]
  consumers_size := by simp [Crowd.init]
  producer h := by
    simp only [Crowd.init, Array.getElem?_replicate] at h
    split at h <;> cases h
    exact ⟨⟨[], .init .., rfl⟩, Nat.zero_le _, trivial, fun _ => rfl⟩
  consumer h := by
    simp only [Crowd.init, Array.getElem?_replicate] at h
    split at h <;> cases h
    exact ⟨⟨[], .init .., rfl⟩, trivial⟩

/-- The producers are numbered below their number. -/
theorem Traced.producer_lt (h : crowd.Traced f plan moves) {p : Nat} {x : Producer (Call α)}
    (hx : crowd.producers[p]? = some x) : p < plan.producers.toNat :=
  h.producers_size ▸ (Array.getElem?_eq_some_iff.1 hx).1

/-- The threads of the consumers come behind those of the producers. -/
theorem Traced.consumer_lt (h : crowd.Traced f plan moves) {c : Nat} {y : Consumer (Call α)}
    (hy : crowd.consumers[c]? = some y) : plan.producers.toNat + c < plan.threads :=
  Nat.add_lt_add_left (h.consumers_size ▸ (Array.getElem?_eq_some_iff.1 hy).1) _

/-- There is a producer for every index below their number. -/
theorem Traced.exists_producer (h : crowd.Traced f plan moves) {p : Nat}
    (hp : p < plan.producers.toNat) : ∃ x, crowd.producers[p]? = some x := by
  rw [← h.producers_size] at hp
  exact ⟨_, Array.getElem?_eq_getElem hp⟩

/-- There is a consumer for every index below their number. -/
private theorem Traced.exists_consumer (h : crowd.Traced f plan moves) {c : Nat}
    (hc : c < plan.consumers.toNat) : ∃ y, crowd.consumers[c]? = some y := by
  rw [← h.consumers_size] at hc
  exact ⟨_, Array.getElem?_eq_getElem hc⟩

/-- Every thread is a producer or a consumer. -/
theorem Traced.thread_cases (h : crowd.Traced f plan moves) {t : Nat} (ht : t < plan.threads) :
    (∃ x, crowd.producers[t]? = some x) ∨
      ∃ c y, t = plan.producers.toNat + c ∧ crowd.consumers[c]? = some y := by
  by_cases hp : t < plan.producers.toNat
  · exact .inl (h.exists_producer hp)
  · obtain ⟨c, rfl⟩ := Nat.exists_eq_add_of_le (Nat.le_of_not_lt hp)
    obtain ⟨y, hy⟩ := h.exists_consumer (Nat.lt_of_add_lt_add_left ht)
    exact .inr ⟨c, y, rfl, hy⟩

/-- What a step of a crowd does to the queue, some moves of a run do. -/
theorem Traced.steps (h : crowd.Traced f plan moves) (hfits : plan.Fits)
    (hsteps : Steps (.linked f) plan crowd crowd') : ∃ moves', crowd'.Traced f plan moves' := by
  cases hsteps with
  | rest => exact ⟨moves, h⟩
  | @producer index x x' queue events hx hgo =>
    have hp := h.producer_lt hx
    rw [← h.queue] at hgo
    -- The moves are those of the thread that takes the step.
    obtain ⟨more, hmore, hqueue, hx'⟩ := (h.producer hx).goes hfits hp hgo
    exact ⟨moves ++ more, {
      queue := hqueue
      producers_size := by simpa using h.producers_size
      consumers_size := h.consumers_size
      producer := fun {p x₁} hx₁ => by
        rcases set_cases hx₁ with ⟨rfl, rfl⟩ | ⟨hne, hx₁⟩
        · exact hx'
        · exact (h.producer hx₁).others fun m hm heq => hne (heq.symm.trans (hmore m hm))
      consumer := fun {c y} hy => by
        -- The moves are those of a producer, so they are not a consumer's.
        refine (h.consumer hy).others fun m hm heq => ?_
        have := hmore m hm
        omega }⟩
  | @consumer index y y' queue events hy hgo =>
    rw [← h.queue] at hgo
    obtain ⟨more, hmore, hqueue, hy'⟩ := (h.consumer hy).goes (h.consumer_lt hy) hgo
    exact ⟨moves ++ more, {
      queue := hqueue
      producers_size := h.producers_size
      consumers_size := by simpa using h.consumers_size
      producer := fun {p x} hx => by
        refine (h.producer hx).others fun m hm heq => ?_
        have := h.producer_lt hx
        have := hmore m hm
        omega
      consumer := fun {c y₁} hy₁ => by
        rcases set_cases hy₁ with ⟨rfl, rfl⟩ | ⟨hne, hy₁⟩
        · exact hy'
        · refine (h.consumer hy₁).others fun m hm heq => hne ?_
          have := hmore m hm
          omega }⟩
  | join hopen hx he | finish hopen hfin =>
    exact ⟨moves, h.queue, h.producers_size, h.consumers_size, h.producer, h.consumer⟩

/-- Once a consumer has ended, all producers have, and the queue is empty. -/
def Drained (crowd : Crowd (Shared α) (Call α)) : Prop :=
  ∀ (c : Nat) (y : Consumer (Call α)) (e : Ending), crowd.consumers[c]? = some y →
    y.phase = .ended e →
      (∀ (p : Nat) (x : Producer (Call α)), crowd.producers[p]? = some x →
        x.phase = .ended .completed) ∧ crowd.queue.items = []

/-- Once a consumer has ended, the queue stays empty and no producer goes on. -/
private theorem Drained.steps (h : crowd.Drained) (ht : crowd.Traced f plan moves)
    (hp : crowd.Protocol) (hsteps : Steps (.linked f) plan crowd crowd') : crowd'.Drained := by
  cases hsteps with
  | rest | join hopen hx he | finish hopen hfin => exact h
  | producer hx hgo =>
    -- A producer that takes a step has not ended, so no consumer has.
    intro c y e hy he
    exact absurd ((h c y e hy he).1 _ _ hx) (hgo.not_ended _)
  | @consumer index y y' queue events hy hgo =>
    -- The step leaves an empty queue empty, and finds it empty if it ends the consumer.
    have hitems : queue.items <:+ crowd.queue.items ∧
        (∀ e, y'.phase = .ended e → crowd.finished = true ∧ queue.items = []) := by
      cases hgo with
      | begin hphase => exact ⟨List.suffix_rfl, fun _ he => by cases he⟩
      | @poll seen call hphase =>
        obtain ⟨answered, hledger, -⟩ := (ht.consumer hy).ledger
        simp only [Consumer.call?, hphase] at hledger
        obtain ⟨hsuffix, hempty⟩ := hledger.dequeue_items ((ht.consumer hy).polling hphase) f
        rw [ht.queue] at hsuffix hempty
        refine ⟨hsuffix, fun e he => ?_⟩
        cases hprogress : ((Fifo.linked f).step crowd.queue call).progress with
        | running next => simp [afterPoll, hprogress] at he
        | panicked =>
          exfalso
          revert hprogress
          simp only [Fifo.linked, Fifo.progress]
          split <;> simp
        | returned reply =>
          cases hitem : reply.item? with
          | some tag => simp [afterPoll, hprogress, hitem] at he
          | none =>
            cases seen with
            | false => simp [afterPoll, hprogress, hitem] at he
            | true => exact ⟨hp.polling hy hphase, hempty reply hprogress hitem⟩
    intro c y₁ e hy₁ he
    rcases set_cases hy₁ with ⟨rfl, rfl⟩ | ⟨-, hy₁⟩
    · obtain ⟨hfinished, hempty⟩ := hitems.2 e he
      refine ⟨fun p x hx => ?_, hempty⟩
      -- The mark is set behind the last producer, since none of them has failed.
      rcases hp.finished hfinished with hall | ⟨p', x', e', hx', he', hfail⟩
      · exact hall p x hx
      · exact absurd ((ht.producer hx').ended he').1 hfail
    · obtain ⟨hall, hempty⟩ := h c y₁ e hy₁ he
      refine ⟨hall, ?_⟩
      have hsuffix := hitems.1
      rw [hempty] at hsuffix
      exact List.suffix_nil.1 hsuffix

/-- Every schedule of a crowd on a linked queue is a run of its threads, the mark means what it
says, and the queue is empty once a consumer has ended. -/
theorem traced_follow (hfits : plan.Fits) (schedule : List Agent) :
    (∃ moves, (follow (.linked f) plan (.init plan .init) schedule).Traced f plan moves) ∧
      (follow (.linked f) plan (.init plan .init) schedule).Protocol ∧
      (follow (.linked f) plan (.init plan .init) schedule).Drained := by
  refine follow_induction (P := fun crowd => (∃ moves, crowd.Traced f plan moves) ∧
    crowd.Protocol ∧ crowd.Drained) ?_ ⟨⟨[], .init f plan⟩, .init plan _, ?_⟩ schedule
  · rintro crowd crowd' ⟨⟨moves, ht⟩, hp, hd⟩ hsteps
    exact ⟨ht.steps hfits hsteps, hp.steps hsteps, hd.steps ht hp hsteps⟩
  · intro c y e hy he
    simp only [Crowd.init, Array.getElem?_replicate] at hy
    split at hy <;> cases hy
    cases he

end Crowd

end AtomicFifo

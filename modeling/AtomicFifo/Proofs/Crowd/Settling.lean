import AtomicFifo.Proofs.Call.Alone
import AtomicFifo.Proofs.Crowd.Balance
import Mathlib.Algebra.Order.Ring.Nat

/-!
# A crowd comes to its end

Whatever its threads have done so far, a crowd on a linked queue ends if from now on the agents
run in turn. What is left to do is counted in steps: an item in the queue, or on its way into it
or out of it, will cost some consumer a poll, and a call will take as many steps as a call takes
alone at most. What the call of the agent in turn takes less than that is its slack, and each
step of that agent takes more off the toil than off the slack.

* `toil_step`             a step of the agent in turn
* `settle_ended`          enough steps in turn end the crowd
* `settle_init_ended`     `patience` is enough for a crowd on an empty queue
* `exists_follow_ended`   a crowd can end after every schedule
-/

namespace AtomicFifo

universe u

variable {α : Type u} {f : Facade Word α} {plan : Plan}

namespace Call

/-- What a call costs at most: its own steps, and a poll for each item that it owes. -/
def toil (c : Call α) : Nat := 13 + 11 * c.owed

/-- How many of these steps the call does not take if it goes on alone. -/
def slack (s : Shared α) (c : Call α) : Nat := 13 - c.stepsLeft s

variable {s : Shared α} {c : Call α}

/-- The slack of a call is part of its toil. -/
private theorem slack_le_toil : c.slack s ≤ c.toil := by
  unfold slack toil
  omega

/-- A dequeue that begins has no more toil than its slack allows for. -/
private theorem toil_start_dequeue :
    (readHead : Call α).toil ≤ 10 + (readHead : Call α).slack s := by
  have := stepsFromLink_self_le s
  simp only [toil, slack, owed, stepsLeft]
  omega

/-- An enqueue that begins has no more toil than its slack allows for. -/
private theorem toil_start_enqueue (item : α) :
    (allocate item).toil ≤ 21 + (allocate item).slack s := by
  simp [toil, slack, owed, stepsLeft]

/-- The steps of a call that goes on alone are paid for one by one. -/
theorem toil_step (memory : Bool) (hs : s.Coherent) (hk : c.Knows s)
    (hn : ∀ n, c.node? = some n → s.Apart n) (hrun : c.reply? = none) :
    11 * (c.step (.ofMemory memory) s).1.items.length + (c.step (.ofMemory memory) s).2.toil +
        c.slack s <
      11 * s.items.length + c.toil +
        (c.step (.ofMemory memory) s).2.slack (c.step (.ofMemory memory) s).1 := by
  have hitems := items_step memory hs hk hn
  have hsteps := stepsLeft_step memory hs hk hrun
  have hle : c.stepsLeft s ≤ 13 := stepsLeft_le
  unfold toil slack
  omega

/-- A call that returns has paid for the item that it answers. -/
private theorem toil_return (memory : Bool) (hs : s.Coherent) (hk : c.Knows s)
    (hn : ∀ n, c.node? = some n → s.Apart n) (hrun : c.reply? = none) {reply : Reply α}
    (hreply : (c.step (.ofMemory memory) s).2.reply? = some reply) :
    11 * (c.step (.ofMemory memory) s).1.items.length + 11 * reply.item?.toList.length +
        c.slack s <
      11 * s.items.length + c.toil := by
  have hpos : 0 < c.stepsLeft s := stepsLeft_pos hrun
  cases hitem : reply.item? with
  | some a =>
    have hdequeued : reply = .dequeued (some a) := by
      cases reply with
      | dequeued item => exact congrArg _ hitem
      | _ => cases hitem
    rw [hdequeued] at hreply
    -- The item left the queue before, and the call has owed it since.
    obtain ⟨hsame, howed⟩ := items_of_answer memory hreply hrun
    rw [hsame]
    simp only [toil, slack, howed, Option.toList_some, List.length_singleton]
    omega
  | none =>
    have hitems := items_step memory hs hk hn
    simp only [toil, slack, Option.toList_none, List.length_nil]
    omega

end Call

/-- A thread takes a step of its call on the linked queue: the step is paid for. -/
private theorem System.Ledger.toil {threads thread : Nat} {moves : List (Move α)} {call : Call α}
    {asked answered : List α} (h : Ledger threads moves thread (some call) asked answered)
    (f : Facade Word α) :
    let s := ((System.init threads).run moves).shared
    let turn := (Fifo.linked f).step s call
    (∃ next : Call α, turn.progress = .running next ∧
        11 * turn.state.items.length + next.toil + call.slack s <
          11 * s.items.length + call.toil + next.slack turn.state) ∨
      ∃ reply, turn.progress = .returned reply ∧
        11 * turn.state.items.length + 11 * reply.item?.toList.length + call.slack s <
          11 * s.items.length + call.toil := by
  intro s turn
  obtain ⟨hat, hrun⟩ := System.running?_eq_some_iff.1 h.running
  have hinv := ((Reachable.init threads).run moves).inv
  have hapart : ∀ n, call.node? = some n → s.Apart n := fun n hn => hinv.apart hat hn
  have hprogress : turn.progress = Fifo.progress f.unwrap (call.step .fresh s).2 := rfl
  -- Either the call goes on with less toil, or it returns and pays for the item it took.
  cases hreply : (call.step .fresh s).2.reply? with
  | none =>
    exact .inl ⟨_, hprogress.trans (Fifo.progress_running hreply),
      call.toil_step true hinv.coherent (hinv.knows hat) hapart hrun⟩
  | some reply =>
    refine .inr ⟨_, hprogress.trans (Fifo.progress_returned hreply), ?_⟩
    have hlength : (reply.map f.unwrap).item?.toList.length = reply.item?.toList.length := by
      cases reply with
      | dequeued item => cases item <;> rfl
      | _ => rfl
    rw [hlength]
    exact call.toil_return true hinv.coherent (hinv.knows hat) hapart hrun hreply

/-! ### One thread -/

/-- What a producer has still to do. -/
def Producer.toil (plan : Plan) (x : Producer (Call α)) : Nat :=
  match x.phase with
  | .ready => 32 * (plan.items.toNat - x.pushed.toNat) + 1
  | .pushing call => 32 * (plan.items.toNat - (x.pushed.toNat + 1)) + 11 + call.toil
  | .popping call => 32 * (plan.items.toNat - x.pushed.toNat) + 1 + call.toil
  | .ended _ => 0

/-- What a consumer has still to do: an empty poll that began before the mark was set is not the
last one. -/
def Consumer.toil (y : Consumer (Call α)) : Nat :=
  match y.phase with
  | .ready => 12
  | .polling true call => 1 + call.toil
  | .polling false call => 13 + call.toil
  | .ended _ => 0

def Producer.slack (s : Shared α) (x : Producer (Call α)) : Nat := x.call?.elim 0 (·.slack s)

def Consumer.slack (s : Shared α) (y : Consumer (Call α)) : Nat := y.call?.elim 0 (·.slack s)

/-- The slack of a producer is part of its toil. -/
private theorem Producer.slack_le_toil {s : Shared α} {x : Producer (Call α)} :
    x.slack s ≤ x.toil plan := by
  unfold slack toil call?
  cases x.phase with
  | pushing call | popping call =>
    have := call.slack_le_toil (s := s)
    simp only [Option.elim_some]
    omega
  | _ => exact Nat.zero_le _

/-- The slack of a consumer is part of its toil. -/
private theorem Consumer.slack_le_toil {s : Shared α} {y : Consumer (Call α)} :
    y.slack s ≤ y.toil := by
  unfold slack toil call?
  cases y.phase with
  | polling seen call =>
    have := call.slack_le_toil (s := s)
    cases seen <;> simp only [Option.elim_some] <;> omega
  | _ => exact Nat.zero_le _

/-- An enqueue that has returned has paid for what its producer begins with next. -/
private theorem Producer.toil_afterPush {x : Producer (Call α)}
    (hlt : x.pushed.toNat < plan.items.toNat) (reply : Reply Word) (s : Shared α) :
    (Crowd.afterPush (.linked f) plan x (.returned reply)).toil plan ≤
      32 * (plan.items.toNat - (x.pushed.toNat + 1)) + 11 +
        (Crowd.afterPush (.linked f) plan x (.returned reply)).slack s := by
  have hsucc := plan.toNat_succ hlt
  have hdequeue := Call.toil_start_dequeue (s := s)
  cases reply with
  -- A refused producer ends and has nothing left to do.
  | refused tag => exact Nat.zero_le _
  | _ =>
    cases hpairs : plan.pairs with
    | false =>
      simp only [Crowd.afterPush, toil, slack, call?, hpairs, hsucc, Bool.false_eq_true, if_false]
      omega
    | true =>
      simp only [Crowd.afterPush, toil, slack, call?, hpairs, hsucc, if_true, Fifo.linked,
        Option.elim_some]
      omega

/-- A step of a producer is paid for. -/
private theorem Producer.Traced.toil_goes {moves : List (Move α)} {p : Nat}
    {x x' : Producer (Call α)} {queue : Shared α} {events : List Event}
    (h : x.Traced f plan moves p) (hfits : plan.Fits)
    (hp : p < plan.producers.toNat)
    (hgo : x.Goes (.linked f) plan p ((System.init plan.threads).run moves).shared queue x'
      events) :
    11 * queue.items.length + x'.toil plan + x.slack ((System.init plan.threads).run moves).shared <
      11 * ((System.init plan.threads).run moves).shared.items.length + x.toil plan +
        x'.slack queue := by
  obtain ⟨answered, hledger, -⟩ := h.ledger
  have hallows := h.allows
  cases hgo with
  | begin hphase =>
    unfold Crowd.beginPush
    by_cases hall : x.pushed = plan.items
    · simp [hall, toil, slack, call?, hphase]
    · have hlt := h.pushed_lt hall
      have hstart := Call.toil_start_enqueue (f.wrap (plan.tag p x.pushed.toNat))
        (s := ((System.init plan.threads).run moves).shared)
      -- The producer pays for the enqueue out of what it has set aside for this tag.
      rw [if_neg hall, hfits.tag?_eq hp hlt]
      simp only [toil, slack, call?, hphase, Fifo.linked, Option.elim_some, Option.elim_none]
      omega
  | @push call hphase =>
    simp only [call?, hphase] at hledger
    rw [hphase] at hallows
    obtain ⟨-, hlt⟩ := hallows
    rcases hledger.toil f with ⟨next, hprogress, hpaid⟩ | ⟨reply, hprogress, hpaid⟩
    · rw [hprogress]
      simp only [Crowd.afterPush, toil, slack, call?, hphase, Option.elim_some]
      omega
    · have hafter := toil_afterPush (f := f) hlt reply ((Fifo.linked f).step
        ((System.init plan.threads).run moves).shared call).state
      rw [hprogress]
      simp only [toil, slack, call?, hphase, Option.elim_some] at hafter ⊢
      omega
  | @pop call hphase =>
    simp only [call?, hphase] at hledger
    rcases hledger.toil f with ⟨next, hprogress, hpaid⟩ | ⟨reply, hprogress, hpaid⟩
    · rw [hprogress]
      simp only [Crowd.afterPop, toil, slack, call?, hphase, Option.elim_some]
      omega
    · rw [hprogress]
      cases hitem : reply.item? with
      | some tag =>
        simp only [Crowd.afterPop, hitem, toil, slack, call?, hphase, Option.elim_some,
          Option.elim_none]
        omega
      | none =>
        simp only [Crowd.afterPop, hitem, toil, slack, call?, hphase, Option.elim_some,
          Option.elim_none]
        omega

/-- A step of a consumer after the mark was set is paid for. -/
private theorem Consumer.Traced.toil_goes {moves : List (Move α)} {index thread : Nat}
    {y y' : Consumer (Call α)} {queue : Shared α} {events : List Event}
    (h : y.Traced f plan moves thread)
    (hgo : y.Goes (.linked f) index true ((System.init plan.threads).run moves).shared queue y'
      events) :
    11 * queue.items.length + y'.toil + y.slack ((System.init plan.threads).run moves).shared <
      11 * ((System.init plan.threads).run moves).shared.items.length + y.toil +
        y'.slack queue := by
  obtain ⟨answered, hledger, -⟩ := h.ledger
  cases hgo with
  | begin hphase =>
    have hdequeue := Call.toil_start_dequeue (s := ((System.init plan.threads).run moves).shared)
    simp only [toil, slack, call?, hphase, Fifo.linked, Option.elim_some, Option.elim_none]
    omega
  | @poll seen call hphase =>
    simp only [call?, hphase] at hledger
    rcases hledger.toil f with ⟨next, hprogress, hpaid⟩ | ⟨reply, hprogress, hpaid⟩
    · rw [hprogress]
      cases seen <;>
        simp only [Crowd.afterPoll, toil, slack, call?, hphase, Option.elim_some] <;>
        omega
    · rw [hprogress]
      cases hitem : reply.item? with
      | some tag =>
        -- The item that was answered pays for the poll that begins next.
        rw [hitem] at hpaid
        cases seen <;>
          simp only [Crowd.afterPoll, hitem, toil, slack, call?, hphase, Option.elim_some,
            Option.elim_none, Option.toList_some, List.length_singleton] at hpaid ⊢ <;>
          omega
      | none =>
        cases seen with
        | false =>
          -- The mark is set by now, so the next empty poll is the last one.
          simp only [Crowd.afterPoll, hitem, toil, slack, call?, hphase, Option.elim_some,
            Option.elim_none, Bool.false_eq_true, if_false]
          omega
        | true =>
          simp only [Crowd.afterPoll, hitem, toil, slack, call?, hphase, Option.elim_some,
            Option.elim_none, if_true]
          omega

/-! ### The agent in turn -/

/-- Writing a place of an array lets what stands before and behind it as it is. -/
private theorem toList_split {β : Type*} {xs : Array β} {i : Nat} {a : β} (h : xs[i]? = some a) :
    ∃ l₁ l₂, xs.toList = l₁ ++ a :: l₂ ∧ ∀ b, (xs.setIfInBounds i b).toList = l₁ ++ b :: l₂ := by
  obtain ⟨hlt, rfl⟩ := Array.getElem?_eq_some_iff.1 h
  refine ⟨xs.toList.take i, xs.toList.drop (i + 1), ?_, fun b => ?_⟩
  · rw [← Array.getElem_toList hlt, ← List.drop_eq_getElem_cons, List.take_append_drop]
  · rw [Array.toList_setIfInBounds, List.set_eq_take_append_cons_drop, Array.length_toList,
      if_pos hlt]

namespace Crowd

variable {crowd : Crowd (Shared α) (Call α)} {moves : List (Move α)} {agent : Agent}

/-- What a crowd has still to do. -/
def toil (plan : Plan) (crowd : Crowd (Shared α) (Call α)) : Nat :=
  11 * crowd.queue.items.length + (crowd.producers.toList.map (·.toil plan)).sum +
    (crowd.consumers.toList.map (·.toil)).sum + (crowd.producers.size - crowd.joined) +
    if crowd.finished then 0 else 1

/-- The slack of an agent. -/
def slack (crowd : Crowd (Shared α) (Call α)) : Agent → Nat
  | .producer p => crowd.producers[p]?.elim 0 (·.slack crowd.queue)
  | .consumer c => crowd.consumers[c]?.elim 0 (·.slack crowd.queue)
  | .main => 0

/-- The slack of the agent in turn. -/
def spare (crowd : Crowd (Shared α) (Call α)) : Nat := crowd.turn?.elim 0 crowd.slack

/-- The slack of any agent is part of the toil of the crowd. -/
private theorem slack_le_toil : crowd.slack agent ≤ crowd.toil plan := by
  cases agent with
  | producer p =>
    cases hx : crowd.producers[p]? with
    | none => simp [slack, hx]
    | some x =>
      obtain ⟨l₁, l₂, hl, -⟩ := toList_split hx
      have hle : x.slack crowd.queue ≤ x.toil plan := x.slack_le_toil
      simp only [slack, hx, Option.elim_some, toil, hl, List.map_append, List.map_cons,
        List.sum_append, List.sum_cons]
      omega
  | consumer c =>
    cases hy : crowd.consumers[c]? with
    | none => simp [slack, hy]
    | some y =>
      obtain ⟨l₁, l₂, hl, -⟩ := toList_split hy
      have hle := y.slack_le_toil (s := crowd.queue)
      simp only [slack, hy, Option.elim_some, toil, hl, List.map_append, List.map_cons,
        List.sum_append, List.sum_cons]
      omega
  | main => exact Nat.zero_le _

/-- The slack of the agent whose turn it is is part of the toil of the crowd. -/
private theorem spare_le_toil : crowd.spare ≤ crowd.toil plan := by
  unfold spare
  cases crowd.turn? with
  | none => exact Nat.zero_le _
  | some agent => exact slack_le_toil

/-- It is the turn of a producer until it has ended. -/
private theorem slack_le_spare_producer (crowd : Crowd (Shared α) (Call α)) {x : Producer (Call α)}
    (hfin : crowd.finished = false) (hx : crowd.producers[crowd.joined]? = some x) :
    x.slack crowd.queue ≤ crowd.spare := by
  cases hend : x.ending? with
  | some e =>
    simp [Producer.slack, Producer.call?, Producer.ending?_eq_some_iff.1 hend]
  | none =>
    have hturn : crowd.turn? = some (.producer crowd.joined) := by
      simp [turn?, hfin, hx, hend]
    simp [spare, hturn, slack, hx]

/-- It is the turn of a consumer until it has ended. -/
private theorem slack_le_spare_consumer (crowd : Crowd (Shared α) (Call α)) {c : Nat}
    {y : Consumer (Call α)} (hfin : crowd.finished = true)
    (hall : ∀ x ∈ crowd.producers, x.ending?.isNone = false)
    (hy : crowd.consumers[c]? = some y)
    (hbefore : ∀ c' y', c' < c → crowd.consumers[c']? = some y' → y'.ending?.isNone = false) :
    y.slack crowd.queue ≤ crowd.spare := by
  cases hend : y.ending? with
  | some e =>
    simp [Consumer.slack, Consumer.call?, Consumer.ending?_eq_some_iff.1 hend]
  | none =>
    -- With the producers ended, the turn is that of the first consumer that has not.
    have hturn : crowd.turn? = some (.consumer c) := by
      obtain ⟨hlt, hget⟩ := Array.getElem?_eq_some_iff.1 hy
      have hproducers : crowd.producers.findIdx? (·.ending?.isNone) = none :=
        Array.findIdx?_eq_none_iff.2 hall
      have hconsumers : crowd.consumers.findIdx? (·.ending?.isNone) = some c := by
        refine Array.findIdx?_eq_some_iff_getElem.2 ⟨hlt, by simp [hget, hend], fun j hj => ?_⟩
        have hj' : j < crowd.consumers.size := Nat.lt_trans hj hlt
        rw [hbefore j _ hj (Array.getElem?_eq_getElem hj')]
        exact Bool.false_ne_true
      simp [turn?, hfin, hproducers, hconsumers]
    simp [spare, hturn, slack, hy]

/-- Under what a crowd on a linked queue keeps, whose turn it is. -/
private theorem turn?_cases (h : crowd.Traced f plan moves) (hp : crowd.Protocol)
    (hturn : crowd.turn? = some agent) :
    (agent = .main ∧ crowd.finished = false ∧
        ∀ x, crowd.producers[crowd.joined]? = some x → x.phase = .ended .completed) ∨
      (∃ x, agent = .producer crowd.joined ∧ crowd.finished = false ∧
        crowd.producers[crowd.joined]? = some x ∧ x.ending? = none) ∨
      ∃ c y, agent = .consumer c ∧ crowd.finished = true ∧
        (∀ x ∈ crowd.producers, x.ending?.isNone = false) ∧ crowd.consumers[c]? = some y ∧
        y.ending? = none ∧
        ∀ c' y', c' < c → crowd.consumers[c']? = some y' → y'.ending?.isNone = false := by
  unfold turn? at hturn
  split at hturn
  · rename_i hfin
    -- No producer fails, so all of them have ended.
    have hall : ∀ x ∈ crowd.producers, x.ending?.isNone = false := by
      intro x hmem
      obtain ⟨p, hx⟩ := Array.getElem?_of_mem hmem
      rcases hp.finished hfin with hall | ⟨p', x', e, hx', he, hfail⟩
      · rw [Producer.ending?_eq_some_iff.2 (hall p x hx)]
        rfl
      · exact absurd ((h.producer hx').ended he).1 hfail
    rw [Array.findIdx?_eq_none_iff.2 hall] at hturn
    obtain ⟨c, hc, rfl⟩ := Option.map_eq_some_iff.1 hturn
    obtain ⟨hlt, hend, hbefore⟩ := Array.findIdx?_eq_some_iff_getElem.1 hc
    refine .inr (.inr ⟨c, _, rfl, hfin, hall, Array.getElem?_eq_getElem hlt, by simpa using hend,
      fun c' y' hlt' hy' => ?_⟩)
    obtain ⟨hsize, rfl⟩ := Array.getElem?_eq_some_iff.1 hy'
    exact Bool.eq_false_iff.2 (hbefore c' hlt')
  · rename_i hfin
    have hfin : crowd.finished = false := by simpa using hfin
    cases hx : crowd.producers[crowd.joined]? with
    | none =>
      rw [hx] at hturn
      cases hturn
      exact .inl ⟨rfl, hfin, fun x hx' => by cases hx'⟩
    | some x =>
      rw [hx] at hturn
      simp only at hturn
      cases hend : x.ending? with
      | none =>
        rw [hend] at hturn
        cases hturn
        exact .inr (.inl ⟨x, rfl, hfin, rfl, hend⟩)
      | some e =>
        rw [hend] at hturn
        cases hturn
        refine .inl ⟨rfl, hfin, fun x' hx' => ?_⟩
        cases hx'
        have he := Producer.ending?_eq_some_iff.1 hend
        rwa [((h.producer hx).ended he).1] at he

/-- A step of the producer that the main thread waits for is paid for. -/
private theorem toil_step_producer (h : crowd.Traced f plan moves) (hfits : plan.Fits)
    (hfin : crowd.finished = false) {x : Producer (Call α)}
    (hx : crowd.producers[crowd.joined]? = some x) (hend : x.ending? = none) :
    (crowd.step (.linked f) plan (.producer crowd.joined)).toil plan +
        crowd.slack (.producer crowd.joined) <
      crowd.toil plan + (crowd.step (.linked f) plan (.producer crowd.joined)).spare := by
  obtain ⟨x', queue, events, hgo, hstep⟩ := step_producer (.linked f) plan hx hend
  obtain ⟨hlt, -⟩ := Array.getElem?_eq_some_iff.1 hx
  have hpaid := h.queue ▸ (h.producer hx).toil_goes hfits (h.producer_lt hx)
    (h.queue.symm ▸ hgo)
  obtain ⟨l₁, l₂, hl, hset⟩ := toList_split hx
  -- The others do as before, and the producer keeps its turn unless it has ended by this step.
  have hspare := slack_le_spare_producer (crowd.step (.linked f) plan (.producer crowd.joined))
    (x := x') (by rwa [hstep]) (by rw [hstep]; exact Array.getElem?_setIfInBounds_self_of_lt hlt)
  rw [hstep] at hspare ⊢
  dsimp only at hspare
  simp only [toil, slack, hx, hl, hset, Option.elim_some, List.map_append, List.map_cons,
    List.sum_append, List.sum_cons, Array.size_setIfInBounds]
  omega

/-- A step of the first consumer that has not ended is paid for, once the mark is set. -/
private theorem toil_step_consumer (h : crowd.Traced f plan moves) (hfin : crowd.finished = true)
    (hall : ∀ x ∈ crowd.producers, x.ending?.isNone = false) {c : Nat} {y : Consumer (Call α)}
    (hy : crowd.consumers[c]? = some y) (hend : y.ending? = none)
    (hbefore : ∀ c' y', c' < c → crowd.consumers[c']? = some y' → y'.ending?.isNone = false) :
    (crowd.step (.linked f) plan (.consumer c)).toil plan + crowd.slack (.consumer c) <
      crowd.toil plan + (crowd.step (.linked f) plan (.consumer c)).spare := by
  obtain ⟨y', queue, events, hgo, hstep⟩ := step_consumer (.linked f) plan hy hend
  obtain ⟨hlt, -⟩ := Array.getElem?_eq_some_iff.1 hy
  rw [hfin] at hgo
  have hpaid := h.queue ▸ (h.consumer hy).toil_goes (h.queue.symm ▸ hgo)
  obtain ⟨l₁, l₂, hl, hset⟩ := toList_split hy
  -- The consumer keeps the turn unless it has ended, so its slack is the spare one.
  have hspare := slack_le_spare_consumer (crowd.step (.linked f) plan (.consumer c))
    (c := c) (y := y') (by rwa [hstep]) (by rwa [hstep])
    (by rw [hstep]; exact Array.getElem?_setIfInBounds_self_of_lt hlt) (by
      intro c' y₁ hlt' hy₁
      rw [hstep, Array.getElem?_setIfInBounds_ne (Nat.ne_of_gt hlt')] at hy₁
      exact hbefore c' y₁ hlt' hy₁)
  rw [hstep] at hspare ⊢
  dsimp only at hspare
  simp only [toil, slack, hy, hl, hset, Option.elim_some, List.map_append, List.map_cons,
    List.sum_append, List.sum_cons]
  omega

/-- A step of the agent in turn is paid for. -/
theorem toil_step (h : crowd.Traced f plan moves) (hp : crowd.Protocol) (hfits : plan.Fits)
    (hturn : crowd.turn? = some agent) :
    (crowd.step (.linked f) plan agent).toil plan + crowd.spare <
      crowd.toil plan + (crowd.step (.linked f) plan agent).spare := by
  have hspare : crowd.spare = crowd.slack agent := by simp [spare, hturn]
  rw [hspare]
  rcases turn?_cases h hp hturn with ⟨rfl, hfin, hjoin⟩ | ⟨x, rfl, hfin, hx, hend⟩ |
    ⟨c, y, rfl, hfin, hall, hy, hend, hbefore⟩
  · -- The main thread joins one producer more, or sets the mark; it has no slack itself.
    obtain ⟨queue, producers, consumers, joined, finished, log⟩ := crowd
    obtain rfl : finished = false := hfin
    cases hx : producers[joined]? with
    | none =>
      simp only [step, hx, toil, slack, Bool.false_eq_true, if_false, if_true]
      omega
    | some x =>
      obtain ⟨hlt, -⟩ := Array.getElem?_eq_some_iff.1 hx
      simp only [step, hx, hjoin x hx, toil, slack, Bool.false_eq_true, if_false]
      omega
  · exact toil_step_producer h hfits hfin hx hend
  · exact toil_step_consumer h hfin hall hy hend hbefore

/-! ### The end -/

/-- Enough steps in turn end a crowd. -/
theorem settle_ended (h : crowd.Traced f plan moves) (hp : crowd.Protocol) (hfits : plan.Fits)
    {n : Nat} (hn : crowd.toil plan ≤ n + crowd.spare) :
    (settle (.linked f) plan n crowd).ended = true := by
  induction n generalizing crowd moves with
  | zero =>
    cases hturn : crowd.turn? with
    | none => exact ended_of_turn?_eq_none hturn
    | some agent =>
      -- A step could not be paid for.
      exfalso
      have hpaid := toil_step h hp hfits hturn
      have hspare : (crowd.step (.linked f) plan agent).spare ≤
        (crowd.step (.linked f) plan agent).toil plan := spare_le_toil
      omega
  | succ n ih =>
    unfold settle
    cases hturn : crowd.turn? with
    | none => exact ended_of_turn?_eq_none hturn
    | some agent =>
      -- The step lowers the toil, up to the slack of whoever is in turn next.
      have hsteps := step_steps (.linked f) plan crowd agent
      obtain ⟨moves', h'⟩ := h.steps hfits hsteps
      have hpaid := toil_step h hp hfits hturn
      exact ih h' (hp.steps hsteps) (by omega)

/-- `patience` is enough for the agents in turn to end, on an empty queue. -/
theorem settle_init_ended (f : Facade Word α) (hfits : plan.Fits) :
    (settle (.linked f) plan (patience plan 0) (.init plan .init)).ended = true := by
  apply settle_ended (.init f plan) (.init plan Shared.init) hfits
  have hitems : (Shared.init : Shared α).items = [] := rfl
  simp only [toil, init, hitems, patience, Array.toList_replicate, List.map_replicate,
    List.sum_replicate_nat, Producer.toil, Producer.init, Consumer.toil, Consumer.init,
    Array.size_replicate, List.length_nil, UInt64.toNat_zero, Nat.sub_zero, Nat.mul_add,
    Nat.mul_left_comm _ 32, Bool.false_eq_true, if_false]
  omega

/-- Whatever the threads have done so far, all of them can end. -/
theorem Traced.exists_follow_ended (h : crowd.Traced f plan moves) (hp : crowd.Protocol)
    (hfits : plan.Fits) : ∃ more, (follow (.linked f) plan crowd more).ended = true := by
  obtain ⟨more, hmore⟩ := settle_eq_follow (.linked f) plan (crowd.toil plan) crowd
  refine ⟨more, ?_⟩
  rw [← hmore]
  exact settle_ended h hp hfits (Nat.le_add_right _ _)

end Crowd

end AtomicFifo

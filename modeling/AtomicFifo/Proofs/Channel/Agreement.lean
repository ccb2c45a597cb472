import AtomicFifo.Channel

/-!
# The kinds of channel agree

Who only sends and receives cannot tell the kinds of channel apart: each of them answers as a
list does that grows at its end and is taken from at its start. For a bounded buffer this is so
as long as no send finds it full; a linked queue answers as the list does in any case, also
once its receiver is gone, and a send that finds no memory leaves no trace.

* `Channel.list`     the list as a channel
* `run_eq_of_alike`  two channels that answer alike step by step do so along a script
* `linked_run`, `bounded_run`  a linked queue, and a bounded buffer that is never found full
* `list_balance`     what was sent is what was received, and then what is still waiting
* `Agreement`, `kinds_agree`   all kinds together
-/

namespace AtomicFifo

universe u v

namespace Channel

/-- A list of integers as a channel, the oldest first. It has room for every item, and takes
none without memory. -/
def list : Channel (List Word) where
  create _ := []
  send memory l v := if memory then (l ++ [v], .ok) else (l, .panicked .outOfMemory)
  receive l := (l.tail, l.head?)
  closeSender := id
  closeReceiver := id

/-- The integer that a step sends; nothing is sent without memory. -/
def Step.sent? : Step → Option Word
  | .send true v => some v
  | _ => none

/-- The integer that an answer brings. -/
def Answer.received? : Answer → Option Word
  | .received v => v
  | _ => none

/-- A step of somebody who knows of a receiver and sends only where fewer than `room` items are
waiting to be received. -/
def Step.Orderly (room : Nat) (waiting : List Word) : Step → Prop
  | .send memory _ => memory = true ∧ waiting.length < room
  | .receive | .closeSender => True
  | .closeReceiver => False

variable {σ : Type u} {τ : Type v}

/-- One step of a script: the state that it leaves, and its answer. -/
def step (ch : Channel σ) (s : σ) : Step → σ × Answer
  | .send memory v =>
    let (s, how) := ch.send memory s v
    (s, .sent how)
  | .receive =>
    let (s, v) := ch.receive s
    (s, .received v)
  | .closeSender => (ch.closeSender s, .senderClosed)
  | .closeReceiver => (ch.closeReceiver s, .receiverClosed)

/-- The state that a script leaves. -/
def leave (ch : Channel σ) : σ → List Step → σ
  | s, [] => s
  | s, step :: steps => leave ch (ch.step s step).1 steps

/-- Each step of a script is of the kind that `P` asks for in the state that it finds. -/
def Along (ch : Channel σ) (P : σ → Step → Prop) : σ → List Step → Prop
  | _, [] => True
  | s, step :: steps => P s step ∧ Along ch P (ch.step s step).1 steps

/-- The first step is answered, and the others are answered from where it leads. -/
private theorem run_cons (ch : Channel σ) (s : σ) (step : Step) (steps : List Step) :
    ch.run s (step :: steps) = (ch.step s step).2 :: ch.run (ch.step s step).1 steps := by
  cases step <;> rfl

/-- Steps after steps are answered from where the first ones have led. -/
private theorem run_append (ch : Channel σ) (s : σ) (steps more : List Step) :
    ch.run s (steps ++ more) = ch.run s steps ++ ch.run (ch.leave s steps) more := by
  induction steps generalizing s with
  | nil => rfl
  | cons step steps ih => simp only [List.cons_append, run_cons, leave, ih]

/-! ### Channels that answer alike -/

/-- Where states that are alike answer alike and lead to such states again, for the steps that
`P` asks for, whole scripts of such steps are answered alike. -/
theorem run_eq_of_alike {ch : Channel σ} {ch' : Channel τ} (Alike : σ → τ → Prop)
    {P : τ → Step → Prop}
    (hstep : ∀ {s : σ} {t : τ} {step : Step}, Alike s t → P t step →
      (ch.step s step).2 = (ch'.step t step).2 ∧
        Alike (ch.step s step).1 (ch'.step t step).1)
    {s : σ} {t : τ} {steps : List Step} (h : Alike s t) (hsteps : ch'.Along P t steps) :
    ch.run s steps = ch'.run t steps := by
  induction steps generalizing s t with
  | nil => rfl
  | cons step steps ih =>
    obtain ⟨hfirst, hrest⟩ := hsteps
    obtain ⟨hanswer, hnext⟩ := hstep h hfirst
    rw [run_cons, run_cons, hanswer, ih hnext hrest]

/-- Nothing is asked of a channel that has no condition. -/
private theorem along_true (ch : Channel σ) (s : σ) (steps : List Step) :
    ch.Along (fun _ _ => True) s steps := by
  induction steps generalizing s with
  | nil => trivial
  | cons step steps ih => exact ⟨trivial, ih _⟩

section Linked

variable {α : Type u} (f : Facade Word α)

/-- The integers that a linked queue holds, as they come out of it. -/
def integers (q : Queue α) : List Word := q.toList.map f.unwrap

/-- With memory or without, a linked queue does to its integers what the list does. -/
theorem linked_step (q : Queue α) (step : Step) :
    ((linked f).step q step).2 = (list.step (integers f q) step).2 ∧
      integers f ((linked f).step q step).1 = (list.step (integers f q) step).1 := by
  -- A send is an enqueue, and a receive is a dequeue, of the item that stands for the integer.
  cases step with
  | send memory v =>
    cases memory with
    | false => exact ⟨by simp [Channel.step, linked, list, f.enqueue?_false],
        by simp [Channel.step, linked, list, f.enqueue?_false]⟩
    | true =>
      refine ⟨rfl, ?_⟩
      show (q.enqueue (f.wrap v)).toList.map f.unwrap = q.toList.map f.unwrap ++ [v]
      rw [Queue.toList_enqueue, List.map_append, List.map_singleton, f.unwrap_wrap]
  | receive =>
    constructor
    · show Answer.received (q.dequeue.2.map f.unwrap) = .received (q.toList.map f.unwrap).head?
      rw [Queue.dequeue_snd, List.head?_map]
    · show q.dequeue.1.toList.map f.unwrap = (q.toList.map f.unwrap).tail
      rw [Queue.toList_dequeue, List.map_tail]
  | closeSender => exact ⟨rfl, rfl⟩
  | closeReceiver => exact ⟨rfl, rfl⟩

/-- A linked queue answers every script as the list of its integers does. -/
theorem linked_run (q : Queue α) (steps : List Step) :
    (linked f).run q steps = list.run (integers f q) steps := by
  refine run_eq_of_alike (fun q l => integers f q = l) ?_ rfl (list.along_true _ steps)
  rintro q l step rfl -
  exact linked_step f q step

end Linked

/-- A bounded buffer with a receiver that holds these items. -/
structure Buffers (capacity : Word) (b : Bounded) (l : List Word) : Prop where
  toList_eq : b.toList = l
  receiving : b.receiving = true
  capacity_eq : b.capacity = capacity

/-- A step that finds room does to a bounded buffer what it does to the list. -/
theorem bounded_step {capacity : Word} {b : Bounded} {l : List Word} {step : Step}
    (h : Buffers capacity b l) (hstep : step.Orderly capacity.toNat l) :
    (bounded.step b step).2 = (list.step l step).2 ∧
      Buffers capacity (bounded.step b step).1 (list.step l step).1 := by
  obtain ⟨htoList, hreceiving, hcapacity⟩ := h
  cases step with
  | send memory v =>
    obtain ⟨rfl, hlt⟩ := hstep
    -- The step is orderly, so there is room where it sends.
    have hroom : b.hasRoom = true := by
      simp only [Bounded.hasRoom, ← Bounded.length_toList, htoList, hcapacity]
      exact decide_eq_true hlt
    have hsend := Bounded.send_of_room hreceiving hroom v
    refine ⟨by simp [Channel.step, bounded, list, hsend], ?_⟩
    simp only [Channel.step, bounded, list, hsend, if_true]
    exact ⟨by rw [Bounded.toList_push, htoList], hreceiving, hcapacity⟩
  | receive =>
    cases l with
    | nil =>
      have hreceive := Bounded.receive_of_nil htoList
      refine ⟨by simp [Channel.step, bounded, list, hreceive], ?_⟩
      simp only [Channel.step, bounded, list, hreceive]
      exact ⟨htoList, hreceiving, hcapacity⟩
    | cons v l =>
      obtain ⟨hanswer, hrest⟩ := Bounded.receive_of_cons htoList
      have hkept : b.receive.1.receiving = b.receiving ∧ b.receive.1.capacity = b.capacity := by
        unfold Bounded.receive
        split <;> exact ⟨rfl, rfl⟩
      refine ⟨by simp [Channel.step, bounded, list, hanswer], ?_⟩
      exact ⟨hrest, hkept.1.trans hreceiving, hkept.2.trans hcapacity⟩
  | closeSender => exact ⟨rfl, htoList, hreceiving, hcapacity⟩
  -- An orderly step does not close the receiver.
  | closeReceiver => cases hstep

/-- A bounded buffer that no send finds full answers as the list does. -/
theorem bounded_run {capacity : Word} {steps : List Step}
    (hsteps : list.Along (Step.Orderly capacity.toNat) [] steps) :
    bounded.script capacity steps = list.script capacity steps :=
  run_eq_of_alike (Buffers capacity) bounded_step ⟨rfl, rfl, rfl⟩ hsteps

/-! ### What the list answers -/

/-- What was there and what was sent is what was received, and then what is still waiting. -/
theorem list_balance (l : List Word) (steps : List Step) :
    l ++ steps.filterMap Step.sent? =
      (list.run l steps).filterMap Answer.received? ++ list.leave l steps := by
  -- By induction on the steps; what was held at the start counts as sent.
  induction steps generalizing l with
  | nil => simp [run, leave]
  | cons step steps ih =>
    rw [run_cons]
    cases step with
    | send memory v =>
      cases memory with
      | false => exact ih l
      | true =>
        have := ih (l ++ [v])
        simpa [List.filterMap_cons, Step.sent?, Channel.step, list, Answer.received?, leave]
          using this
    | receive =>
      cases l with
      -- Nothing is received from an empty channel.
      | nil => exact ih []
      | cons v l =>
        have := ih l
        simpa [List.filterMap_cons, Step.sent?, Channel.step, list, Answer.received?, leave]
          using this
    | closeSender => exact ih l
    | closeReceiver => exact ih l

end Channel

open Channel in
/-- What the kinds of channel have in common on a script. Their common measure is the list. -/
structure Agreement (capacity : Word) (steps : List Step) : Prop where
  /-- The linked kinds answer as the list does, whatever the capacity. -/
  linked : ∀ kind, kind ≠ .bounded →
    ChannelKind.script kind capacity steps = .ok (list.script capacity steps)
  /-- So does the bounded kind where it can be created, if each send has memory and finds fewer
  items waiting than the capacity, and the receiver stays. -/
  bounded : list.Along (Step.Orderly capacity.toNat) [] steps → Bounded.refusal? capacity = none →
    ChannelKind.bounded.script capacity steps = .ok (list.script capacity steps)
  /-- The list answers a receive with the integer that was sent next after those received so far,
  for every integer, and with none exactly when everything sent has been received. -/
  order :
    let answers := list.script capacity steps
    let sent := steps.filterMap Step.sent?
    let received := answers.filterMap Answer.received?
    received <+: sent ∧ ∃ next,
      list.script capacity (steps ++ [.receive]) = answers ++ [.received next] ∧
        next = sent[received.length]? ∧ (next = none ↔ received = sent)
  /-- On the linked kinds a send succeeds even after the receiver was dropped, -/
  closed : ∀ kind, kind ≠ .bounded → ∀ v,
    ChannelKind.script kind capacity (steps ++ [.closeReceiver, .send true v]) =
      .ok (list.script capacity steps ++ [.receiverClosed, .sent .ok])
  /-- and one without memory panics and changes no later answer. -/
  refused : ∀ kind, kind ≠ .bounded → ∀ v more, ∃ later,
    ChannelKind.script kind capacity (steps ++ more) =
        .ok (list.script capacity steps ++ later) ∧
      ChannelKind.script kind capacity (steps ++ .send false v :: more) =
        .ok (list.script capacity steps ++ .sent (.panicked .outOfMemory) :: later)

open Channel in
/-- On every script, and for every capacity, all kinds of channel agree. -/
theorem kinds_agree (capacity : Word) (steps : List Step) : Agreement capacity steps := by
  have hlinked : ∀ kind, kind ≠ .bounded → ∀ steps,
      ChannelKind.script kind capacity steps = .ok (list.script capacity steps) := by
    intro kind hkind steps
    cases kind with
    | handles => exact congrArg Except.ok (linked_run (.handles Word) .init steps)
    | addresses => exact congrArg Except.ok (linked_run (.addresses Word) .init steps)
    | bounded => exact absurd rfl hkind
  have happend : ∀ more, list.script capacity (steps ++ more) =
      list.script capacity steps ++ list.run (list.leave [] steps) more :=
    fun more => list.run_append [] steps more
  constructor
  case linked => exact fun kind hkind => hlinked kind hkind steps
  case bounded =>
    intro hsteps hcreated
    simp only [ChannelKind.script, hcreated, bounded_run hsteps]
  case order =>
    intro answers sent received
    have hbalance : sent = received ++ list.leave [] steps := list_balance [] steps
    refine ⟨⟨_, hbalance.symm⟩, (list.leave [] steps).head?, happend [.receive], ?_, ?_⟩
    · rw [hbalance, List.getElem?_append_right (Nat.le_refl _), Nat.sub_self,
        List.head?_eq_getElem?]
    · -- What is waiting is what was sent beyond what was received.
      rw [hbalance, List.head?_eq_none_iff]
      exact List.self_eq_append_right.symm
  case closed =>
    intro kind hkind v
    rw [hlinked kind hkind, happend]
    rfl
  case refused =>
    intro kind hkind v more
    refine ⟨list.run (list.leave [] steps) more, ?_, ?_⟩
    · rw [hlinked kind hkind, happend]
    · rw [hlinked kind hkind, happend]
      rfl

/-- The least and the greatest integer, on a channel for two that is filled, emptied and found
empty after its sender is gone: a bounded buffer answers as a queue of addresses does. -/
theorem kinds_agree_filled :
    let steps : List Channel.Step := [.send true 0, .send true 0xFFFFFFFFFFFFFFFF, .receive,
      .send true 0, .closeSender, .receive, .receive, .receive]
    let answers : List Channel.Answer := [.sent .ok, .sent .ok, .received (some 0), .sent .ok,
      .senderClosed, .received (some 0xFFFFFFFFFFFFFFFF), .received (some 0), .received none]
    ChannelKind.addresses.script 2 steps = .ok answers ∧
      ChannelKind.bounded.script 2 steps = .ok answers := by
  intro steps answers
  have hagree := kinds_agree 2 steps
  refine ⟨hagree.linked .addresses (by decide), hagree.bounded ?_ (by decide)⟩
  simp [steps, Channel.Along, Channel.Step.Orderly, Channel.step, Channel.list]

end AtomicFifo

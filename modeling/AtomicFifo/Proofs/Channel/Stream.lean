import AtomicFifo.Proofs.Channel.Scenario
import AtomicFifo.Proofs.Crowd.Threads

/-!
# What a stream delivers

In a stream the receiver stops by its own count, and how often it polls in vain depends on the
schedule. Still it receives `0`, `1`, … in their order, each of them once, on every kind of channel
and on every schedule: what was received, what is under way and what is still in the channel make
up what the sender has begun to send. So the receiver is done when it has received everything, and
the channel is empty from then on.

* `Steps`              what one step of a thread can do
* `Delivers`           what was received and what is to come
* `Traced.delivers`    on a linked queue, where a stream is a run of two threads
* `Held.follow`        on a bounded buffer
* `stream_delivers`    all kinds of channel
-/

namespace AtomicFifo

universe u v

namespace Stream

variable {σ : Type u} {κ : Type v}

/-! ### Steps -/

section Steps

variable {f : Fifo σ κ} {iters : Word} {s s' : Stream σ κ}

/-- What one step of a thread can do to a stream: nothing; the sender begins the next send, goes on
with it, has sent it, or fails; the receiver begins a poll, goes on with it, receives an integer,
or polls in vain. -/
inductive Steps (f : Fifo σ κ) (iters : Word) (s : Stream σ κ) : Stream σ κ → Prop
  | rest : Steps f iters s s
  -- The sender.
  | begin (hsending : s.sending = none) (hmore : s.sent ≠ iters) :
      Steps f iters s { s with sending := some (f.start (.enqueue s.sent)) }
  | send {call next : κ} {queue : σ} {event : Option Event} (hsending : s.sending = some call)
      (hstep : f.step s.queue call = ⟨queue, .running next, event⟩) :
      Steps f iters s { s with queue := queue, sending := some next }
  | sent {call : κ} {queue : σ} {reply : Reply Word} {event : Option Event}
      (hsending : s.sending = some call)
      (hstep : f.step s.queue call = ⟨queue, .returned reply, event⟩)
      (hgranted : ∀ v, reply ≠ .refused v) :
      Steps f iters s { s with queue := queue, sent := s.sent + 1, sending := none }
  | fail {call : κ} {queue : σ} {progress : Progress κ} {event : Option Event}
      (hsending : s.sending = some call) (hstep : f.step s.queue call = ⟨queue, progress, event⟩)
      (hfailed : progress = .panicked ∨ ∃ v, progress = .returned (.refused v)) :
      Steps f iters s { s with queue := queue, sending := none, failed := true }
  -- The receiver.
  | poll (hpolling : s.polling = none) (hmore : s.count ≠ iters) :
      Steps f iters s { s with polling := some (f.start .dequeue) }
  | wait {call next : κ} {queue : σ} {event : Option Event} (hpolling : s.polling = some call)
      (hstep : f.step s.queue call = ⟨queue, .running next, event⟩) :
      Steps f iters s { s with queue := queue, polling := some next }
  | receive {call : κ} {queue : σ} {v : Word} {event : Option Event}
      (hpolling : s.polling = some call)
      (hstep : f.step s.queue call = ⟨queue, .returned (.dequeued (some v)), event⟩) :
      Steps f iters s { s with
        queue := queue, received := v :: s.received, count := s.count + 1, polling := none }
  | miss {call : κ} {queue : σ} {progress : Progress κ} {event : Option Event}
      (hpolling : s.polling = some call) (hstep : f.step s.queue call = ⟨queue, progress, event⟩)
      (hrunning : ∀ next, progress ≠ .running next)
      (hmissed : ∀ v, progress ≠ .returned (.dequeued (some v))) :
      Steps f iters s { s with queue := queue, polling := none }

/-- Every step of a thread is one of the steps that there are. -/
private theorem step_steps (f : Fifo σ κ) (iters : Word) (s : Stream σ κ) (agent : StreamAgent) :
    Steps f iters s (s.step f iters agent) := by
  obtain ⟨queue, sent, sending, received, count, polling, failed⟩ := s
  cases agent with
  | sender =>
    -- Between two sends the sender begins the next one; in a send it goes on with it.
    cases sending with
    | none =>
      simp only [step]
      split
      · exact .rest
      · rename_i hmore
        have hne : sent ≠ iters := fun heq => hmore (by simp [heq])
        exact .begin rfl hne
    | some call =>
      rcases hstep : f.step queue call with ⟨queue', progress, event⟩
      simp only [step, hstep]
      cases progress with
      | running next => exact .send rfl hstep
      | panicked => exact .fail rfl hstep (.inl rfl)
      | returned reply =>
        cases reply with
        | refused v => exact .fail rfl hstep (.inr ⟨v, rfl⟩)
        | _ => exact .sent rfl hstep (fun _ h => nomatch h)
  | receiver =>
    -- And the receiver likewise with its polls.
    cases polling with
    | none =>
      simp only [step]
      split
      · exact .rest
      · exact .poll rfl ‹_›
    | some call =>
      rcases hstep : f.step queue call with ⟨queue', progress, event⟩
      simp only [step, hstep]
      cases progress with
      | running next => exact .wait rfl hstep
      | panicked => exact .miss rfl hstep (fun _ h => nomatch h) (fun _ h => nomatch h)
      | returned reply =>
        cases reply with
        | dequeued item =>
          cases item with
          | none => exact .miss rfl hstep (fun _ h => nomatch h) (fun _ h => nomatch h)
          | some v => exact .receive rfl hstep
        | _ => exact .miss rfl hstep (fun _ h => nomatch h) (fun _ h => nomatch h)

/-- What every step keeps holds after every schedule. -/
private theorem follow_induction {P : Stream σ κ → Prop}
    (hstep : ∀ s s', P s → Steps f iters s s' → P s') (h : P s) (schedule : List StreamAgent) :
    P (follow f iters s schedule) := by
  induction schedule generalizing s with
  | nil => exact h
  | cons agent schedule ih => exact ih (hstep _ _ h (step_steps f iters s agent))

/-- One schedule after another is followed as one schedule. -/
private theorem follow_append (f : Fifo σ κ) (iters : Word) (s : Stream σ κ)
    (schedule more : List StreamAgent) :
    follow f iters s (schedule ++ more) = follow f iters (follow f iters s schedule) more :=
  List.foldl_append

end Steps

/-! ### What is delivered -/

open Scenario (values values_succ values_prefix length_values)

/-- What was received, and then `rest`, is what the sender has begun to send; the receiver has
counted what it has received, and begins no poll when it has all of it; no send has failed. -/
structure Delivers (iters : Word) (s : Stream σ κ) (rest : List Word) : Prop where
  order : ∃ n ≤ iters.toNat, values n = s.received.reverse ++ rest
  count_eq : s.count.toNat = s.received.length
  done : s.count = iters → s.polling = none
  unfailed : s.failed = false

/-- What holds of a stream at every moment: what was received is a first part of `0`, `1`, … up to
the last integer, and all of it as soon as the receiver is done; then it is in no poll. No send has
failed. -/
structure InOrder (iters : Word) (s : Stream σ κ) : Prop where
  received : s.received.reverse <+: values iters.toNat
  count_eq : s.count.toNat = s.received.length
  done_iff : s.count = iters ↔ s.received.reverse = values iters.toNat
  idle : s.count = iters → s.polling = none
  unfailed : s.failed = false

section Delivers

variable {iters : Word} {s : Stream σ κ} {rest : List Word}

/-- What is delivered is received in order, and all of it once the receiver is done. -/
private theorem Delivers.inOrder (h : Delivers iters s rest) : InOrder iters s := by
  obtain ⟨n, hn, horder⟩ := h.order
  have hfirst : s.received.reverse <+: values iters.toNat :=
    (List.prefix_append _ rest).trans (horder ▸ values_prefix hn)
  refine ⟨hfirst, h.count_eq, ⟨fun hdone => ?_, fun hall => ?_⟩, h.done, h.unfailed⟩
  · refine hfirst.eq_of_length ?_
    rw [List.length_reverse, ← h.count_eq, hdone, length_values]
  · have hlen := congrArg List.length hall
    rw [List.length_reverse, length_values, ← h.count_eq] at hlen
    exact UInt64.toNat.inj hlen

/-- Once the receiver is done nothing is left to come. -/
private theorem Delivers.rest_eq_nil (h : Delivers iters s rest) (hdone : s.count = iters) :
    rest = [] := by
  obtain ⟨n, hn, horder⟩ := h.order
  have hlen := congrArg List.length horder
  rw [length_values, List.length_append, List.length_reverse, ← h.count_eq, hdone] at hlen
  exact List.length_eq_zero_iff.1 (by omega)

end Delivers

/-! ### On a bounded buffer -/

section Bounded

variable {capacity iters : Word} {b : Bounded} {l : List Word}
  {s s' : Stream Bounded (Request Word)}

/-- A send to a bounded buffer appends its integer, or waits. -/
private theorem bounded_enqueue_cases (h : Channel.Buffers capacity b l) (v : Word) :
    (∃ b', Channel.Buffers capacity b' (l ++ [v]) ∧
      Fifo.bounded.step b (.enqueue v) = ⟨b', .returned .enqueued, none⟩) ∨
      Fifo.bounded.step b (.enqueue v) = ⟨b, .running (.enqueue v), none⟩ := by
  cases hroom : b.hasRoom with
  | true =>
    have hsend := Bounded.send_of_room h.receiving hroom v
    refine .inl ⟨b.push v, ⟨?_, h.receiving, h.capacity_eq⟩, by simp [Fifo.bounded, hsend]⟩
    rw [Bounded.toList_push, h.toList_eq]
  | false =>
    have hsend : b.send v = (b, .blocked) := by simp [Bounded.send, h.receiving, hroom]
    exact .inr (by simp [Fifo.bounded, hsend])

/-- A poll of a bounded buffer takes its oldest integer, if there is one. -/
private theorem bounded_dequeue (h : Channel.Buffers capacity b l) :
    ∃ b', Channel.Buffers capacity b' l.tail ∧
      Fifo.bounded.step b .dequeue = ⟨b', .returned (.dequeued l.head?), none⟩ := by
  obtain ⟨hanswer, hbuffers⟩ := (Channel.carries_bounded capacity).receive h
  have hreceive : b.receive.2 = l.head? := hanswer
  refine ⟨b.receive.1, hbuffers, ?_⟩
  rw [← hreceive]
  rfl

/-- A stream over a buffer that holds these integers. What was sent is what was received, and what
the buffer holds. -/
structure Held (iters : Word) (s : Stream Bounded (Request Word)) (l : List Word) : Prop where
  buffers : Channel.Buffers streamCapacity s.queue l
  order : values s.sent.toNat = s.received.reverse ++ l
  sent_le : s.sent.toNat ≤ iters.toNat
  sending : ∀ call, s.sending = some call → call = .enqueue s.sent ∧ s.sent ≠ iters
  count_eq : s.count.toNat = s.received.length
  polling : ∀ call, s.polling = some call → call = .dequeue ∧ s.count ≠ iters
  unfailed : s.failed = false

/-- At the start the buffer is empty, and nothing has been sent. -/
private theorem Held.init (iters : Word) : Held iters (.init (.create streamCapacity)) [] where
  buffers := ⟨rfl, rfl, rfl⟩
  order := rfl
  sent_le := Nat.zero_le _
  sending _ h := nomatch h
  count_eq := rfl
  polling _ h := nomatch h
  unfailed := rfl

/-- No more is received than is to be sent. -/
private theorem Held.count_le (h : Held iters s l) : s.count.toNat ≤ iters.toNat := by
  -- What was received is part of what was sent.
  have hlen := congrArg List.length h.order
  rw [length_values, List.length_append, List.length_reverse, ← h.count_eq] at hlen
  have := h.sent_le
  omega

/-- Every step on a bounded buffer keeps the account of what it holds. -/
private theorem Held.steps (h : Held iters s l) (hsteps : Steps .bounded iters s s') :
    ∃ l', Held iters s' l' := by
  cases hsteps with
  | rest => exact ⟨l, h⟩
  | begin hsending hmore =>
    exact ⟨l, { h with sending := fun call hcall => by cases hcall; exact ⟨rfl, hmore⟩ }⟩
  | @send call next queue event hsending hstep =>
    obtain ⟨rfl, hmore⟩ := h.sending call hsending
    rcases bounded_enqueue_cases h.buffers s.sent with ⟨b', -, heq⟩ | heq
    · cases heq.symm.trans hstep
    · cases heq.symm.trans hstep
      exact ⟨l, { h with sending := fun call hcall => by cases hcall; exact ⟨rfl, hmore⟩ }⟩
  | @sent call queue reply event hsending hstep hgranted =>
    obtain ⟨rfl, hmore⟩ := h.sending call hsending
    have hlt := Word.toNat_lt_of_ne h.sent_le hmore
    rcases bounded_enqueue_cases h.buffers s.sent with ⟨b', hb', heq⟩ | heq
    · -- The integer that is counted as sent is the last one in the buffer.
      cases heq.symm.trans hstep
      refine ⟨l ++ [s.sent], hb', ?_, ?_, (fun _ hcall => by cases hcall), h.count_eq, h.polling,
        h.unfailed⟩
      · show values (s.sent + 1).toNat = _
        rw [Word.toNat_succ hlt, values_succ, h.order, UInt64.ofNat_toNat, List.append_assoc]
      · show (s.sent + 1).toNat ≤ _
        rw [Word.toNat_succ hlt]
        exact hlt
    · cases heq.symm.trans hstep
  | @fail call queue progress event hsending hstep hfailed =>
    -- There is a receiver as long as the stream goes on.
    obtain ⟨rfl, -⟩ := h.sending call hsending
    rcases bounded_enqueue_cases h.buffers s.sent with ⟨b', -, heq⟩ | heq
    · cases heq.symm.trans hstep
      rcases hfailed with hfailed | ⟨v, hfailed⟩ <;> cases hfailed
    · cases heq.symm.trans hstep
      rcases hfailed with hfailed | ⟨v, hfailed⟩ <;> cases hfailed
  | poll hpolling hmore =>
    exact ⟨l, { h with polling := fun call hcall => by cases hcall; exact ⟨rfl, hmore⟩ }⟩
  | @wait call next queue event hpolling hstep =>
    obtain ⟨rfl, -⟩ := h.polling call hpolling
    obtain ⟨b', -, heq⟩ := bounded_dequeue h.buffers
    cases heq.symm.trans hstep
  | @receive call queue v event hpolling hstep =>
    obtain ⟨rfl, hmore⟩ := h.polling call hpolling
    obtain ⟨b', hb', heq⟩ := bounded_dequeue h.buffers
    have hlt := Word.toNat_lt_of_ne h.count_le hmore
    cases l with
    | nil => cases heq.symm.trans hstep
    | cons w l =>
      -- The oldest integer moves from the buffer to the end of what was received.
      cases heq.symm.trans hstep
      refine ⟨l, hb', ?_, h.sent_le, h.sending, ?_, (fun _ hcall => by cases hcall), h.unfailed⟩
      · simpa using h.order
      · show (s.count + 1).toNat = (v :: s.received).length
        rw [Word.toNat_succ hlt, h.count_eq, List.length_cons]
  | @miss call queue progress event hpolling hstep hrunning hmissed =>
    obtain ⟨rfl, -⟩ := h.polling call hpolling
    obtain ⟨b', hb', heq⟩ := bounded_dequeue h.buffers
    cases l with
    | nil =>
      cases heq.symm.trans hstep
      exact ⟨[], hb', h.order, h.sent_le, h.sending, h.count_eq, (fun _ hcall => by cases hcall),
        h.unfailed⟩
    | cons w l =>
      cases heq.symm.trans hstep
      exact absurd rfl (hmissed w)

/-- The account of what the buffer holds is kept on every schedule. -/
theorem Held.follow (iters : Word) (schedule : List StreamAgent) :
    ∃ l, Held iters (follow .bounded iters (.init (.create streamCapacity)) schedule) l :=
  follow_induction (P := fun s => ∃ l, Held iters s l) (fun _ _ ⟨_, h⟩ hsteps => h.steps hsteps)
    ⟨[], .init iters⟩ schedule

/-- The account of what the buffer holds is one of what is delivered. -/
private theorem Held.delivers (h : Held iters s l) : Delivers iters s l where
  order := ⟨s.sent.toNat, h.sent_le, h.order⟩
  count_eq := h.count_eq
  done hdone := by
    cases hpolling : s.polling with
    | none => rfl
    | some call => exact absurd hdone (h.polling call hpolling).2
  unfailed := h.unfailed

end Bounded

/-! ### On a linked queue -/

section Linked

variable {α : Type u} {f : Facade Word α} {iters : Word} {s s' : Stream (Shared α) (Call α)}
  {moves : List (Move α)}

/-- How many sends have begun. -/
def begun (s : Stream (Shared α) (Call α)) : Nat :=
  if s.sending.isSome then s.sent.toNat + 1 else s.sent.toNat

/-- A stream over a linked queue is a run of two threads, the sender and the receiver. The sender
asks for its integers in their order, and the receiver is answered what it has received. -/
structure Traced (f : Facade Word α) (iters : Word) (moves : List (Move α))
    (s : Stream (Shared α) (Call α)) : Prop where
  queue : ((System.init 2).run moves).shared = s.queue
  sender : System.Ledger 2 moves 0 s.sending ((values s.begun).map f.wrap) []
  receiver : ∃ answered, System.Ledger 2 moves 1 s.polling [] answered ∧
    answered.map f.unwrap = s.received.reverse
  sent_le : s.sent.toNat ≤ iters.toNat
  sending : ∀ call, s.sending = some call → call.kind = .enqueue () ∧ s.sent ≠ iters
  count_eq : s.count.toNat = s.received.length
  polling : ∀ call, s.polling = some call → call.kind = .dequeue ∧ s.count ≠ iters
  unfailed : s.failed = false

/-- A stream begins as no moves at all. -/
private theorem Traced.init (f : Facade Word α) (iters : Word) :
    Traced f iters [] (.init .init) where
  queue := rfl
  sender := .init 2 0
  receiver := ⟨[], .init 2 1, rfl⟩
  sent_le := Nat.zero_le _
  sending _ h := nomatch h
  count_eq := rfl
  polling _ h := nomatch h
  unfailed := rfl

/-- No more sends are begun than there are integers. -/
private theorem Traced.begun_le (h : Traced f iters moves s) : s.begun ≤ iters.toNat := by
  unfold begun
  split
  · rename_i hsome
    obtain ⟨call, hcall⟩ := Option.isSome_iff_exists.1 hsome
    exact Word.toNat_lt_of_ne h.sent_le (h.sending call hcall).2
  · exact h.sent_le

/-- Of two threads, what one does not do the other does. -/
private theorem filterMap_all_two {g : Act α → Option α} {t other : Nat}
    (hother : ∀ thread < 2, thread ≠ t → thread = other)
    (hnone : (History.of other ((System.init 2).history moves)).filterMap g = []) :
    (History.all ((System.init 2).history moves)).filterMap g =
      (History.of t ((System.init 2).history moves)).filterMap g := by
  refine History.filterMap_all fun x hx hne => ?_
  have hlt : x.1 < 2 := by simpa using System.lt_of_mem_history hx
  rw [hother x.1 hlt hne, hnone]

/-- What the queue has taken in is what the sender has asked for, up to the item of a send that is
under way. -/
private theorem Traced.entered (h : Traced f iters moves s) : ∃ toEnter,
    (values s.begun).map f.wrap =
      (History.all ((System.init 2).history moves)).filterMap Act.entered? ++ toEnter := by
  obtain ⟨answered, hreceiver, -⟩ := h.receiver
  obtain ⟨st, -, hcourse⟩ := System.course_run 2 moves 0
  obtain ⟨st', -, hcourse'⟩ := System.course_run 2 moves 1
  have hasked := hcourse.asked_eq h.sender.granted
  have hasked' := hcourse'.asked_eq hreceiver.granted
  rw [h.sender.asked_eq] at hasked
  rw [hreceiver.asked_eq] at hasked'
  have hnone := (List.append_eq_nil_iff.1 hasked'.symm).1
  exact ⟨st.toEnter, by rw [hasked, filterMap_all_two (t := 0) (by omega) hnone]⟩

/-- What the queue has given out is what the receiver was answered, and the item of a poll that is
under way. -/
private theorem Traced.left (h : Traced f iters moves s) {answered : List α}
    (hreceiver : System.Ledger 2 moves 1 s.polling [] answered) : ∃ toAnswer,
    (History.all ((System.init 2).history moves)).filterMap Act.left? = answered ++ toAnswer := by
  obtain ⟨st, hst, hcourse⟩ := System.course_run 2 moves 0
  obtain ⟨st', -, hcourse'⟩ := System.course_run 2 moves 1
  have hleft := hcourse.left_eq
  have hleft' := hcourse'.left_eq
  rw [h.sender.answered_eq, List.nil_append] at hleft
  rw [hreceiver.answered_eq] at hleft'
  -- The sender is in no call or in an enqueue, so it owes nobody an item.
  have howed : st.toAnswer = [] := by
    cases hsending : s.sending with
    | none =>
      have hrunning := h.sender.running
      rw [hsending] at hrunning
      cases hst.symm.trans (System.standing?_of_not_running hrunning)
      rfl
    | some call =>
      have hrunning := h.sender.running
      rw [hsending] at hrunning
      rw [System.standing?_of_at (System.running?_eq_some_iff.1 hrunning).1] at hst
      exact Call.toAnswer_eq_nil (h.sending call hsending).1 hst
  rw [howed] at hleft
  exact ⟨st'.toAnswer, by rw [← hleft', filterMap_all_two (t := 1) (by omega) hleft]⟩

/-- What the sender has begun to send is what was received, and what is on its way. -/
theorem Traced.delivers (h : Traced f iters moves s) : ∃ before after,
    Delivers iters s (before ++ s.queue.items.map f.unwrap ++ after) := by
  obtain ⟨answered, hreceiver, hreceived⟩ := h.receiver
  obtain ⟨toEnter, hentered⟩ := h.entered
  obtain ⟨toAnswer, hleft⟩ := h.left hreceiver
  have hlegal := (System.legal_run 2 moves).entered_eq
  -- What entered is what left and what is in the queue; both ends add what is under way.
  rw [hleft, h.queue] at hlegal
  rw [hlegal] at hentered
  refine ⟨toAnswer.map f.unwrap, toEnter.map f.unwrap, ⟨s.begun, h.begun_le, ?_⟩, h.count_eq,
    fun hdone => ?_, h.unfailed⟩
  · have hitems := congrArg (List.map f.unwrap) hentered
    -- Wrapping an integer and unwrapping it again gives the integer.
    have hid : f.unwrap ∘ f.wrap = id := funext f.unwrap_wrap
    rw [List.map_map, hid, List.map_id] at hitems
    simpa [hreceived] using hitems
  · cases hpolling : s.polling with
    | none => rfl
    | some call => exact absurd hdone (h.polling call hpolling).2

section Steps

variable {call : Call α}

/-- The sender begins its next send. -/
private theorem Traced.begin (h : Traced f iters moves s) (hsending : s.sending = none)
    (hmore : s.sent ≠ iters) :
    ∃ moves', Traced f iters moves'
      { s with sending := some ((Fifo.linked f).start (.enqueue s.sent)) } := by
  obtain ⟨answered, hreceiver, hreceived⟩ := h.receiver
  have hsender := h.sender
  simp only [begun, hsending, Option.isSome_none, Bool.false_eq_true, if_false] at hsender
  have hstart := hsender.start (by decide) (.enqueue (f.wrap s.sent))
  refine ⟨moves ++ [.start 0 (.enqueue (f.wrap s.sent))], ?_, ?_,
    ⟨answered, hreceiver.other (by simp [Move.thread]), hreceived⟩, h.sent_le,
    fun call hcall => ?_, h.count_eq, h.polling, h.unfailed⟩
  · exact (hsender.start_shared (by decide) _).trans h.queue
  · -- The integer that is sent is the next one of those to be asked for.
    have hasked : (values s.sent.toNat).map f.wrap ++ [f.wrap s.sent] =
        (values (s.sent.toNat + 1)).map f.wrap := by simp [values_succ]
    simp only [Request.item?, Option.toList_some, hasked] at hstart
    exact hstart
  · cases hcall
    exact ⟨rfl, hmore⟩

/-- A step of a send: it goes on, or it has returned and is not refused. -/
private theorem Traced.sendStep (h : Traced f iters moves s) (hsending : s.sending = some call) :
    let turn := (Fifo.linked f).step s.queue call
    (∃ next, turn.progress = .running next ∧
      ∃ moves', Traced f iters moves' { s with queue := turn.state, sending := some next }) ∨
    (turn.progress = .returned .enqueued ∧ ∃ moves', Traced f iters moves'
      { s with queue := turn.state, sent := s.sent + 1, sending := none }) := by
  intro turn
  obtain ⟨answered, hreceiver, hreceived⟩ := h.receiver
  obtain ⟨hkind, hmore⟩ := h.sending call hsending
  have hsender := h.sender
  simp only [begun, hsending, Option.isSome_some, if_true] at hsender
  obtain ⟨hshared, hcases⟩ := hsender.turn f
  rw [h.queue] at hshared hcases
  have hother : System.Ledger 2 (moves ++ [.advance 0 true]) 1 s.polling [] answered :=
    hreceiver.other (by simp [Move.thread])
  -- The enqueue goes on, or it returns and its integer counts as sent.
  rcases hcases with ⟨next, hprogress, hnext, hledger⟩ |
    ⟨reply, hprogress, hreply, -, hgranted, hledger⟩
  · refine .inl ⟨next, hprogress, moves ++ [.advance 0 true], hshared, ?_,
      ⟨answered, hother, hreceived⟩, h.sent_le, fun call hcall => ?_, h.count_eq, h.polling,
      h.unfailed⟩
    · simpa [begun] using hledger
    · cases hcall
      exact ⟨hnext.trans hkind, hmore⟩
  · obtain rfl := Reply.eq_enqueued (hreply.trans hkind) hgranted
    have hlt := Word.toNat_lt_of_ne h.sent_le hmore
    have hsucc := Word.toNat_succ hlt
    refine .inr ⟨hprogress, moves ++ [.advance 0 true], hshared, ?_,
      ⟨answered, hother, hreceived⟩, ?_, (fun _ hcall => by cases hcall), h.count_eq, h.polling,
      h.unfailed⟩
    · simpa [begun, hsucc, Reply.item?] using hledger
    · show (s.sent + 1).toNat ≤ _
      rw [hsucc]
      exact hlt

/-- A poll that begins is a dequeue that the receiver begins. -/
private theorem Traced.poll (h : Traced f iters moves s) (hpolling : s.polling = none)
    (hmore : s.count ≠ iters) :
    ∃ moves', Traced f iters moves'
      { s with polling := some ((Fifo.linked f).start .dequeue) } := by
  obtain ⟨answered, hreceiver, hreceived⟩ := h.receiver
  rw [hpolling] at hreceiver
  have hstart := hreceiver.start (by decide) .dequeue
  refine ⟨moves ++ [.start 1 .dequeue], ?_, h.sender.other (by simp [Move.thread]),
    ⟨answered, hstart, hreceived⟩, h.sent_le, h.sending, h.count_eq, fun call hcall => ?_,
    h.unfailed⟩
  · exact (hreceiver.start_shared (by decide) _).trans h.queue
  · cases hcall
    exact ⟨rfl, hmore⟩

/-- The receiver has not received more than there is, so its count has room. -/
private theorem Traced.count_lt (h : Traced f iters moves s) (hmore : s.count ≠ iters) :
    s.count.toNat < iters.toNat := by
  obtain ⟨before, after, hdelivers⟩ := h.delivers
  have hle := hdelivers.inOrder.received.length_le
  rw [List.length_reverse, ← h.count_eq, length_values] at hle
  exact Word.toNat_lt_of_ne hle hmore

/-- A step of a poll: it goes on, or it has returned with an integer, or without. -/
private theorem Traced.pollStep (h : Traced f iters moves s) (hpolling : s.polling = some call) :
    let turn := (Fifo.linked f).step s.queue call
    (∃ next, turn.progress = .running next ∧
      ∃ moves', Traced f iters moves' { s with queue := turn.state, polling := some next }) ∨
    (∃ v, turn.progress = .returned (.dequeued (some v)) ∧ ∃ moves', Traced f iters moves' { s with
      queue := turn.state, received := v :: s.received, count := s.count + 1, polling := none }) ∨
    (turn.progress = .returned (.dequeued none) ∧
      ∃ moves', Traced f iters moves' { s with queue := turn.state, polling := none }) := by
  intro turn
  obtain ⟨answered, hreceiver, hreceived⟩ := h.receiver
  obtain ⟨hkind, hmore⟩ := h.polling call hpolling
  rw [hpolling] at hreceiver
  obtain ⟨hshared, hcases⟩ := hreceiver.turn f
  rw [h.queue] at hshared hcases
  have hother : System.Ledger 2 (moves ++ [.advance 1 true]) 0 s.sending
      ((values s.begun).map f.wrap) [] := h.sender.other (by simp [Move.thread])
  rcases hcases with ⟨next, hprogress, hnext, hledger⟩ |
    ⟨reply, hprogress, hreply, -, -, hledger⟩
  · refine .inl ⟨next, hprogress, moves ++ [.advance 1 true], hshared, hother,
      ⟨answered, hledger, hreceived⟩, h.sent_le, h.sending, h.count_eq, fun call hcall => ?_,
      h.unfailed⟩
    cases hcall
    exact ⟨hnext.trans hkind, hmore⟩
  · rw [Reply.eq_dequeued (hreply.trans hkind)] at hprogress
    -- A dequeue that has found nothing leaves the receiver where it was.
    cases hitem : reply.item? with
    | none =>
      rw [hitem, Option.toList_none, List.append_nil] at hledger
      rw [hitem] at hprogress
      exact .inr (.inr ⟨hprogress, moves ++ [.advance 1 true], hshared, hother,
        ⟨answered, hledger, hreceived⟩, h.sent_le, h.sending, h.count_eq,
        (fun _ hcall => by cases hcall), h.unfailed⟩)
    | some a =>
      rw [hitem, Option.toList_some] at hledger
      rw [hitem] at hprogress
      refine .inr (.inl ⟨f.unwrap a, hprogress, moves ++ [.advance 1 true], hshared, hother,
        ⟨answered ++ [a], hledger, ?_⟩, h.sent_le, h.sending, ?_, (fun _ hcall => by cases hcall),
        h.unfailed⟩)
      · rw [List.map_append, hreceived, List.reverse_cons]
        rfl
      · show (s.count + 1).toNat = (f.unwrap a :: s.received).length
        rw [Word.toNat_succ (h.count_lt hmore), h.count_eq, List.length_cons]

/-- What a step of a stream does to the queue, some moves of a run do. -/
private theorem Traced.steps (h : Traced f iters moves s) (hsteps : Steps (.linked f) iters s s') :
    ∃ moves', Traced f iters moves' s' := by
  cases hsteps with
  | rest => exact ⟨moves, h⟩
  | begin hsending hmore => exact h.begin hsending hmore
  | @send call next queue event hsending hstep =>
    have hcases := h.sendStep hsending
    rw [hstep] at hcases
    -- The cases are exclusive, so that the queue decides which of them it is.
    rcases hcases with ⟨next', hprogress, htraced⟩ | ⟨hprogress, -⟩
    · cases hprogress
      exact htraced
    · cases hprogress
  | @sent call queue reply event hsending hstep hgranted =>
    have hcases := h.sendStep hsending
    rw [hstep] at hcases
    rcases hcases with ⟨next', hprogress, -⟩ | ⟨-, htraced⟩
    · cases hprogress
    · exact htraced
  | @fail call queue progress event hsending hstep hfailed =>
    -- With memory for each node no send fails.
    have hcases := h.sendStep hsending
    rw [hstep] at hcases
    rcases hcases with ⟨next', rfl, -⟩ | ⟨rfl, -⟩ <;>
      rcases hfailed with hfailed | ⟨v, hfailed⟩ <;> cases hfailed
  | poll hpolling hmore => exact h.poll hpolling hmore
  | @wait call next queue event hpolling hstep =>
    have hcases := h.pollStep hpolling
    rw [hstep] at hcases
    rcases hcases with ⟨next', hprogress, htraced⟩ | ⟨v, hprogress, -⟩ | ⟨hprogress, -⟩
    · cases hprogress
      exact htraced
    · cases hprogress
    · cases hprogress
  | @receive call queue v event hpolling hstep =>
    have hcases := h.pollStep hpolling
    rw [hstep] at hcases
    rcases hcases with ⟨next', hprogress, -⟩ | ⟨v', hprogress, htraced⟩ | ⟨hprogress, -⟩
    · cases hprogress
    · cases hprogress
      exact htraced
    · cases hprogress
  | @miss call queue progress event hpolling hstep hrunning hmissed =>
    have hcases := h.pollStep hpolling
    rw [hstep] at hcases
    rcases hcases with ⟨next', hprogress, -⟩ | ⟨v, hprogress, -⟩ | ⟨-, htraced⟩
    · exact absurd hprogress (hrunning next')
    · exact absurd hprogress (hmissed v)
    · exact htraced

end Steps

/-- On every schedule a stream on a linked queue is a run of two threads. -/
private theorem Traced.follow (f : Facade Word α) (iters : Word) (schedule : List StreamAgent) :
    ∃ moves, Traced f iters moves (follow (.linked f) iters (.init .init) schedule) :=
  follow_induction (P := fun s => ∃ moves, Traced f iters moves s)
    (fun _ _ ⟨_, h⟩ hsteps => h.steps hsteps) ⟨[], .init f iters⟩ schedule

end Linked

/-! ### All kinds of channel -/

section Delivery

variable {f : Fifo σ κ} {iters : Word} {s : Stream σ κ}

/-- A receiver that is done receives nothing more. -/
private theorem follow_of_done (hdone : s.count = iters) (hpolling : s.polling = none)
    (more : List StreamAgent) :
    (follow f iters s more).received = s.received ∧ (follow f iters s more).count = iters := by
  -- A receiver that is done begins no poll, and only a poll receives.
  have hkeep : ∀ s₁ s₂ : Stream σ κ,
      (s₁.received = s.received ∧ s₁.count = iters ∧ s₁.polling = none) → Steps f iters s₁ s₂ →
        s₂.received = s.received ∧ s₂.count = iters ∧ s₂.polling = none := by
    rintro s₁ s₂ ⟨hreceived, hcount, hidle⟩ hsteps
    cases hsteps with
    | poll hpolling hmore => exact absurd hcount hmore
    | wait hpolling hstep => cases hidle.symm.trans hpolling
    | receive hpolling hstep => cases hidle.symm.trans hpolling
    | miss hpolling hstep hrunning hmissed => cases hidle.symm.trans hpolling
    | _ => exact ⟨hreceived, hcount, hidle⟩
  obtain ⟨hreceived, hcount, -⟩ := follow_induction
    (P := fun s' => s'.received = s.received ∧ s'.count = iters ∧ s'.polling = none) hkeep
    ⟨rfl, hdone, hpolling⟩ more
  exact ⟨hreceived, hcount⟩

/-- A stream over a channel of this kind, on every schedule: it is in order at every moment, and as
soon as the receiver is done it stays so and the channel stays empty. -/
structure Delivery (f : Fifo σ κ) (iters : Word) (start : σ) (Empty : σ → Prop) : Prop where
  inOrder : ∀ schedule, InOrder iters (follow f iters (.init start) schedule)
  drained : ∀ schedule, (follow f iters (.init start) schedule).count = iters → ∀ more,
    let later := follow f iters (.init start) (schedule ++ more)
    later.received = (follow f iters (.init start) schedule).received ∧
      later.count = iters ∧ Empty later.queue

/-- A stream delivers if at every moment what is to come is nothing only where the channel is
empty. -/
private theorem Delivery.of_delivers {start : σ} {Empty : σ → Prop}
    (h : ∀ schedule, ∃ rest, Delivers iters (follow f iters (.init start) schedule) rest ∧
      (rest = [] → Empty (follow f iters (.init start) schedule).queue)) :
    Delivery f iters start Empty where
  inOrder schedule := by
    obtain ⟨rest, hdelivers, -⟩ := h schedule
    exact hdelivers.inOrder
  drained schedule hdone more := by
    obtain ⟨rest, hdelivers, -⟩ := h schedule
    obtain ⟨hreceived, hcount⟩ := follow_of_done (f := f) hdone (hdelivers.done hdone) more
    obtain ⟨rest', hdelivers', hempty⟩ := h (schedule ++ more)
    rw [follow_append] at hdelivers' hempty
    rw [follow_append]
    exact ⟨hreceived, hcount, hempty (hdelivers'.rest_eq_nil hcount)⟩

end Delivery

/-- On a linked queue a stream delivers. -/
private theorem delivery_linked {α : Type u} (f : Facade Word α) (iters : Word) :
    Delivery (.linked f) iters .init fun q => q.items = [] ∧ q.nodeCount? = some 0 := by
  refine .of_delivers fun schedule => ?_
  obtain ⟨moves, h⟩ := Traced.follow f iters schedule
  obtain ⟨before, after, hdelivers⟩ := h.delivers
  refine ⟨_, hdelivers, fun hrest => ?_⟩
  -- Nothing is left to come, so nothing is left in the queue.
  have hitems : (follow (.linked f) iters (.init .init) schedule).queue.items = [] := by
    simpa using (List.append_eq_nil_iff.1 (List.append_eq_nil_iff.1 hrest).1).2
  have hnodes := ((System.Reachable.init 2).run moves).inv.coherent.nodeCount?_eq
  rw [h.queue, hitems] at hnodes
  exact ⟨hitems, hnodes⟩

/-- On a bounded buffer a stream delivers. -/
private theorem delivery_bounded (iters : Word) :
    Delivery .bounded iters (.create streamCapacity) fun b => b.toList = [] := by
  refine .of_delivers fun schedule => ?_
  obtain ⟨l, h⟩ := Held.follow iters schedule
  exact ⟨l, h.delivers, fun hrest => h.buffers.toList_eq.trans hrest⟩

end Stream

/-- A stream delivers everything in order, on every kind of channel, for any number of integers and
on every schedule: at every moment the integers received are the first of `0`, `1`, … in their
order, and the receiver is done exactly when they are all of them; from then on the channel stays
empty. No send fails. -/
theorem stream_delivers (iters : Word) :
    (∀ {α : Type u} (f : Facade Word α), Stream.Delivery (.linked f) iters .init
      fun q => q.items = [] ∧ q.nodeCount? = some 0) ∧
    Stream.Delivery .bounded iters (.create streamCapacity) fun b => b.toList = [] :=
  ⟨fun f => Stream.delivery_linked f iters, Stream.delivery_bounded iters⟩

/-- Two integers, over a queue of addresses and over a bounded buffer: the receiver polls first, and
then the threads take turns, until it is done. -/
theorem stream_delivers_two :
    let schedule : List StreamAgent := .receiver :: .receiver ::
      (List.replicate 40 [.sender, .receiver]).flatten
    (Stream.follow (.linked (.addresses Word)) 2 (.init .init) schedule).received.reverse = [0, 1] ∧
      (Stream.follow .bounded 2 (.init (.create streamCapacity)) schedule).received.reverse =
        [0, 1] := by
  intro schedule
  obtain ⟨hlinked, hbounded⟩ := stream_delivers.{0} 2
  -- The receiver counts to two on this schedule, and the rest follows from that.
  have hdone : (Stream.follow (.linked (.addresses Word)) 2 (.init .init) schedule).count = 2 := by
    decide +kernel
  have hdone' :
      (Stream.follow .bounded 2 (.init (.create streamCapacity)) schedule).count = 2 := by
    decide +kernel
  exact ⟨((hlinked (.addresses Word)).inOrder schedule).done_iff.1 hdone,
    (hbounded.inOrder schedule).done_iff.1 hdone'⟩

end AtomicFifo

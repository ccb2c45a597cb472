import AtomicFifo.Proofs.System.Account

/-!
# The ledger of a thread

What a thread makes of a run, as its caller sees it: the call that it is in, the items that it
has asked to enqueue, and the items that it has been answered. Each move of its own adds to the
ledger in the obvious way, and no other move touches it. At the end, when no call is in
progress, the ledgers of all threads tell together what has entered the queue and what has left
it.

* `Ledger.start`, `Ledger.advance`   moves of the thread itself
* `Ledger.other`                     moves of other threads
* `Ledger.at_rest`                   what has entered and left, of a thread that is in no call
* `asked_perm`                       nothing is lost, doubled or invented
* `answered_sublist`                 items of one thread are answered in their order
-/

namespace AtomicFifo

universe u

variable {α : Type u}

/-- The item that a request asks to enqueue. -/
def Request.item? : Request α → Option α
  | .enqueue a => some a
  | _ => none

namespace Call

variable {s : Shared α} {c : Call α} {grant : Grant}

/-- The call, unless it has returned. -/
def unfinished? (c : Call α) : Option (Call α) :=
  match c.reply? with
  | none => some c
  | some _ => none

/-- A step is a return where it leads to the end of the call, and only there. -/
theorem act?_returned_iff {reply : Reply α} :
    c.act? grant s = some (.returned reply) ↔ (c.step grant s).2.reply? = some reply := by
  cases c with
  | link node tail =>
    simp only [act?, step]
    rcases h : s.exchangeLink tail node with ⟨s', linked⟩
    cases linked <;> cases s.item node <;> simp [reply?]
  | unlink head next =>
    simp only [act?, step]
    rcases h : s.exchangeHead head next with ⟨s', moved⟩
    cases moved <;> cases s.item next <;> simp [reply?]
  | _ => simp [act?]

/-- The other acts are those of the two exchanges that change the items. -/
theorem act?_cases {act : Act α} (h : c.act? grant s = some act) :
    (∃ reply, act = .returned reply) ∨
      (∃ node tail a, c = .link node tail ∧ act = .entered a) ∨
      ∃ head next a, c = .unlink head next ∧ act = .left a := by
  -- Only two points of a call make an act without returning.
  cases c with
  | link node tail =>
    simp only [act?] at h
    split at h
    · obtain ⟨a, -, rfl⟩ := Option.map_eq_some_iff.1 h
      exact .inr (.inl ⟨node, tail, a, rfl, rfl⟩)
    · cases h
  | unlink head next =>
    simp only [act?] at h
    split at h
    · obtain ⟨a, -, rfl⟩ := Option.map_eq_some_iff.1 h
      exact .inr (.inr ⟨head, next, a, rfl, rfl⟩)
    · cases h
  | _ =>
    simp only [act?, Option.map_eq_some_iff] at h
    obtain ⟨reply, -, rfl⟩ := h
    exact .inl ⟨reply, rfl⟩

/-- A step answers an item where it returns a reply that has one. -/
private theorem act?_answered :
    (c.act? grant s).bind Act.answered? = (c.step grant s).2.reply?.bind Reply.item? := by
  cases hreply : (c.step grant s).2.reply? with
  | some reply => rw [act?_returned_iff.2 hreply]; rfl
  | none =>
    cases hact : c.act? grant s with
    | none => rfl
    | some act =>
      rcases act?_cases hact with ⟨reply, rfl⟩ | ⟨_, _, a, -, rfl⟩ | ⟨_, _, a, -, rfl⟩
      · rw [act?_returned_iff.1 hact] at hreply
        cases hreply
      · rfl
      · rfl

/-- No step asks for anything. -/
private theorem act?_asked : (c.act? grant s).bind Act.asked? = none := by
  cases hact : c.act? grant s with
  | none => rfl
  | some act =>
    rcases act?_cases hact with ⟨reply, rfl⟩ | ⟨_, _, a, -, rfl⟩ | ⟨_, _, a, -, rfl⟩ <;> rfl

/-- With memory no step is refused. -/
theorem step_not_refused (hc : c.reply? = none) (a : α) :
    (c.step .fresh s).2.reply? ≠ some (.refused a) := by
  cases c with
  | link node tail =>
    simp only [step]
    split <;> simp [reply?]
  | unlink head next =>
    simp only [step]
    split <;> simp [reply?]
  | readTailLink node tail =>
    simp only [step]
    split <;> simp [reply?]
  | readHeadLink head tail =>
    simp only [step]
    split
    · simp [reply?]
    · split <;> simp [reply?]
  | done reply => cases hc
  -- With memory the allocation succeeds, and nothing else is ever refused.
  | _ => simp [step, Shared.place, reply?]

end Call

namespace System

variable {s : System α} {thread : Nat}

/-- After a step a thread is in its call, unless the step has finished it. -/
private theorem running?_set {shared : Shared α} {call : Call α} (hlt : thread < s.calls.length) :
    running? ⟨shared, s.calls.set thread (some call)⟩ thread = call.unfinished? := by
  unfold running? Call.unfinished?
  rw [List.getElem?_set_self hlt]
  cases call <;> rfl

/-- A call that has just begun is unfinished. -/
private theorem request_unfinished (request : Request α) :
    request.start.unfinished? = some request.start := by
  cases request <;> rfl

/-- A thread in a call is one of the threads. -/
theorem running?_lt {call : Call α} (h : s.running? thread = some call) :
    thread < s.calls.length := by
  obtain ⟨hlt, -⟩ := List.getElem?_eq_some_iff.1 (running?_eq_some_iff.1 h).1
  exact hlt

/-- No move changes the number of threads. -/
@[simp] theorem length_step (s : System α) (move : Move α) :
    (s.step move).calls.length = s.calls.length := by
  cases move with
  | start thread request =>
    by_cases h : s.idle thread = true
    · simp [step_start h]
    · simp [step_start_of_busy h]
  | advance thread memory =>
    cases h : s.running? thread with
    | none => simp [step_advance_of_idle h]
    | some call => simp [step_advance h]

/-- No run changes the number of threads. -/
@[simp] theorem length_run (s : System α) (moves : List (Move α)) :
    (s.run moves).calls.length = s.calls.length := by
  induction moves generalizing s with
  | nil => rfl
  | cons move moves ih => simp [ih]

/-- There are as many threads as asked for. -/
@[simp] theorem length_init (threads : Nat) : (init threads : System α).calls.length = threads := by
  simp [init]

/-- Only threads of the system do anything. -/
theorem lt_of_act? {move : Move α} {x : Nat × Act α} (h : s.act? move = some x) :
    x.1 < s.calls.length := by
  -- Both kinds of move name a thread that there is, or do nothing.
  cases move with
  | start thread request =>
    simp only [act?] at h
    split at h
    · rename_i hidle
      cases h
      exact (standing?_of_idle hidle).1
    · cases h
  | advance thread memory =>
    simp only [act?] at h
    cases hrun : s.running? thread with
    | none => simp [hrun] at h
    | some call =>
      simp only [hrun, Option.bind_some, Option.map_eq_some_iff] at h
      obtain ⟨a, -, rfl⟩ := h
      exact running?_lt hrun

/-- Every act is one of the threads. -/
theorem lt_of_mem_history {moves : List (Move α)} {x : Nat × Act α}
    (h : x ∈ s.history moves) : x.1 < s.calls.length := by
  induction moves generalizing s with
  | nil => cases h
  | cons move moves ih =>
    simp only [history, List.mem_append, Option.mem_toList] at h
    rcases h with h | h
    · exact lt_of_act? h
    · simpa using ih h

/-- What a run tells of one of its threads, which was never without memory. -/
structure Ledger (threads : Nat) (moves : List (Move α)) (thread : Nat) (call? : Option (Call α))
    (asked answered : List α) : Prop where
  running : ((init threads).run moves).running? thread = call?
  asked_eq : (History.of thread ((init threads).history moves)).filterMap Act.asked? = asked
  answered_eq :
    (History.of thread ((init threads).history moves)).filterMap Act.answered? = answered
  granted : ∀ a, .returned (.refused a) ∉ History.of thread ((init threads).history moves)

variable {threads : Nat} {moves : List (Move α)} {call? : Option (Call α)}
  {asked answered : List α}

/-- At the start the ledger of a thread is empty. -/
theorem Ledger.init (threads thread : Nat) : Ledger (α := α) threads [] thread none [] [] :=
  ⟨running?_init threads thread, rfl, rfl, fun _ h => nomatch h⟩

/-- A thread of the system that is in no call can begin one. -/
theorem Ledger.idle (h : Ledger threads moves thread none asked answered)
    (hlt : thread < threads) : ((System.init threads).run moves).idle thread = true := by
  simp [System.idle, hlt, h.running]

/-- A thread in no call may begin one. -/
private theorem Ledger.act?_start (h : Ledger threads moves thread none asked answered)
    (hlt : thread < threads) (request : Request α) :
    ((System.init threads).run moves).act? (.start thread request) =
      some (thread, .called request) := by
  simp [act?, h.idle hlt]

/-- A thread in a call does what the next step of the call does. -/
theorem Ledger.act?_advance {call : Call α}
    (h : Ledger threads moves thread (some call) asked answered) :
    ((System.init threads).run moves).act? (.advance thread true) =
      (call.act? .fresh ((System.init threads).run moves).shared).map (thread, ·) := by
  simp [act?, h.running, Grant.ofMemory]

/-- A thread that is in no call begins one. -/
theorem Ledger.start (h : Ledger threads moves thread none asked answered)
    (hlt : thread < threads) (request : Request α) :
    Ledger threads (moves ++ [.start thread request]) thread (some request.start)
      (asked ++ request.item?.toList) answered := by
  have hlen : thread < ((System.init threads).run moves).calls.length := by simpa
  have hact := h.act?_start hlt request
  exact {
    running := by
      rw [run_append, run_cons, run_nil, step_start (h.idle hlt), running?_set hlen,
        request_unfinished]
    asked_eq := by
      rw [history_concat, hact, History.of_append, List.filterMap_append, h.asked_eq]
      cases request <;> simp [History.of, List.filterMap_cons, Act.asked?, Request.item?]
    answered_eq := by
      rw [history_concat, hact, History.of_append, List.filterMap_append, h.answered_eq]
      simp [History.of, List.filterMap_cons, Act.answered?]
    granted := fun a ha => by
      rw [history_concat, hact, History.of_append, List.mem_append] at ha
      exact h.granted a (ha.resolve_right (by simp [History.of])) }

/-- A call that begins does nothing to the queue. -/
theorem Ledger.start_shared (h : Ledger threads moves thread none asked answered)
    (hlt : thread < threads) (request : Request α) :
    ((System.init threads).run (moves ++ [.start thread request])).shared =
      ((System.init threads).run moves).shared := by
  rw [run_append, run_cons, run_nil, step_start (h.idle hlt)]

/-- A thread takes a step of its call. -/
theorem Ledger.advance {call : Call α}
    (h : Ledger threads moves thread (some call) asked answered) :
    Ledger threads (moves ++ [.advance thread true]) thread
      (call.step .fresh ((System.init threads).run moves).shared).2.unfinished? asked
      (answered ++ ((call.step .fresh ((System.init threads).run moves).shared).2.reply?.bind
        Reply.item?).toList) := by
  have hlen := running?_lt h.running
  have hact := h.act?_advance
  exact {
    running := by
      rw [run_append, run_cons, run_nil, step_advance h.running, running?_set hlen]
      rfl
    asked_eq := by
      rw [history_concat, hact, History.of_append, List.filterMap_append, h.asked_eq,
        History.filterMap_of_self, Call.act?_asked]
      simp
    answered_eq := by
      rw [history_concat, hact, History.of_append, List.filterMap_append, h.answered_eq,
        History.filterMap_of_self, Call.act?_answered]
    granted := fun a ha => by
      rw [history_concat, hact, History.of_append, List.mem_append] at ha
      refine h.granted a (ha.resolve_right fun ha => ?_)
      -- The refusal would be what this very step returns, and the step has memory.
      cases hact : call.act? .fresh ((System.init threads).run moves).shared with
      | none => simp [hact, History.of] at ha
      | some act =>
        simp only [hact, History.of, Option.map_some, Option.toList_some, List.filterMap_cons,
          if_true, List.filterMap_nil, List.mem_singleton] at ha
        rw [← ha, Call.act?_returned_iff] at hact
        exact Call.step_not_refused (running?_eq_some_iff.1 h.running).2 a hact }

/-- A step does to the queue what the step of the call does. -/
theorem Ledger.advance_shared {call : Call α}
    (h : Ledger threads moves thread (some call) asked answered) :
    ((System.init threads).run (moves ++ [.advance thread true])).shared =
      (call.step .fresh ((System.init threads).run moves).shared).1 := by
  rw [run_append, run_cons, run_nil, step_advance h.running]
  rfl

/-- A move of another thread. -/
theorem Ledger.other {move : Move α} (h : Ledger threads moves thread call? asked answered)
    (hne : thread ≠ move.thread) :
    Ledger threads (moves ++ [move]) thread call? asked answered := by
  have hof := History.of_act?_ne (s := (System.init threads).run moves) hne
  exact {
    running := by rw [run_append, run_cons, run_nil, running?_step_ne hne, h.running]
    asked_eq := by rw [history_concat, History.of_append, hof, List.append_nil, h.asked_eq]
    answered_eq := by
      rw [history_concat, History.of_append, hof, List.append_nil, h.answered_eq]
    granted := by
      rw [history_concat, History.of_append, hof, List.append_nil]
      exact h.granted }

/-- The moves of other threads leave the ledger of a thread as it is. -/
theorem Ledger.others {more : List (Move α)}
    (h : Ledger threads moves thread call? asked answered)
    (hne : ∀ move ∈ more, move.thread ≠ thread) :
    Ledger threads (moves ++ more) thread call? asked answered := by
  -- By induction on the moves, none of which is one of the thread.
  induction more generalizing moves with
  | nil => simpa using h
  | cons move more ih =>
    have hmove := h.other (Ne.symm (hne move (List.mem_cons_self ..)))
    simpa using ih hmove fun m hm => hne m (List.mem_cons_of_mem _ hm)

/-- Of a thread that is in no call, what it has asked for has entered, and what has left has
been answered. -/
theorem Ledger.at_rest (h : Ledger threads moves thread none asked answered)
    (hlt : thread < threads) :
    (History.of thread ((System.init threads).history moves)).filterMap Act.entered? = asked ∧
      (History.of thread ((System.init threads).history moves)).filterMap Act.left? =
        answered := by
  obtain ⟨st, hst, hcourse⟩ := course_run threads moves thread
  -- A thread that is in no call stands where nothing is owed, so its course is settled.
  cases hst.symm.trans (standing?_of_idle (h.idle hlt)).2
  have hasked := hcourse.asked_eq h.granted
  have hleft := hcourse.left_eq
  rw [h.asked_eq] at hasked
  rw [h.answered_eq] at hleft
  exact ⟨by simpa [Standing.toEnter] using hasked.symm,
    by simpa [Standing.toAnswer] using hleft⟩

/-! ### All ledgers together -/

section Together

variable {asked answered : Nat → List α}

/-- When no thread is in a call, what all of them have asked for is what they have been answered
and what is still in the queue. -/
theorem asked_perm (h : ∀ t < threads, Ledger threads moves t none (asked t) (answered t)) :
    ((List.range threads).flatMap asked).Perm ((List.range threads).flatMap answered ++
      ((init threads).run moves).shared.items) := by
  have hlt : ∀ x ∈ (init threads).history moves, x.1 < threads := by
    intro x hx
    simpa using lt_of_mem_history hx
  -- At rest every item that was asked for has entered, and every item answered has left.
  have hasked : (List.range threads).flatMap asked = (List.range threads).flatMap fun t =>
      (History.of t ((init threads).history moves)).filterMap Act.entered? :=
    List.flatMap_congr fun t ht =>
      ((h t (List.mem_range.1 ht)).at_rest (List.mem_range.1 ht)).1.symm
  have hanswered : (List.range threads).flatMap answered = (List.range threads).flatMap fun t =>
      (History.of t ((init threads).history moves)).filterMap Act.left? :=
    List.flatMap_congr fun t ht =>
      ((h t (List.mem_range.1 ht)).at_rest (List.mem_range.1 ht)).2.symm
  rw [hasked, hanswered]
  exact (legal_run threads moves).entered_perm hlt

/-- Where an item tells which thread has asked for it, what a thread has been answered of
another thread's items comes in the order in which that one asked for them. -/
theorem answered_sublist (h : ∀ t < threads, Ledger threads moves t none (asked t) (answered t))
    {origin : α → Nat} (horigin : ∀ t < threads, ∀ a ∈ asked t, origin a = t) {taker giver : Nat}
    (htaker : taker < threads) (hgiver : giver < threads) :
    ((answered taker).filter (origin · = giver)).Sublist (asked giver) := by
  have hfilter : ((History.all ((init threads).history moves)).filterMap Act.entered?).filter
        (origin · = giver) =
      (History.of giver ((init threads).history moves)).filterMap Act.entered? :=
    History.filter_of (fun x hx b hb => by
      have hlt : x.1 < threads := by simpa using lt_of_mem_history hx
      apply horigin x.1 hlt b
      rw [← ((h x.1 hlt).at_rest hlt).1]
      exact List.mem_filterMap.2 ⟨x.2, History.mem_of hx, hb⟩) giver
  rw [((h giver hgiver).at_rest hgiver).1] at hfilter
  -- The items leave in the order in which they entered, and a thread gets some of them.
  rw [← hfilter, (legal_run threads moves).entered_eq, ← ((h taker htaker).at_rest htaker).2]
  apply List.Sublist.filter
  exact ((History.of_sublist taker _).filterMap _).trans (List.sublist_append_left _ _)

end Together

end System

end AtomicFifo

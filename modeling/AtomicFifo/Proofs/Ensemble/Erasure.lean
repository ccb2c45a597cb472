import AtomicFifo.Ensemble
import AtomicFifo.Proofs.Session.Erasure

/-!
# Enqueues that leave no trace

An enqueue that finds no memory has done nothing yet: it is not counted, it is not pinned, and no
link leads to a node of its own. So it can be erased from a run, together with any number of
others, and nothing that the other calls do or see is different.

To erase a call is to leave out the move that begins it and the step in which it is refused.
The run without them is compared with the whole run move by move.

* `sift`            which moves stay, given which refused enqueues are chosen to be erased
* `Alike`           what the two runs have in common after the same number of moves
* `Alike.sorted`, `Alike.matched`   one move
* `erasure_run`     every run, and every choice of refused enqueues
-/

namespace AtomicFifo.Ensemble

universe u v w

variable {κ : Type u} {ι : κ → Type v} {α : κ → Type w}

/-! ### Leaving out calls -/

/-- The enqueues that are being erased: for each thread that is in one, its queue and its item. -/
abbrev Struck (ι : κ → Type v) := Nat → Option (Σ queue, ι queue)

/-- Whether the next step of a thread finds no memory. -/
def refusedNext (thread : Nat) : List (Move κ ι × Bool) → Bool
  | [] => false
  | (.start _ _ _, _) :: moves => refusedNext thread moves
  | (.advance t grant, _) :: moves =>
    if t = thread then grant = .refused else refusedNext thread moves

/-- Whether a move stays, and which enqueues are being erased after it. Each move comes with a
mark: whether the call that it begins is to be erased, should it be an enqueue that is refused. A
move goes if it belongs to a call that is being erased, or if its thread cannot make it. -/
def sort (s : Ensemble κ α) (struck : Struck ι) (later : List (Move κ ι × Bool)) :
    Move κ ι × Bool → Bool × Struck ι
  | (.start thread queue request, chosen) =>
    if s.idle thread then
      match request, chosen && refusedNext thread later with
      | .enqueue item, true => (false, Function.update struck thread (some ⟨queue, item⟩))
      | _, _ => (true, struck)
    else (false, struck)
  | (.advance thread _, _) =>
    if (s.running? thread).isSome && (struck thread).isNone then (true, struck)
    else (false, Function.update struck thread none)

section

variable [DecidableEq κ] (f : (queue : κ) → Facade (ι queue) (α queue)) (size : κ → Word)

/-- All moves of a run, each with whether it stays. -/
def sift : Ensemble κ α → Struck ι → List (Move κ ι × Bool) → List (Move κ ι × Bool)
  | _, _, [] => []
  | s, struck, marked :: later =>
    let (stays, struck') := s.sort struck later marked
    (marked.1, stays) :: sift (s.step f marked.1) struck' later

/-- What shows of a run, each sign with whether its move stays. -/
def showing : Ensemble κ α → List (Move κ ι × Bool) → List (Sign κ ι × Bool)
  | _, [] => []
  | s, (move, stays) :: sifted =>
    (s.signs f size move).map (·, stays) ++ showing (s.step f move) sifted

end

/-- What stays. -/
def staying {β : Type*} (l : List (β × Bool)) : List β := (l.filter fun x => x.2).map Prod.fst

/-- What goes. -/
def going {β : Type*} (l : List (β × Bool)) : List β := (l.filter fun x => !x.2).map Prod.fst

/-- All that shows of an enqueue that is refused. -/
def refusal (size : κ → Word) (thread : Nat) (item : Σ queue, ι queue) : List (Sign κ ι) :=
  [.asked thread item.1 (.enqueue item.2),
    .reported thread item.1 (.allocationFailed (size item.1)),
    .answered thread item.1 (.refused item.2)]

/-! ### Calls of a thread -/

variable {s t : Ensemble κ α} {thread other : Nat}

/-- A thread with a call in progress is one of the threads. -/
private theorem lt_of_running? {call : Σ queue, Call (α queue)}
    (h : s.running? thread = some call) : thread < s.calls.length := by
  by_contra hlt
  rw [running?, List.getElem?_eq_none (Nat.le_of_not_lt hlt)] at h
  cases h

/-- A call in progress has no reply. -/
private theorem reply?_of_running? {call : Σ queue, Call (α queue)}
    (h : s.running? thread = some call) : call.2.reply? = none := by
  simp only [running?, Option.filter_eq_some_iff] at h
  exact Option.isNone_iff_eq_none.1 h.2

/-- A thread is idle if it exists and has no call in progress. -/
private theorem idle_iff :
    s.idle thread = true ↔ thread < s.calls.length ∧ s.running? thread = none := by
  simp [idle]

/-- The thread that has taken a step is in the call that it has come to, unless this has
returned. -/
private theorem running?_set_self (h : thread < s.calls.length)
    (queues : (queue : κ) → Shared (α queue)) (call : Σ queue, Call (α queue)) :
    running? ⟨queues, s.calls.set thread (some call)⟩ thread =
      (some call).filter fun call => call.2.reply?.isNone := by
  simp [running?, h]

/-- The other threads are where they were. -/
private theorem running?_set_ne (h : other ≠ thread) (queues : (queue : κ) → Shared (α queue))
    (call : Option (Σ queue, Call (α queue))) :
    running? ⟨queues, s.calls.set thread call⟩ other = s.running? other := by
  simp [running?, Ne.symm h]

/-! ### The two runs -/

/-- Where a thread is in the whole run, and where it is in the run without the erased calls. -/
inductive Agree (f : (queue : κ) → Facade (ι queue) (α queue)) :
    Option (Σ queue, ι queue) → Bool → Option (Σ queue, Call (α queue)) →
      Option (Σ queue, Call (α queue)) → Prop
  /-- At the same point. -/
  | same {refused : Bool} {call : Option (Σ queue, Call (α queue))} : Agree f none refused call call
  /-- The erased call has its item and nothing else, and will be refused. -/
  | erased {refused : Bool} {queue : κ} {item : ι queue} : refused = true →
      Agree f (some ⟨queue, item⟩) refused (some ⟨queue, .allocate ((f queue).wrap item)⟩) none

/-- Calls that agree are equal, or one of them is an erased enqueue that has not begun. -/
private theorem Agree.eq_or {f : (queue : κ) → Facade (ι queue) (α queue)}
    {item : Option (Σ queue, ι queue)} {refused : Bool}
    {call call' : Option (Σ queue, Call (α queue))}
    (h : Agree f item refused call call') :
    call' = call ∨ call' = none ∧
      ∃ queue item, call = some ⟨queue, .allocate ((f queue).wrap item)⟩ := by
  cases h with
  | same => exact .inl rfl
  | erased _ => exact .inr ⟨rfl, _, _, rfl⟩

/-- What the whole run `s` and the run `t` without the erased calls have in common. -/
structure Alike (f : (queue : κ) → Facade (ι queue) (α queue)) (struck : Struck ι)
    (later : List (Move κ ι × Bool)) (s t : Ensemble κ α) : Prop where
  queues : t.queues = s.queues
  length : t.calls.length = s.calls.length
  agree : ∀ thread,
    Agree f (struck thread) (refusedNext thread later) (s.running? thread) (t.running? thread)

variable {f : (queue : κ) → Facade (ι queue) (α queue)} {struck struck' : Struck ι}
  {marks later : List (Move κ ι × Bool)} {marked : Move κ ι × Bool}

/-- At the start, with nothing struck out, the two ensembles are the same. -/
theorem Alike.refl : Alike f (fun _ => none) later s s := ⟨rfl, rfl, fun _ => .same⟩

/-- A thread that is in no call of the whole run is in none of the other. -/
theorem Alike.idle (h : Alike f struck later s t) (hidle : s.idle thread = true) :
    t.idle thread = true ∧ struck thread = none := by
  obtain ⟨hlt, hnone⟩ := idle_iff.1 hidle
  have hagree := h.agree thread
  rw [hnone] at hagree
  generalize hstruck : struck thread = item at hagree
  generalize ht : t.running? thread = call at hagree
  cases hagree with
  | same => exact ⟨idle_iff.2 ⟨h.length ▸ hlt, ht⟩, rfl⟩

/-- What does not concern a thread leaves it where it was. -/
private theorem Alike.frame {s' t' : Ensemble κ α} (thread : Nat)
    (h : Alike f struck (marked :: later) s t) (hqueues : t'.queues = s'.queues)
    (hlength : t'.calls.length = s'.calls.length)
    (hself : Agree f (struck' thread) (refusedNext thread later) (s'.running? thread)
      (t'.running? thread))
    (hothers : ∀ other ≠ thread, struck' other = struck other ∧
      refusedNext other (marked :: later) = refusedNext other later ∧
      s'.running? other = s.running? other ∧ t'.running? other = t.running? other) :
    Alike f struck' later s' t' where
  queues := hqueues
  length := hlength
  agree other := by
    -- Only one thread moves; for the others nothing has changed on either side.
    by_cases heq : other = thread
    · exact heq ▸ hself
    · obtain ⟨hstruck, hlater, hs, ht⟩ := hothers other heq
      rw [hstruck, ← hlater, hs, ht]
      exact h.agree other

/-- Both runs take the thread to the same point. -/
private theorem Alike.both (h : Alike f struck (marked :: later) s t)
    (hstruck : struck thread = none) (hlt : thread < s.calls.length)
    (hlater : ∀ other ≠ thread, refusedNext other (marked :: later) = refusedNext other later)
    (queues : (queue : κ) → Shared (α queue)) (call : Σ queue, Call (α queue)) :
    Alike f struck later ⟨queues, s.calls.set thread (some call)⟩
      ⟨queues, t.calls.set thread (some call)⟩ := by
  refine h.frame thread rfl ?_ ?_ ?_
  · simp [h.length]
  · rw [hstruck, running?_set_self hlt, running?_set_self (h.length ▸ hlt)]
    exact .same
  · intro other hne
    exact ⟨rfl, hlater other hne, running?_set_ne hne _ _, running?_set_ne hne _ _⟩

/-! ### How a move is sorted -/

/-- What a thread is doing in the two runs, and how its move is sorted. -/
inductive Sorted (f : (queue : κ) → Facade (ι queue) (α queue)) (struck : Struck ι)
    (later : List (Move κ ι × Bool)) (s t : Ensemble κ α) :
    Move κ ι × Bool → Bool × Struck ι → Prop
  /-- It cannot begin a call. -/
  | busy {thread : Nat} {queue : κ} {request : Request (ι queue)} {chosen : Bool} :
      s.idle thread = false →
      Sorted f struck later s t (.start thread queue request, chosen) (false, struck)
  /-- It begins an enqueue that is to be erased. -/
  | begins {thread : Nat} {queue : κ} {item : ι queue} :
      s.idle thread = true → refusedNext thread later = true →
      Sorted f struck later s t (.start thread queue (.enqueue item), true)
        (false, Function.update struck thread (some ⟨queue, item⟩))
  /-- It begins any other call. -/
  | starts {thread : Nat} {queue : κ} {request : Request (ι queue)} {chosen : Bool} :
      s.idle thread = true →
      (chosen = true → ∀ item, request = .enqueue item → refusedNext thread later = false) →
      Sorted f struck later s t (.start thread queue request, chosen) (true, struck)
  /-- It is in no call. -/
  | absent {thread : Nat} {grant : Grant} {chosen : Bool} :
      s.running? thread = none → t.running? thread = none → struck thread = none →
      Sorted f struck later s t (.advance thread grant, chosen) (false, struck)
  /-- Its call is being erased, and is refused. -/
  | refuses {thread : Nat} {chosen : Bool} {queue : κ} {item : ι queue} :
      s.running? thread = some ⟨queue, .allocate ((f queue).wrap item)⟩ →
      t.running? thread = none → struck thread = some ⟨queue, item⟩ →
      Sorted f struck later s t (.advance thread .refused, chosen)
        (false, Function.update struck thread none)
  /-- It takes a step of any other call. -/
  | advances {thread : Nat} {grant : Grant} {chosen : Bool} {call : Σ queue, Call (α queue)} :
      s.running? thread = some call → t.running? thread = some call → struck thread = none →
      Sorted f struck later s t (.advance thread grant, chosen) (true, struck)

/-- Each move is of one of the sorts that there are. -/
theorem Alike.sorted {move : Move κ ι} {chosen : Bool}
    (h : Alike f struck ((move, chosen) :: later) s t) :
    Sorted f struck later s t (move, chosen) (s.sort struck later (move, chosen)) := by
  cases move with
  | start thread queue request =>
    cases hidle : s.idle thread with
    | false =>
      simp only [sort, hidle]
      exact .busy hidle
    | true =>
      cases request with
      | enqueue item =>
        cases hstrike : chosen && refusedNext thread later with
        | true =>
          obtain ⟨rfl, hrefused⟩ := Bool.and_eq_true_iff.1 hstrike
          simp only [sort, hidle, hstrike]
          exact .begins hidle hrefused
        | false =>
          simp only [sort, hidle, hstrike]
          refine .starts hidle fun hchosen _ _ => ?_
          rwa [hchosen, Bool.true_and] at hstrike
      | dequeue | isEmpty =>
        simp only [sort, hidle]
        exact .starts hidle fun _ _ h => nomatch h
  | advance thread grant =>
    have hagree := h.agree thread
    generalize hstruck : struck thread = item at hagree
    generalize hs : s.running? thread = call at hagree
    generalize ht : t.running? thread = call' at hagree
    -- Where the calls agree, both sides have the same one, or the other side has none any more.
    cases hagree with
    | same =>
      cases call with
      | some call =>
        simp only [sort, hs, hstruck]
        exact .advances hs ht hstruck
      | none =>
        have hsame : Function.update struck thread none = struck := by
          rw [← hstruck, Function.update_eq_self]
        simp only [sort, hs, hsame]
        exact .absent hs ht hstruck
    | erased hrefused =>
      -- The thread has been marked as refused at its next step, and this is it.
      obtain rfl : grant = .refused := by simpa [refusedNext] using hrefused
      simp only [sort, hs, hstruck]
      exact .refuses hs ht hstruck

/-! ### One move -/

/-- What has still to show of the enqueue of a thread that is being erased. -/
def owed (size : κ → Word) (struck : Struck ι) (thread : Nat) : List (Sign κ ι) :=
  match struck thread with
  | none => []
  | some item => (refusal size thread item).tail

variable [DecidableEq κ] {size : κ → Word} {move : Move κ ι} {chosen : Bool}

/-- What a move does to the two runs: it is made in both and shows the same, or in the whole run
only, and then shows only of refused enqueues. -/
structure Matched (f : (queue : κ) → Facade (ι queue) (α queue)) (size : κ → Word)
    (struck : Struck ι) (later : List (Move κ ι × Bool)) (s t : Ensemble κ α) (move : Move κ ι)
    (stays : Bool) (struck' : Struck ι) : Prop where
  alike : Alike f struck' later (s.step f move) (if stays then t.step f move else t)
  staying : stays = true → t.signs f size move = s.signs f size move
  going : ∀ other, ∃ refused : List (Σ queue, ι queue),
    (if stays then [] else (s.signs f size move).filter fun sign => sign.thread = other) ++
        owed size struck' other =
      owed size struck other ++ refused.flatMap (refusal size other)

/-- A move that is made in both runs. -/
private theorem Matched.both (halike : Alike f struck later (s.step f move) (t.step f move))
    (hsigns : t.signs f size move = s.signs f size move) :
    Matched f size struck later s t move true struck where
  alike := halike
  staying _ := hsigns
  going _ := ⟨[], by simp⟩

/-- A move that changes nothing. -/
private theorem Matched.void (halike : Alike f struck later s t) (hstep : s.step f move = s)
    (hsigns : s.signs f size move = []) : Matched f size struck later s t move false struck where
  alike := by
    rw [hstep]
    exact halike
  staying h := nomatch h
  going _ := ⟨[], by simp [hsigns]⟩

/-- The beginning of an enqueue that is being erased. -/
private theorem Alike.begin {queue : κ} {item : ι queue}
    (h : Alike f struck ((.start thread queue (.enqueue item), chosen) :: later) s t)
    (hidle : s.idle thread = true) (hrefused : refusedNext thread later = true) :
    Matched f size struck later s t (.start thread queue (.enqueue item)) false
      (Function.update struck thread (some ⟨queue, item⟩)) where
  -- On this side the enqueue begins, on the other one its thread stays idle.
  alike := by
    obtain ⟨hlt, -⟩ := idle_iff.1 hidle
    obtain ⟨-, hnone⟩ := idle_iff.1 (h.idle hidle).1
    simp only [step, if_pos hidle]
    refine h.frame thread h.queues ?_ ?_ ?_
    · simp [h.length]
    · rw [Function.update_self, running?_set_self hlt, if_neg Bool.false_ne_true, hnone]
      exact .erased hrefused
    · intro other hne
      exact ⟨Function.update_of_ne hne _ _, rfl, running?_set_ne hne _ _, rfl⟩
  staying h := nomatch h
  -- The erased thread owes a refusal from now on, and no other thread does.
  going other := by
    obtain ⟨-, hstruck⟩ := h.idle hidle
    by_cases heq : other = thread
    · subst heq
      exact ⟨[⟨queue, item⟩], by simp [signs, hidle, owed, hstruck, refusal, Sign.thread]⟩
    · exact ⟨[], by simp [signs, hidle, owed, heq, Ne.symm heq, Sign.thread]⟩

/-- The step in which an enqueue that is being erased is refused: the queue is as it was. -/
private theorem Alike.refuse {queue : κ} {item : ι queue}
    (h : Alike f struck ((.advance thread .refused, chosen) :: later) s t)
    (hstruck : struck thread = some ⟨queue, item⟩) (ht : t.running? thread = none)
    (hs : s.running? thread = some ⟨queue, .allocate ((f queue).wrap item)⟩) :
    Matched f size struck later s t (.advance thread .refused) false
      (Function.update struck thread none) where
  -- The refusal changes nothing but the call, which ends where the other side never began.
  alike := by
    have hlt := lt_of_running? hs
    have hstep : s.step f (.advance thread .refused) =
        ⟨s.queues, s.calls.set thread
          (some ⟨queue, .done (.refused ((f queue).wrap item))⟩)⟩ := by
      simp [step, hs, Call.step, Shared.place]
    rw [hstep, if_neg Bool.false_ne_true]
    refine h.frame thread h.queues ?_ ?_ ?_
    · simp [h.length]
    · rw [Function.update_self, running?_set_self hlt, ht]
      exact .same
    · intro other hne
      exact ⟨Function.update_of_ne hne _ _, if_neg (Ne.symm hne), running?_set_ne hne _ _,
        rfl⟩
  staying h := nomatch h
  -- With the refusal the thread owes nothing any more.
  going other := by
    by_cases heq : other = thread
    · subst heq
      exact ⟨[], by simp [signs, hs, Call.event?, Call.step, Shared.place, Call.reply?, Reply.map,
        (f queue).unwrap_wrap, owed, hstruck, refusal, Sign.thread]⟩
    · exact ⟨[], by simp [signs, hs, Call.event?, Call.step, Shared.place, Call.reply?, owed, heq,
        Ne.symm heq, Sign.thread]⟩

/-- The beginning of any other call. -/
private theorem Alike.start {queue : κ} {request : Request (ι queue)}
    (h : Alike f struck ((.start thread queue request, chosen) :: later) s t)
    (hidle : s.idle thread = true) :
    Matched f size struck later s t (.start thread queue request) true struck := by
  obtain ⟨htidle, hstruck⟩ := h.idle hidle
  apply Matched.both
  · simp only [step, if_pos hidle, if_pos htidle, h.queues]
    exact h.both hstruck (idle_iff.1 hidle).1 (fun _ _ => rfl) s.queues _
  · simp only [signs, if_pos hidle, if_pos htidle]

/-- A step of any other call. -/
private theorem Alike.advance {grant : Grant} {call : Σ queue, Call (α queue)}
    (h : Alike f struck ((.advance thread grant, chosen) :: later) s t)
    (hstruck : struck thread = none) (hs : s.running? thread = some call)
    (ht : t.running? thread = some call) :
    Matched f size struck later s t (.advance thread grant) true struck := by
  apply Matched.both
  · simp only [step, hs, ht, h.queues]
    exact h.both hstruck (lt_of_running? hs) (fun _ hne => if_neg (Ne.symm hne)) _ _
  · simp only [signs, hs, ht, h.queues]

/-- One move, as it is sorted. -/
theorem Alike.matched (size : κ → Word) (h : Alike f struck ((move, chosen) :: later) s t) :
    Matched f size struck later s t move (s.sort struck later (move, chosen)).1
      (s.sort struck later (move, chosen)).2 := by
  have hsorted := h.sorted
  generalize s.sort struck later (move, chosen) = sorted at hsorted
  -- Each sort of move has its own lemma; those that do nothing do nothing on both sides.
  cases hsorted with
  | busy hidle =>
    have hbusy := Bool.eq_false_iff.1 hidle
    exact .void ⟨h.queues, h.length, h.agree⟩ (if_neg hbusy) (if_neg hbusy)
  | begins hidle hrefused => exact h.begin hidle hrefused
  | starts hidle _ => exact h.start hidle
  | @absent thread grant _ hs ht hstruck =>
    refine .void (h.frame thread h.queues h.length ?_ fun other hne => ?_) ?_ ?_
    · rw [hstruck, hs, ht]
      exact .same
    · exact ⟨rfl, if_neg (Ne.symm hne), rfl, rfl⟩
    · simp only [step, hs]
    · simp only [signs, hs]
  | refuses hs ht hstruck => exact h.refuse hstruck ht hs
  | advances hs ht hstruck => exact h.advance hstruck hs ht

/-! ### A run -/

/-- The first of some marked entries stays if it is marked so. -/
private theorem staying_cons {β : Type*} (x : β) (stays : Bool) (l : List (β × Bool)) :
    staying ((x, stays) :: l) = if stays then x :: staying l else staying l := by
  cases stays <;> rfl

/-- What stays of two lists are the parts that stay. -/
private theorem staying_append {β : Type*} (l l' : List (β × Bool)) :
    staying (l ++ l') = staying l ++ staying l' := by
  simp [staying]

/-- Where all entries have one mark, they stay together or go together. -/
private theorem staying_map {β : Type*} (l : List β) (stays : Bool) :
    staying (l.map (·, stays)) = if stays then l else [] := by
  cases stays <;> simp [staying, List.filter_map, Function.comp_def]

/-- What goes of two lists are the parts that go. -/
private theorem going_append {β : Type*} (l l' : List (β × Bool)) :
    going (l ++ l') = going l ++ going l' := by
  simp [going]

/-- Where all entries have one mark, they go together or stay together. -/
private theorem going_map {β : Type*} (l : List β) (stays : Bool) :
    going (l.map (·, stays)) = if stays then [] else l := by
  cases stays <;> simp [going, List.filter_map, Function.comp_def]

/-- The two runs after the same number of moves. -/
theorem Alike.sift (h : Alike f struck marks s t) (n : Nat) :
    ∃ struck', Alike f struck' (marks.drop n)
      (s.run f (((s.sift f struck marks).take n).map Prod.fst))
      (t.run f (staying ((s.sift f struck marks).take n))) := by
  induction n generalizing s t struck marks with
  | zero => exact ⟨struck, h⟩
  | succ n ih =>
    -- By induction on the length of the prefix: the first move keeps the two alike.
    cases marks with
    | nil => exact ⟨struck, h⟩
    | cons marked later =>
      have hrest := ih (h.matched fun _ => 0).alike
      rw [Ensemble.sift, List.take_succ_cons, staying_cons]
      split at hrest
      · rename_i hstays
        rw [if_pos hstays]
        exact hrest
      · rename_i hgoes
        rw [if_neg hgoes]
        exact hrest

/-- What shows of the run without the erased calls is what shows of the moves that stay. -/
private theorem Alike.transcript (h : Alike f struck marks s t) :
    t.transcript f size (staying (s.sift f struck marks)) =
      staying (s.showing f size (s.sift f struck marks)) := by
  induction marks generalizing s t struck with
  | nil => rfl
  | cons marked later ih =>
    obtain ⟨move, chosen⟩ := marked
    have hmove := h.matched size
    rw [Ensemble.sift, showing, staying_append, staying_map, staying_cons]
    -- A move that stays shows the same on both sides, and one that goes shows on this side only.
    cases hstays : (s.sort struck later (move, chosen)).1 with
    | true =>
      rw [hstays] at hmove
      rw [if_pos rfl, if_pos rfl, Ensemble.transcript, hmove.staying rfl]
      exact congrArg _ (ih hmove.alike)
    | false =>
      rw [hstays] at hmove
      exact ih hmove.alike

/-- What shows of the erased calls of a thread is one refusal after the other. -/
private theorem Alike.going (h : Alike f struck marks s t) (thread : Nat) :
    ∃ refused : List (Σ queue, ι queue),
      (going (s.showing f size (s.sift f struck marks))).filter
          (fun sign => sign.thread = thread) =
        owed size struck thread ++ refused.flatMap (refusal size thread) := by
  induction marks generalizing s t struck with
  | nil =>
    -- A call that is being erased still has its refusal before it.
    have hagree := h.agree thread
    generalize hstruck : struck thread = item at hagree
    generalize s.running? thread = call at hagree
    generalize t.running? thread = call' at hagree
    cases hagree with
    | same => exact ⟨[], by simp [Ensemble.sift, showing, Ensemble.going, owed, hstruck]⟩
    | erased hrefused => cases hrefused
  | cons marked later ih =>
    have hmove := h.matched size
    obtain ⟨rest, hrest⟩ := ih hmove.alike
    obtain ⟨first, hfirst⟩ := hmove.going thread
    refine ⟨first ++ rest, ?_⟩
    rw [Ensemble.sift, showing, going_append, going_map, List.filter_append, hrest,
      List.flatMap_append, ← List.append_assoc, ← List.append_assoc, ← hfirst]
    split <;> rfl

/-! ### Erasing all that are refused -/

/-- Whoever is about to allocate will find memory. -/
def Spared (later : List (Move κ ι × Bool)) (t : Ensemble κ α) : Prop :=
  ∀ thread queue item, t.running? thread = some ⟨queue, .allocate item⟩ →
    refusedNext thread later = false

/-- No step leads to where an enqueue begins. -/
private theorem step_ne_allocate {β : Type*} {c : Call β} (hc : c.reply? = none) (grant : Grant)
    (s : Shared β) (item : β) : (c.step grant s).2 ≠ .allocate item := by
  -- Only a step with a branch has to be looked at in both of its outcomes.
  cases c with
  | allocate item =>
    cases grant <;> simp [Call.step, Shared.place]
  | readTailLink node tail =>
    simp only [Call.step]
    split <;> simp
  | link node tail =>
    simp only [Call.step]
    split <;> simp
  | readHeadLink head tail =>
    simp only [Call.step]
    split
    · simp
    · split <;> simp
  | unlink head next =>
    simp only [Call.step]
    split <;> simp
  | done reply => cases hc
  | _ => simp [Call.step]

/-- A call that begins may find no memory only if it is being erased. -/
private theorem Spared.start {queue : κ} {request : Request (ι queue)}
    (h : Spared ((.start thread queue request, chosen) :: later) t) (hidle : t.idle thread = true)
    (hspared : ∀ item, request = .enqueue item → refusedNext thread later = false) :
    Spared later (t.step f (.start thread queue request)) := by
  intro other queue' item hrunning
  simp only [step, if_pos hidle] at hrunning
  by_cases heq : other = thread
  · subst heq
    rw [running?_set_self (idle_iff.1 hidle).1] at hrunning
    cases request with
    | enqueue item' => exact hspared item' rfl
    | dequeue | isEmpty => cases hrunning
  · rw [running?_set_ne heq] at hrunning
    exact h other queue' item hrunning

/-- Where every thread about to allocate will find memory, a step reports nothing. -/
private theorem Spared.advance (f : (queue : κ) → Facade (ι queue) (α queue)) (size : κ → Word)
    {grant : Grant} {call : Σ queue, Call (α queue)}
    (h : Spared ((.advance thread grant, chosen) :: later) t)
    (ht : t.running? thread = some call) :
    Spared later (t.step f (.advance thread grant)) ∧
      (t.signs f size (.advance thread grant)).filterMap Sign.event? = [] := by
  obtain ⟨queue, c⟩ := call
  refine ⟨fun other queue' item hrunning => ?_, ?_⟩
  · simp only [step, ht] at hrunning
    by_cases heq : other = thread
    · -- The thread has come to a later point of its call.
      subst heq
      rw [running?_set_self (lt_of_running? ht), Option.filter_eq_some_iff] at hrunning
      simp only [Option.some.injEq, Sigma.mk.injEq] at hrunning
      obtain ⟨⟨rfl, hstep⟩, -⟩ := hrunning
      exact absurd (eq_of_heq hstep) (step_ne_allocate (reply?_of_running? ht) _ _ _)
    · rw [running?_set_ne heq] at hrunning
      have hother := h other queue' item hrunning
      rwa [refusedNext, if_neg (Ne.symm heq)] at hother
  · have hevent : c.event? grant (size queue) = none := by
      cases c with
      | allocate item =>
        have hspared := h thread queue item ht
        simp only [refusedNext, if_pos, decide_eq_false_iff_not] at hspared
        simp [Call.event?, hspared]
      | _ => rfl
    simp only [signs, ht, hevent]
    cases (c.step grant (t.queues queue)).2.reply? <;> rfl

omit [DecidableEq κ] in
/-- A thread that is in no call has nothing to allocate. -/
private theorem Spared.absent {grant : Grant}
    (h : Spared ((.advance thread grant, chosen) :: later) t) (ht : t.running? thread = none) :
    Spared later t := by
  intro other queue item hrunning
  have hne : thread ≠ other := by
    rintro rfl
    rw [ht] at hrunning
    cases hrunning
  have hother := h other queue item hrunning
  rwa [refusedNext, if_neg hne] at hother

/-- One move, if every call that can be erased is. -/
private theorem Alike.spared (size : κ → Word) (h : Alike f struck ((move, true) :: later) s t)
    (hspared : Spared ((move, true) :: later) t) :
    let stays := (s.sort struck later (move, true)).1
    Spared later (if stays then t.step f move else t) ∧
      (stays = true → (t.signs f size move).filterMap Sign.event? = []) := by
  have hsorted := h.sorted
  generalize s.sort struck later (move, true) = sorted at hsorted
  -- On the other side the erased enqueues do not occur, so nothing is refused there.
  cases hsorted with
  | busy _ => exact ⟨hspared, fun h => nomatch h⟩
  | begins _ _ => exact ⟨hspared, fun h => nomatch h⟩
  | starts hidle hrefused =>
    obtain ⟨htidle, -⟩ := h.idle hidle
    refine ⟨hspared.start htidle (hrefused rfl), fun _ => ?_⟩
    simp only [signs, if_pos htidle]
    rfl
  | absent _ ht _ => exact ⟨hspared.absent ht, fun h => nomatch h⟩
  | refuses _ ht _ => exact ⟨hspared.absent ht, fun h => nomatch h⟩
  | advances _ ht _ =>
    obtain ⟨hstep, hsigns⟩ := hspared.advance f size ht
    exact ⟨hstep, fun _ => hsigns⟩

/-- Without all enqueues that are refused nothing is reported. -/
private theorem Alike.transcript_spared (h : Alike f struck marks s t) (hspared : Spared marks t)
    (hall : ∀ marked ∈ marks, marked.2 = true) :
    (t.transcript f size (staying (s.sift f struck marks))).filterMap Sign.event? = [] := by
  induction marks generalizing s t struck with
  | nil => rfl
  | cons marked later ih =>
    obtain ⟨move, chosen⟩ := marked
    obtain rfl : chosen = true := hall _ List.mem_cons_self
    have hmove := (h.matched size).alike
    obtain ⟨hrest, hsigns⟩ := h.spared size hspared
    have hlater := ih hmove hrest fun marked hmem => hall _ (List.mem_cons_of_mem _ hmem)
    rw [Ensemble.sift, staying_cons]
    -- A move that goes shows nothing on the other side.
    cases hstays : (s.sort struck later (move, true)).1 with
    | true =>
      rw [hstays] at hlater
      rw [if_pos rfl, Ensemble.transcript, List.filterMap_append, hsigns hstays]
      exact hlater
    | false =>
      rw [hstays] at hlater
      exact hlater

/-! ### Any run -/

/-- Sifting marks the moves and leaves them and their order. -/
private theorem sift_fst (s : Ensemble κ α) (struck : Struck ι) (marks : List (Move κ ι × Bool)) :
    (s.sift f struck marks).map Prod.fst = marks.map Prod.fst := by
  induction marks generalizing s struck with
  | nil => rfl
  | cons marked later ih =>
    rw [sift, List.map_cons, List.map_cons, ih]

/-- Marking what is shown leaves what is shown and its order. -/
private theorem showing_fst (s : Ensemble κ α) (sifted : List (Move κ ι × Bool)) :
    (s.showing f size sifted).map Prod.fst = s.transcript f size (sifted.map Prod.fst) := by
  induction sifted generalizing s with
  | nil => rfl
  | cons marked sifted ih =>
    rw [showing, List.map_append, List.map_map, ih]
    exact congrArg (· ++ _) (List.map_id _)

/-- What the erasure of the marked enqueues that are refused does to a run. -/
structure Erased (f : (queue : κ) → Facade (ι queue) (α queue)) (size : κ → Word)
    (s : Ensemble κ α) (marks sifted : List (Move κ ι × Bool)) : Prop where
  /-- The moves of the run, some of which stay, and the signs of these moves. -/
  moves : sifted.map Prod.fst = marks.map Prod.fst
  signs : (s.showing f size sifted).map Prod.fst = s.transcript f size (marks.map Prod.fst)
  /-- After each move all queues are in the same state, the chain, the head, the tail and the
  counter of each, and every thread is at the same point, unless its call is an erased one; such a
  call has its item and nothing else. -/
  states : ∀ n,
    let whole := s.run f ((marks.take n).map Prod.fst)
    let rest := s.run f (staying (sifted.take n))
    rest.queues = whole.queues ∧ ∀ thread, rest.running? thread = whole.running? thread ∨
      rest.running? thread = none ∧ ∃ queue item,
        whole.running? thread = some ⟨queue, .allocate ((f queue).wrap item)⟩
  /-- The other calls ask the same and are answered the same, and the same is reported of them. -/
  others : s.transcript f size (staying sifted) = staying (s.showing f size sifted)
  /-- Each erased call asks for an item to be enqueued, reports one failed allocation, and is
  answered with this item. -/
  refused : ∀ thread, ∃ items : List (Σ queue, ι queue),
    (going (s.showing f size sifted)).filter (fun sign => sign.thread = thread) =
      items.flatMap (refusal size thread)
  /-- With everything marked, no failed allocation is left. -/
  all : (∀ thread, s.running? thread = none) → (∀ marked ∈ marks, marked.2 = true) →
    (s.transcript f size (staying sifted)).filterMap Sign.event? = []

/-- The enqueues that are refused can be erased from a run, and nobody else notices. -/
private theorem erased_sift (s : Ensemble κ α) (marks : List (Move κ ι × Bool)) :
    Erased f size s marks (s.sift f (fun _ => none) marks) where
  moves := sift_fst s _ marks
  signs := by rw [showing_fst, sift_fst]
  states n := by
    obtain ⟨struck, h⟩ := (Alike.refl (f := f) (s := s)).sift n
    rw [List.map_take, sift_fst, ← List.map_take] at h
    exact ⟨h.queues, fun thread => (h.agree thread).eq_or⟩
  -- What the others see is what stays of the transcript.
  others := Alike.refl.transcript
  -- What goes is, thread by thread, enqueues and their refusals.
  refused thread := by
    obtain ⟨items, hitems⟩ := (Alike.refl (f := f) (s := s)).going thread
    exact ⟨items, hitems⟩
  all hnone hall := by
    have hspared : Spared marks s := fun thread queue item hrunning =>
      nomatch (hnone thread).symm.trans hrunning
    exact Alike.refl.transcript_spared hspared hall

/-- Enqueues that are refused leave no trace. From any run of any threads on any queues, each behind
a facade of its own, erase any choice of them: after every move all queues are as they were, the
other calls are answered and reported as they were, and all that is missing is, for each of them,
one failed allocation and the item that came back. From the course of any session, of plain values,
of addresses, or of handles, erase any choice of them, and leave to the user what it does with the
item itself: after every command the whole session is as it was, and so is every other answer and
event. The item comes back to the user's books as they were when it was passed on. So of the handles
of an object there are as many as before, whether the user passes on a clone and lets it go when it
comes back, or the very handle that it keeps. -/
theorem erasure_run (f : (queue : κ) → Facade (ι queue) (α queue)) (size : κ → Word)
    (s : Ensemble κ α) (marks : List (Move κ ι × Bool)) {ε σ ν β : Type*} (g : Facade ν β)
    (c : Custody ε σ ν) (session : Session ε β) (commands : List (Command σ × Bool))
    (queues objects : Nat) (before : List Handles.Command)
    (actions : List (Handles.Command × Bool)) :
    Erased f size s marks (s.sift f (fun _ => none) marks) ∧
    (Session.conduct g c).course session (commands.map fun marked => (marked.1, false)) =
      ((Session.conduct g c).course session commands).map (Prod.map id Upshot.refuse) ∧
    (∀ command item books, Session.refused? c session command = some (item, books) →
      Session.run g c session command = ({ session with books := c.release books item },
        .refused ⟨item⟩, [.allocationFailed Queue.nodeSize])) ∧
    let owner := Handles.after (Session.create queues (Handles.create objects)).1 before
    Handles.conduct.course owner (actions.map fun marked => (marked.1, false)) =
      (Handles.conduct.course owner actions).map (Prod.map id Upshot.refuse) ∧
    (∀ object place, owner.books.inTable object = true → owner.present place = true →
      Handles.run owner ⟨.common (.enqueue false ⟨object, false⟩), place, none⟩ =
        (owner, .refused ⟨object⟩, [.allocationFailed Queue.nodeSize])) ∧
    (∀ object place, object ∈ owner.books.held → owner.present place = true →
      Handles.run owner ⟨.hoarding (.enqueue false ⟨object, true⟩), place, none⟩ =
        ({ owner with
            books := { owner.books with held := object :: owner.books.held.erase object } },
          .refused ⟨object⟩, [.allocationFailed Queue.nodeSize])) := by
  -- The commands from before leave balanced counts, which the last two parts rest on.
  have hbalanced := (Handles.balanced_create queues objects).after before
  refine ⟨erased_sift s marks, (Session.conduct g c).course_without session commands,
    fun command item books h => Session.run_refused h, Handles.conduct.course_without _ actions,
    ?_, ?_⟩
  · intro object place hin hplace
    exact Handles.run_refused_clone hbalanced hin hplace
  · intro object place hheld hplace
    exact Handles.run_refused_kept hheld hplace

/-- The null address comes back while another thread enqueues to the same queue. -/
example :
    ((init 2 : Ensemble Bool fun _ => RawItem Word).sift (fun _ => .addresses Word) (fun _ => none)
      [(.start 0 true (.enqueue 0), true), (.start 1 true (.enqueue 7), true),
        (.advance 1 .fresh, true), (.advance 0 .refused, true),
        (.start 0 false .isEmpty, true)]).map Prod.snd = [false, true, true, false, true] := by
  decide

end AtomicFifo.Ensemble

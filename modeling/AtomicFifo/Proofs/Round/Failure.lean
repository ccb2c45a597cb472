import AtomicFifo.Proofs.Crowd.Marking
import AtomicFifo.Proofs.Round.Joining
import AtomicFifo.Round.Faults

/-!
# Rounds in which threads fail

However the threads of a round end, and in whatever order of time, the round is verified if none
of them has failed. Otherwise the first that has failed, in the order of joining, says how the
round ends, unless a thread behind it has panicked: then the scope of the threads panics. Either
way the queue is not looked at any more and is dropped as the threads have left it.

* `Lineup`                     the threads of a round that has ended
* `Abandoned`                  what becomes of a round that is not verified
* `Stopped`                    where its main thread stops, and for whom it does not wait
* `outcome_of_first_failure`   how a round ends, by the endings of its threads
-/

namespace AtomicFifo.Round

universe u v

variable {σ : Type u} {κ : Type v}

/-- What a round says whose thread number `i` has ended like this and is the first that has
failed. -/
def blame (subject : Subject σ κ) (plan : Plan) (i : Nat) : Ending → ErrorChain
  | .refused item => subject.refusal item
  | _ => .single (if i < plan.producers.toNat then "producer panicked" else "consumer panicked")

/-- The threads of a crowd that has ended stand in a row, the producers in front, and only a
producer can have been refused anything. -/
structure Lineup (plan : Plan) (crowd : Crowd σ κ) : Prop where
  order : (endings crowd).map some =
    crowd.producers.toList.map (·.ending?) ++ crowd.consumers.toList.map (·.ending?)
  producers : crowd.producers.size = plan.producers.toNat
  consumers : crowd.consumers.size = plan.consumers.toNat
  refused : ∀ {i : Nat} {item : Word}, (endings crowd)[i]? = some (.refused item) →
    i < plan.producers.toNat

/-- What becomes of a round that is not verified. -/
structure Abandoned (subject : Subject σ κ) (plan : Plan) (queue : σ) (schedule : List Agent) :
    Prop where
  /-- The queue is asked nothing and is not released: it does not matter what it would answer. -/
  unasked : ∀ other : Subject σ κ, other.toFifo = subject.toFifo →
    other.refusal = subject.refusal →
      play other plan queue schedule = play subject plan queue schedule
  /-- The log is that of the threads. -/
  events : (play subject plan queue schedule).events =
    (Crowd.follow subject.toFifo plan (.init plan queue) schedule).log.reverse
  /-- No event is the round's own. -/
  source : ∀ event ∈ (play subject plan queue schedule).events,
    (∃ consumer items, event = .drained consumer items) ∨
      ∃ queue call, (subject.step queue call).event = some event
  /-- The queue is dropped as the threads have left it. -/
  dropped : (play subject plan queue schedule).dropped =
    some (Crowd.follow subject.toFifo plan (.init plan queue) schedule).queue

/-- Where the main thread has stopped if thread number `i` is the first that has failed: at this
thread, or behind the producers if it is a consumer. -/
structure Stopped (f : Fifo σ κ) (plan : Plan) (queue : σ) (schedule : List Agent) (i : Nat) :
    Prop where
  finished : (Crowd.follow f plan (.init plan queue) schedule).finished = true
  joined : (Crowd.follow f plan (.init plan queue) schedule).joined = min i plan.producers.toNat
  /-- As soon as the producers up to this thread had ended, the mark needed no step of anybody
  else: neither of a consumer, nor of a producer behind. -/
  early : ∀ before after, schedule = before ++ after →
    (∀ p ≤ i, ∀ x, (Crowd.follow f plan (.init plan queue) before).producers[p]? = some x →
      x.ending?.isSome) →
    ∃ n, (Crowd.follow f plan (Crowd.follow f plan (.init plan queue) before)
      (List.replicate n .main)).finished = true
  /-- No consumer has ended normally before the mark was set. -/
  waiting : ∀ before after, schedule = before ++ after →
    ∀ y ∈ (Crowd.follow f plan (.init plan queue) before).consumers,
      y.phase = .ended .completed →
      (Crowd.follow f plan (.init plan queue) before).finished = true

/-- Thread number `i` has ended like this, and is the first that has failed. -/
structure FirstFailure (threads : List Ending) (i : Nat) (e : Ending) : Prop where
  ended : threads[i]? = some e
  failed : e ≠ .completed
  before : ∀ j < i, threads[j]? = some .completed

namespace FirstFailure

variable {threads : List Ending} {i : Nat} {e : Ending}

/-- The endings are those before the first failure, the failure and those behind it. -/
private theorem eq_append (h : FirstFailure threads i e) :
    threads = threads.take i ++ e :: threads.drop (i + 1) := by
  obtain ⟨hlt, rfl⟩ := List.getElem?_eq_some_iff.1 h.ended
  rw [List.getElem_cons_drop, List.take_append_drop]

/-- There are as many endings before the first failure as its index says. -/
private theorem length_take (h : FirstFailure threads i e) : (threads.take i).length = i := by
  obtain ⟨hlt, -⟩ := List.getElem?_eq_some_iff.1 h.ended
  exact List.length_take_of_le (Nat.le_of_lt hlt)

/-- Every thread before the first failure has ended normally. -/
private theorem completed (h : FirstFailure threads i e) :
    ∀ d ∈ threads.take i, d = .completed := by
  intro d hd
  obtain ⟨j, hj⟩ := List.mem_iff_getElem?.1 hd
  obtain ⟨hlt, hget⟩ := List.getElem?_eq_some_iff.1 hj
  rw [h.length_take] at hlt
  rw [List.getElem_take] at hget
  exact hget ▸ Option.some.inj ((List.getElem?_eq_getElem _).symm.trans (h.before j hlt))

end FirstFailure

/-! ### Where the main thread stops -/

/-- The producers of a crowd that have ended have done so as this list says. -/
def Foretold (crowd : Crowd σ κ) (threads : List Ending) : Prop :=
  ∀ (p : Nat) (x : Producer κ) (e : Ending), crowd.producers[p]? = some x → x.phase = .ended e →
    threads[p]? = some e

section Crowds

variable {plan : Plan} {crowd : Crowd σ κ} {threads : List Ending} {i : Nat} {e : Ending}

/-- What a producer has come to now is what it will have come to in the end. -/
private theorem foretold_follow {f : Fifo σ κ} {later : List Agent}
    (hended : (Crowd.follow f plan crowd later).ended = true) :
    Foretold crowd (endings (Crowd.follow f plan crowd later)) :=
  fun _ _ _ hx he => getElem?_endings hended (Crowd.ended_follow hx he later) he

/-- The main thread joins no thread behind the first that fails. -/
theorem joined_le (hprotocol : crowd.Protocol) (hplace : Foretold crowd threads)
    (hfirst : FirstFailure threads i e) : crowd.joined ≤ i := by
  refine Nat.le_of_not_lt fun hlt => ?_
  have hx := Array.getElem?_eq_getElem (Nat.lt_of_lt_of_le hlt hprotocol.joined_le)
  have hat := hplace i _ _ hx (hprotocol.joined hlt hx)
  exact hfirst.failed (Option.some.inj (hfirst.ended.symm.trans hat))

/-- Once the mark is set, the main thread has stopped at the first producer that has failed, or
behind all of them. -/
private theorem joined_eq (hmanned : crowd.Manned plan) (hprotocol : crowd.Protocol)
    (hmarked : crowd.Marked) (hfin : crowd.finished = true) (hplace : Foretold crowd threads)
    (hfirst : FirstFailure threads i e) : crowd.joined = min i plan.producers.toNat := by
  have hsize := hmanned.producers_size
  have hle := hprotocol.joined_le
  have hle_i := joined_le hprotocol hplace hfirst
  have hnot_lt : ¬ crowd.joined < min i plan.producers.toNat := by
    intro hlt
    have hx := Array.getElem?_eq_getElem (show crowd.joined < crowd.producers.size by omega)
    obtain ⟨e', he', hfail⟩ := hmarked hfin _ hx
    have hat := hplace _ _ _ hx he'
    exact hfail (Option.some.inj ((hfirst.before crowd.joined (by omega)).symm.trans hat)).symm
  omega

/-- As soon as the producers up to the first thread that fails have ended, the main thread sets the
mark without waiting for anybody else: neither for a consumer, nor for a producer behind. -/
private theorem exists_marked_early (f : Fifo σ κ) (hmanned : crowd.Manned plan)
    (hprotocol : crowd.Protocol) (hplace : Foretold crowd threads)
    (hfirst : FirstFailure threads i e)
    (hearly : ∀ p ≤ i, ∀ x, crowd.producers[p]? = some x → x.ending?.isSome) :
    ∃ n, (Crowd.follow f plan crowd (List.replicate n .main)).finished = true := by
  have hsize := hmanned.producers_size
  have hle := hprotocol.joined_le
  have hle_i := joined_le hprotocol hplace hfirst
  -- What a producer up to this thread has come to already.
  have hended : ∀ p ≤ i, ∀ x, crowd.producers[p]? = some x →
      ∃ e', x.phase = .ended e' ∧ threads[p]? = some e' := by
    intro p hp x hx
    obtain ⟨e', hend⟩ := Option.isSome_iff_exists.1 (hearly p hp x hx)
    have hphase := Producer.ending?_eq_some_iff.1 hend
    exact ⟨e', hphase, hplace p x e' hx hphase⟩
  refine Crowd.exists_marked (k := min i plan.producers.toNat) f plan (by omega) ?_ ?_
  · intro p hp
    have hx := Array.getElem?_eq_getElem (show p < crowd.producers.size by omega)
    obtain ⟨e', hphase, hat⟩ := hended p (by omega) _ hx
    have heq : e' = .completed := Option.some.inj (hat.symm.trans (hfirst.before p (by omega)))
    exact ⟨_, hx, heq ▸ hphase⟩
  · intro x hx
    obtain ⟨hlt, -⟩ := Array.getElem?_eq_some_iff.1 hx
    -- There is a producer at this place, so it is that of the thread that fails.
    have hmin : min i plan.producers.toNat = i := by omega
    rw [hmin] at hx
    obtain ⟨e', hphase, hat⟩ := hended i (Nat.le_refl i) x hx
    have heq : e' = e := Option.some.inj (hat.symm.trans hfirst.ended)
    exact ⟨e', hphase, heq ▸ hfirst.failed⟩

end Crowds

/-! ### The round -/

/-- In a crowd that has ended the endings are in the order of the threads. -/
private theorem lineup_of_ended {plan : Plan} {crowd : Crowd σ κ} (hmanned : crowd.Manned plan)
    (hended : crowd.ended = true) : Lineup plan crowd where
  order := map_endings hended
  producers := hmanned.producers_size
  consumers := hmanned.consumers_size
  refused {i item} hi := by
    refine Nat.lt_of_not_le fun hle => ?_
    have hlen : crowd.producers.size ≤ i := hmanned.producers_size ▸ hle
    have hmap : ((endings crowd).map some)[i]? = some (some (.refused item)) := by
      rw [List.getElem?_map, hi]
      rfl
    -- Behind the producers stand the consumers, none of which has been refused anything.
    rw [map_endings hended, List.getElem?_append_right (by simpa using hlen),
      List.getElem?_map, Option.map_eq_some_iff] at hmap
    obtain ⟨y, hy, hend⟩ := hmap
    rw [Array.getElem?_toList] at hy
    exact hmanned.not_refused hy item (Consumer.ending?_eq_some_iff.1 hend)

section Plays

variable {subject : Subject σ κ} {plan : Plan} {queue : σ} {schedule : List Agent}

/-- A round whose thread number `i` is the first that has failed. -/
private theorem play_failed (hroom : 8 * (plan.producers.toNat * plan.items.toNat) < 2 ^ 63)
    {crowd : Crowd σ κ}
    (hcrowd : crowd = Crowd.follow subject.toFifo plan (.init plan queue) schedule)
    (hended : crowd.ended = true) {i : Nat} {e : Ending}
    (hfirst : FirstFailure (endings crowd) i e) :
    play subject plan queue schedule =
      ⟨⟨.failed (if .panicked ∈ (endings crowd).drop (i + 1) then .panic .scopedThread
        else .error (if i < plan.producers.toNat
          then producerError subject.refusal e else .consumerPanicked)),
        crowd.log.reverse⟩, some crowd.queue⟩ := by
  have hmanned : crowd.Manned plan := hcrowd ▸ .follow subject.toFifo plan queue schedule
  obtain ⟨total, -, -, hallocatable, hplay⟩ := exists_play_eq subject queue schedule hroom
  -- The conclusion looks at the first failure, and at whether a panic is behind it.
  have hconclude : conclude subject total crowd = _ :=
    conclude_failed hended hfirst.eq_append hfirst.completed hfirst.failed hallocatable
  rw [hplay, ← hcrowd, hconclude, hfirst.length_take, hmanned.producers_size]

/-- A round with a failing thread is abandoned. -/
private theorem abandoned_of_failed (hroom : 8 * (plan.producers.toNat * plan.items.toNat) < 2 ^ 63)
    {crowd : Crowd σ κ}
    (hcrowd : crowd = Crowd.follow subject.toFifo plan (.init plan queue) schedule)
    (hended : crowd.ended = true) {i : Nat} {e : Ending}
    (hfirst : FirstFailure (endings crowd) i e) :
    Abandoned subject plan queue schedule where
  -- Another subject with the same queue gives the same crowd, and nothing else is asked of it.
  unasked other hfifo hrefusal := by
    have hcrowd' : crowd = Crowd.follow other.toFifo plan (.init plan queue) schedule := by
      rw [hfifo, hcrowd]
    rw [play_failed hroom hcrowd hended hfirst, play_failed hroom hcrowd' hended hfirst, hrefusal]
  events := by rw [play_failed hroom hcrowd hended hfirst, hcrowd]
  source event hmem := by
    rw [play_failed hroom hcrowd hended hfirst, hcrowd, List.mem_reverse] at hmem
    exact Crowd.Logged.follow subject.toFifo plan queue schedule event hmem
  dropped := by rw [play_failed hroom hcrowd hended hfirst, hcrowd]

/-- The main thread stops at the first failure, and sets the mark there. -/
private theorem stopped_of_failed {f : Fifo σ κ} {crowd : Crowd σ κ}
    (hcrowd : crowd = Crowd.follow f plan (.init plan queue) schedule)
    (hended : crowd.ended = true) {i : Nat} {e : Ending}
    (hfirst : FirstFailure (endings crowd) i e) : Stopped f plan queue schedule i := by
  have hmanned : crowd.Manned plan := hcrowd ▸ .follow f plan queue schedule
  have hprotocol : crowd.Protocol := hcrowd ▸ .follow f plan queue schedule
  have hmarked : crowd.Marked := hcrowd ▸ .follow f plan queue schedule
  have hfinished : crowd.finished = true := by
    simp only [Crowd.ended, Bool.and_eq_true] at hended
    exact hended.1.1
  -- It has joined all producers before the failure, and no other ones.
  have hjoined : crowd.joined = min i plan.producers.toNat :=
    joined_eq hmanned hprotocol hmarked hfinished (fun _ _ _ => getElem?_endings hended) hfirst
  refine ⟨hcrowd ▸ hfinished, hcrowd ▸ hjoined, fun before after hschedule hearly => ?_,
    fun before after _ y hy hend => ?_⟩
  · have hlater : crowd =
        Crowd.follow f plan (Crowd.follow f plan (.init plan queue) before) after := by
      rw [hcrowd, hschedule, Crowd.follow, List.foldl_append]
      rfl
    have hplace : Foretold (Crowd.follow f plan (.init plan queue) before) (endings crowd) := by
      rw [hlater] at hended ⊢
      exact foretold_follow hended
    exact exists_marked_early f (.follow f plan queue before) (.follow f plan queue before) hplace
      hfirst hearly
  · obtain ⟨c, hc⟩ := Array.mem_iff_getElem?.1 hy
    exact (Crowd.Protocol.follow f plan queue before).ended hc hend

/-- The error of the first thread that has failed, as the round words it. -/
private theorem chain_eq_blame {i : Nat} {e : Ending} (he : e ≠ .completed)
    (hrefused : ∀ item, e = .refused item → i < plan.producers.toNat) :
    (if i < plan.producers.toNat then producerError subject.refusal e
      else .consumerPanicked).chain = blame subject plan i e := by
  cases e with
  | completed => exact absurd rfl he
  | refused item =>
    rw [if_pos (hrefused item rfl)]
    rfl
  | panicked =>
    unfold blame
    split <;> rfl

end Plays

/-- A round on any schedule and over any subject, with tags that are few enough for their list,
when all its threads have ended, each of them in its own way. If none of them has failed, the round
comes to what its verification does. If number `i` is the first that has failed, then the round
panics where a thread behind it has panicked, and else ends with the error of this thread; the round
is abandoned, and its main thread had the mark set in time. -/
theorem outcome_of_first_failure (subject : Subject σ κ) (plan : Plan) (queue : σ)
    (schedule : List Agent)
    (hroom : 8 * (plan.producers.toNat * plan.items.toNat) < 2 ^ 63) :
    let crowd := Crowd.follow subject.toFifo plan (.init plan queue) schedule
    let round := play subject plan queue schedule
    crowd.ended = true →
      Lineup plan crowd ∧
      ((∀ e ∈ endings crowd, e = .completed) →
        ∃ total, plan.total? = some total ∧
          round = { verify subject total crowd.queue (taken crowd) with
            events := crowd.log.reverse ++
              (verify subject total crowd.queue (taken crowd)).events }) ∧
      ∀ i e, FirstFailure (endings crowd) i e →
        (.panicked ∈ (endings crowd).drop (i + 1) →
          ∃ p, round.outcome = .failed (.panic p) ∧ p.message = "a scoped thread panicked") ∧
        (.panicked ∉ (endings crowd).drop (i + 1) →
          ∃ error, round.outcome = .failed (.error error) ∧
            error.chain = blame subject plan i e) ∧
        Abandoned subject plan queue schedule ∧
        Stopped subject.toFifo plan queue schedule i := by
  intro crowd round hended
  have hmanned : crowd.Manned plan := .follow subject.toFifo plan queue schedule
  -- The lineup says which thread an ending belongs to.
  have hlineup := lineup_of_ended hmanned hended
  refine ⟨hlineup, fun hall => ?_, fun i e hfirst => ?_⟩
  · obtain ⟨total, htotal, -, hallocatable, hplay⟩ := exists_play_eq subject queue schedule hroom
    exact ⟨total, htotal, hplay.trans (conclude_completed hended hall hallocatable)⟩
  · have hround := play_failed hroom rfl hended hfirst
    refine ⟨fun hpanicked => ?_, fun hnone => ?_, abandoned_of_failed hroom rfl hended hfirst,
      stopped_of_failed rfl hended hfirst⟩
    · refine ⟨.scopedThread, ?_, rfl⟩
      show (play subject plan queue schedule).outcome = _
      rw [hround, if_pos hpanicked]
    · refine ⟨_, ?_, chain_eq_blame hfirst.failed fun item heq =>
        hlineup.refused (heq ▸ hfirst.ended)⟩
      show (play subject plan queue schedule).outcome = _
      rw [hround, if_neg hnone]

/-- The first producer finds no memory, so the mark is set while the second one has not begun.
The consumer ends on an empty queue, and what the second producer enqueues then is dropped with
the queue. -/
theorem outcome_of_first_failure_starved :
    let faults : Faults := ⟨some 0, none, none, none, none, none, none, none, none⟩
    let subject := Faulty.subject (.addresses Word) faults Queue.nodeSize
    let plan : Plan := ⟨2, 1, 1, false⟩
    let schedule : List Agent := List.replicate 3 (.producer 0) ++ [.main] ++
      List.replicate 6 (.consumer 0) ++ List.replicate 10 (.producer 1)
    let crowd := Crowd.follow subject.toFifo plan (.init plan .init) schedule
    crowd.ended = true ∧ endings crowd = [.refused 0, .completed, .completed] ∧
      crowd.queue.inner.nodeCount? = some 1 ∧
      (∃ error, (play subject plan .init schedule).outcome = .failed (.error error) ∧
        error.chain = ⟨"failed to enqueue", ["failed to allocate a queue node"]⟩) ∧
      (play subject plan .init schedule).dropped = some crowd.queue := by
  intro faults subject plan schedule crowd
  have hended : crowd.ended = true := by decide +kernel
  have hendings : endings crowd = [.refused 0, .completed, .completed] := by decide +kernel
  have hnodes : crowd.queue.inner.nodeCount? = some 1 := by decide +kernel
  have hfirst : FirstFailure (endings crowd) 0 (.refused 0) := by
    rw [hendings]
    exact ⟨rfl, by decide, by simp⟩
  have hbehind : .panicked ∉ (endings crowd).drop (0 + 1) := by
    rw [hendings]
    decide
  -- The first producer is refused memory, so the round stops at it.
  obtain ⟨-, -, hfailed⟩ :=
    outcome_of_first_failure subject plan .init schedule (by decide) hended
  obtain ⟨-, herror, habandoned, -⟩ := hfailed 0 (.refused 0) hfirst
  exact ⟨hended, hendings, hnodes, herror hbehind, habandoned.dropped⟩

end AtomicFifo.Round

import AtomicFifo.Proofs.Crowd.Marking
import AtomicFifo.Proofs.Options.CommandLine
import AtomicFifo.Stress.Staging
import Mathlib.Data.List.Basic
import Mathlib.Data.Nat.Find

/-!
# The rounds of a stress test

A test plays its rounds in order and stops at the first that does not pass; no round behind it is
played, and how it went is how the test ends. So a round that has failed is never hidden by
another one. A test that has no producers or no consumers does not get as far as a first round.

All this is a matter of what the rounds come to, whatever that is (`SettledBy`). Each round has a
fresh queue of the flavor under test, and this shows in what the test reports (`Reported`). The
rounds of the program are such rounds, and what it tells is what its test tells, as far as the log
filter lets it through (`Performs`).

* `Staging.marks_play`  the stages that a round reports
* `rounds_of_passed`    rounds that pass are told one after the other
* `rounds_stop`         a round that does not pass is the last
* `StoppedAt`           a test whose round `k` is the first that does not pass
* `test_stops_at_first_failure`   the whole test, however its rounds go, and the program
-/

namespace AtomicFifo

universe u v

/-! ### The stages of a round -/

section Marks

variable {σ : Type u} {κ : Type v} {subject : Subject σ κ}

/-- Neither the calls of a queue report stages of a test nor does its release. -/
structure Subject.Unmarked (subject : Subject σ κ) : Prop where
  step : ∀ queue call, ∀ event ∈ (subject.step queue call).event, event.mark? = none
  release : ∀ queue outcome events, subject.release queue = some (outcome, events) →
    ∀ event ∈ events, event.mark? = none

/-- A call reports nothing but that there is no memory. -/
private theorem Call.mark?_event? {α : Type u} {grant : Grant} {size : Word} {call : Call α}
    {event : Event} (h : event ∈ call.event? grant size) : event.mark? = none := by
  unfold Call.event? at h
  split at h
  · split at h <;> cases h
    rfl
  · cases h

/-- A release reports nothing but itself. -/
private theorem Queue.mark?_released {left : Option Nat} {outcome : Except Panic Unit}
    {events : List Event} (h : left.map Queue.released = some (outcome, events)) :
    ∀ event ∈ events, event.mark? = none := by
  obtain ⟨n, -, hn⟩ := Option.map_eq_some_iff.1 h
  unfold Queue.released at hn
  split at hn <;> cases hn
  · intro event hmem
    cases List.mem_singleton.1 hmem
    rfl
  · simp

/-- A linked queue emits no marks. -/
private theorem Subject.Unmarked.linked {α : Type u} (f : Facade Word α) :
    (Subject.linked f).Unmarked where
  step _ _ _ h := by cases h
  release _ _ _ h := Queue.mark?_released h

/-- A step of the linked queue within a queue with faults reports what the linked queue does. -/
private theorem Faulty.mark?_stepInner {α : Type u} {unwrap : α → Word} {grant : Grant}
    {again : Call α → FaultyCall α} {s : Faulty α} {call : Call α} {event : Event}
    (h : event ∈ (Faulty.stepInner unwrap grant again s call).event) : event.mark? = none := by
  unfold Faulty.stepInner at h
  split at h
  split at h <;> exact Call.mark?_event? h

/-- A step of a queue with faults emits no marks. -/
private theorem Faulty.mark?_step {α : Type u} {f : Facade Word α} {faults : Faults} {s : Faulty α}
    {call : FaultyCall α} {event : Event} (h : event ∈ (Faulty.step f faults s call).event) :
    event.mark? = none := by
  -- By the call; each of its events is one of the linked queue.
  cases call with
  | pushing call | starving call | probing call => exact mark?_stepInner h
  | failing => cases h
  | polling =>
    simp only [Faulty.step] at h
    split at h
    · cases h
    · split at h <;> cases h
  | popping call =>
    -- The event is that of the linked queue, or left out where a tag is delivered.
    simp only [Faulty.step] at h
    split at h
    · rename_i hinner
      split at h
      · exact mark?_stepInner (by rw [hinner]; exact h)
      · split at h
        · exact mark?_stepInner (by rw [hinner]; exact h)
        · cases h
    · exact mark?_stepInner h
  | replacing call =>
    simp only [Faulty.step] at h
    split at h
    · cases h
    · exact mark?_stepInner h

/-- A queue with faults emits no marks. -/
private theorem Subject.Unmarked.faulty {α : Type u} (f : Facade Word α) (faults : Faults)
    (size : Word) : (Faulty.subject f faults size).Unmarked where
  step _ _ _ h := Faulty.mark?_step h
  release _ _ _ h := Queue.mark?_released h

/-- Events that are no marks have no marks among them. -/
private theorem filterMap_mark?_of_unmarked {events : List Event}
    (h : ∀ event ∈ events, event.mark? = none) : events.filterMap Event.mark? = [] :=
  List.filterMap_eq_nil_iff.2 h

/-- The threads of a crowd report no stages. -/
private theorem Crowd.mark?_log {f : Fifo σ κ} {crowd : Crowd σ κ} (h : crowd.Logged f)
    (hstep : ∀ queue call, ∀ event ∈ (f.step queue call).event, event.mark? = none) :
    crowd.log.reverse.filterMap Event.mark? = [] := by
  apply filterMap_mark?_of_unmarked
  intro event hmem
  obtain ⟨consumer, items, rfl⟩ | ⟨queue, call, hcall⟩ := h event (List.mem_reverse.1 hmem)
  · rfl
  · exact hstep queue call event hcall

/-- The one stage that a round reports is that it has passed, and it does exactly if it has. -/
def RoundReport.Honest (r : RoundReport) : Prop :=
  r.events.filterMap Event.mark? = if r.outcome = .passed then [.finished] else []

/-- The verification reports its success and the release of the queue. -/
private theorem Round.honest_verify (h : subject.Unmarked) (total : Word) (queue : σ)
    (tags : List Word) : (Round.verify subject total queue tags).Honest := by
  unfold Round.verify
  split
  case h_1 => rfl
  case h_2 => rfl
  case h_3 left _ =>
    cases hleft : subject.release left with
    | none => rfl
    | some released =>
      obtain ⟨outcome, events⟩ := released
      have hunmarked := filterMap_mark?_of_unmarked (h.release _ _ _ hleft)
      cases outcome with
      | error p => exact hunmarked
      | ok done =>
        -- A round that passes is marked as finished by its last event, and by no other one.
        cases Word.mul? total subject.nodeSize with
        | none => exact hunmarked
        | some memory =>
          rw [RoundReport.Honest, List.filterMap_append, hunmarked]
          rfl

/-- A whole round, whatever its threads do. -/
private theorem Round.honest_play (h : subject.Unmarked) (plan : Plan) (queue : σ)
    (schedule : List Agent) : (Round.play subject plan queue schedule).Honest := by
  unfold Round.play
  cases plan.total? with
  | none => rfl
  | some total =>
    have hlog := Crowd.mark?_log (Crowd.Logged.follow subject.toFifo plan queue schedule) h.step
    simp only [Round.conclude]
    split
    · exact hlog
    · split
      · exact hlog
      · rw [RoundReport.Honest, List.filterMap_append, hlog]
        exact Round.honest_verify h total _ _

end Marks

/-- A staged round creates one queue, and reports in the end that it has passed if it has. -/
theorem Staging.marks_play (s : Staging) (flavor : Flavor) (plan : Plan) :
    (s.play flavor plan).events.filterMap Event.mark? =
      .created :: if (s.play flavor plan).outcome = .passed then [.finished] else [] := by
  obtain ⟨wrapper, schedule⟩ := s
  -- Behind the creation of the queue come the events of the round itself.
  cases wrapper with
  | none =>
    have hhonest := Round.honest_play (.linked flavor.facade) plan .init schedule
    exact congrArg (Mark.created :: ·) hhonest
  | some wrapper =>
    obtain ⟨faults, size⟩ := wrapper
    have hhonest :=
      Round.honest_play (.faulty flavor.facade faults size) plan .init schedule
    exact congrArg (Mark.created :: ·) hhonest

namespace Stress

/-! ### One round after another -/

variable (flavor : Flavor) {play : Word → RoundReport}

/-- The first of the rounds, and the rest if it passes. -/
private theorem rounds_succ (n : Nat) (round : Word) :
    rounds flavor play (n + 1) round =
      if (play round).outcome = .passed then
        ⟨telling flavor play round ++ (rounds flavor play n (round + 1)).events,
          (rounds flavor play n (round + 1)).exit⟩
      else ⟨telling flavor play round, exitAt round (play round).outcome⟩ := by
  rw [rounds, telling]
  cases houtcome : (play round).outcome with
  | passed => rfl
  | unfinished => rfl
  | failed f => cases f <;> rfl

/-- Rounds that pass are told one after the other, and the test goes on. -/
theorem rounds_of_passed (n m i : Nat)
    (hpassed : ∀ j, i ≤ j → j < i + n → (play (UInt64.ofNat j)).outcome = .passed) :
    rounds flavor play (n + m) (UInt64.ofNat i) =
      ⟨((List.range' i n).flatMap fun j => telling flavor play (UInt64.ofNat j)) ++
          (rounds flavor play m (UInt64.ofNat (i + n))).events,
        (rounds flavor play m (UInt64.ofNat (i + n))).exit⟩ := by
  induction n generalizing i with
  | zero => simp
  | succ n ih =>
    have hrest := ih (i + 1) fun j hle hlt => hpassed j (by omega) (by omega)
    rw [show n + 1 + m = n + m + 1 by omega, rounds_succ, if_pos (hpassed i (by omega) (by omega)),
      show UInt64.ofNat i + 1 = UInt64.ofNat (i + 1) from (UInt64.ofNat_add i 1).symm, hrest,
      show i + 1 + n = i + (n + 1) by omega, List.range'_succ, List.flatMap_cons, List.append_assoc]

/-- What holds below a number of rounds, counted as words or as numbers. -/
private theorem forall_lt_iff {P : Word → Prop} (n : Word) :
    (∀ round < n, P round) ↔ ∀ j < n.toNat, P (UInt64.ofNat j) := by
  constructor
  · intro h j hj
    have hvalue : (UInt64.ofNat j).toNat = j :=
      UInt64.toNat_ofNat_of_lt (Nat.lt_trans hj n.toNat_lt)
    exact h _ (UInt64.lt_iff_toNat_lt.2 (hvalue.symm ▸ hj))
  · intro h round hround
    have := h round.toNat (UInt64.lt_iff_toNat_lt.1 hround)
    rwa [UInt64.ofNat_toNat] at this

/-- All rounds pass. -/
private theorem rounds_pass (n : Word) (hpassed : ∀ round < n, (play round).outcome = .passed) :
    rounds flavor play n.toNat 0 =
      ⟨(List.range n.toNat).flatMap fun j => telling flavor play (UInt64.ofNat j), .success⟩ := by
  have hbelow := (forall_lt_iff n).1 hpassed
  have hrounds := rounds_of_passed flavor n.toNat 0 0 fun j _ hlt => hbelow j (by omega)
  rw [List.range_eq_range']
  simpa [rounds] using hrounds

/-- A round that does not pass is the last, however many are left. -/
theorem rounds_stop {k : Word} {n : Nat} (hk : k.toNat < n)
    (hpassed : ∀ round < k, (play round).outcome = .passed)
    (hfailed : (play k).outcome ≠ .passed) :
    rounds flavor play n 0 =
      ⟨(List.range (k.toNat + 1)).flatMap fun j => telling flavor play (UInt64.ofNat j),
        exitAt k (play k).outcome⟩ := by
  obtain ⟨m, rfl⟩ : ∃ m, n = k.toNat + (m + 1) := ⟨n - k.toNat - 1, by omega⟩
  have hbelow := (forall_lt_iff k).1 hpassed
  have hrounds := rounds_of_passed flavor k.toNat (m + 1) 0 fun j _ hlt => hbelow j (by omega)
  rw [Nat.zero_add, UInt64.ofNat_toNat, rounds_succ, if_neg hfailed, ← List.range_eq_range']
    at hrounds
  rw [List.range_succ, List.flatMap_append, List.flatMap_singleton, UInt64.ofNat_toNat]
  exact hrounds

/-- If not all rounds pass, there is a first that does not. -/
private theorem exists_first_failure {n : Word} (h : ¬∀ round < n, (play round).outcome = .passed) :
    ∃ k < n, (∀ round < k, (play round).outcome = .passed) ∧ (play k).outcome ≠ .passed := by
  have hsome : ∃ j, ∃ k < n, k.toNat = j ∧ (play k).outcome ≠ .passed := by
    simp only [not_forall] at h
    obtain ⟨k, hk, hfailed⟩ := h
    exact ⟨k.toNat, k, hk, rfl, hfailed⟩
  classical
  obtain ⟨k, hk, hleast, hfailed⟩ := Nat.find_spec hsome
  refine ⟨k, hk, fun round hround => ?_, hfailed⟩
  by_contra hround_failed
  have hlt : round.toNat < Nat.find hsome := hleast ▸ UInt64.lt_iff_toNat_lt.1 hround
  exact Nat.find_min hsome hlt ⟨round, UInt64.lt_trans hround hk, rfl, hround_failed⟩

/-! ### Staged rounds -/

section Staged

variable (o : Options) (stagings : Word → Staging)

/-- The stages that a test reports of a round. -/
private theorem marks_telling (round : Word) :
    (telling o.flavor (staged o stagings) round).filterMap Event.mark? =
      [.started round o.flavor, .created] ++
        if (staged o stagings round).outcome = .passed then [.finished] else [] := by
  show Mark.started round o.flavor :: (staged o stagings round).events.filterMap Event.mark? = _
  rw [staged, Staging.marks_play]
  rfl

/-- The stages of rounds that pass. -/
private theorem marks_passed (n : Nat)
    (hpassed : ∀ j < n, (staged o stagings (UInt64.ofNat j)).outcome = .passed) :
    ((List.range n).flatMap fun j =>
        telling o.flavor (staged o stagings) (UInt64.ofNat j)).filterMap Event.mark? =
      (List.range n).flatMap fun j =>
        [.started (UInt64.ofNat j) o.flavor, .created, .finished] := by
  rw [List.filterMap_flatMap]
  apply List.flatMap_congr
  intro j hj
  rw [marks_telling, if_pos (hpassed j (List.mem_range.1 hj))]
  rfl

/-- Of rounds that pass each is finished. -/
private theorem count_finished (n : Nat) :
    ((List.range n).flatMap fun j =>
      [Mark.started (UInt64.ofNat j) flavor, .created, .finished]).count .finished = n := by
  induction n with
  | zero => rfl
  | succ n ih =>
    rw [List.range_succ, List.flatMap_append, List.count_append, ih]
    rfl

end Staged

/-! ### The whole test -/

/-- With producers and consumers a test gets as far as its rounds. -/
private theorem test_of_pos {o : Options} (hproducers : 0 < o.producers)
    (hconsumers : 0 < o.consumers) (play : Word → RoundReport) :
    test o play = rounds o.flavor play o.rounds.toNat 0 := by
  have hproducers : o.producers ≠ 0 := UInt64.pos_iff_ne_zero.1 hproducers
  have hconsumers : o.consumers ≠ 0 := UInt64.pos_iff_ne_zero.1 hconsumers
  rw [test, if_neg hproducers, if_neg hconsumers]

/-- A test whose rounds all pass. -/
private theorem test_pass {o : Options} (hproducers : 0 < o.producers)
    (hconsumers : 0 < o.consumers) {play : Word → RoundReport}
    (hpassed : ∀ round < o.rounds, (play round).outcome = .passed) :
    test o play =
      ⟨(List.range o.rounds.toNat).flatMap fun j => telling o.flavor play (UInt64.ofNat j),
        .success⟩ := by
  rw [test_of_pos hproducers hconsumers]
  exact rounds_pass o.flavor _ hpassed

/-- A test whose round `k` is the first that does not pass. -/
private theorem test_stop {o : Options} (hproducers : 0 < o.producers)
    (hconsumers : 0 < o.consumers) {play : Word → RoundReport} {k : Word} (hk : k < o.rounds)
    (hpassed : ∀ round < k, (play round).outcome = .passed)
    (hfailed : (play k).outcome ≠ .passed) :
    test o play =
      ⟨(List.range (k.toNat + 1)).flatMap fun j => telling o.flavor play (UInt64.ofNat j),
        exitAt k (play k).outcome⟩ := by
  rw [test_of_pos hproducers hconsumers]
  exact rounds_stop o.flavor (UInt64.lt_iff_toNat_lt.1 hk) hpassed hfailed

/-- A round that does not pass is no success. -/
private theorem exitAt_ne_success {round : Word} {outcome : Outcome} (h : outcome ≠ .passed) :
    exitAt round outcome ≠ .success := by
  cases outcome with
  | passed => exact absurd rfl h
  | unfinished => simp [exitAt]
  | failed f => cases f <;> simp [exitAt]

/-- What is to be seen of a test whose round `k` is the first that does not pass. -/
structure StoppedAt (o : Options) (play : Word → RoundReport) (k : Word) : Prop where
  /-- The rounds up to this one are told, in order, and nothing else is. -/
  events : (test o play).events =
    (List.range (k.toNat + 1)).flatMap fun j => telling o.flavor play (UInt64.ofNat j)
  /-- The error of the test is that of the round, behind the number of the round. -/
  error : ∀ e, (play k).outcome = .failed (.error e) → (test o play).exit =
    .failed ⟨"round " ++ k.toDecimal ++ " failed", e.chain.error :: e.chain.causes⟩
  panic : ∀ p, (play k).outcome = .failed (.panic p) → (test o play).exit = .panicked p
  unfinished : (play k).outcome = .unfinished → (test o play).exit = .unfinished
  /-- What the rounds behind it would have come to does not matter. -/
  later : ∀ others, (∀ round ≤ k, others round = play round) → test o others = test o play

/-- What is told of a round is up to that round. -/
private theorem telling_congr {play others : Word → RoundReport} {k : Word}
    (h : ∀ round ≤ k, others round = play round) {j : Nat} (hj : j < k.toNat + 1) :
    telling flavor others (UInt64.ofNat j) = telling flavor play (UInt64.ofNat j) := by
  have hvalue : (UInt64.ofNat j).toNat = j :=
    UInt64.toNat_ofNat_of_lt (Nat.lt_of_le_of_lt (Nat.le_of_lt_succ hj) k.toNat_lt)
  have hle : UInt64.ofNat j ≤ k := UInt64.le_iff_toNat_le.2 (by omega)
  rw [telling, telling, h _ hle]

/-- A test stops at the first round that does not pass. -/
private theorem stoppedAt {o : Options} (hproducers : 0 < o.producers)
    (hconsumers : 0 < o.consumers) {play : Word → RoundReport} {k : Word} (hk : k < o.rounds)
    (hpassed : ∀ round < k, (play round).outcome = .passed)
    (hfailed : (play k).outcome ≠ .passed) : StoppedAt o play k := by
  have htest := test_stop hproducers hconsumers hk hpassed hfailed
  constructor
  case events => rw [htest]
  case error =>
    intro e he
    rw [htest, he]
    rfl
  case panic =>
    intro p hp
    rw [htest, hp]
    rfl
  case unfinished =>
    intro hu
    rw [htest, hu]
    rfl
  case later =>
    intro others hothers
    -- The other test stops at the same round, with the same told before.
    have hat := hothers k (UInt64.le_refl k)
    have hothers_passed : ∀ round < k, (others round).outcome = .passed := by
      intro round hround
      rw [hothers round (UInt64.le_of_lt hround)]
      exact hpassed round hround
    have hothers_failed : (others k).outcome ≠ .passed := by
      rw [hat]
      exact hfailed
    rw [htest, test_stop hproducers hconsumers hk hothers_passed hothers_failed, hat]
    congr 1
    apply List.flatMap_congr
    intro j hj
    exact telling_congr o.flavor hothers (List.mem_range.1 hj)

/-- How a test is settled by what its rounds come to. -/
structure SettledBy (o : Options) (play : Word → RoundReport) : Prop where
  /-- It succeeds if there are producers and consumers and all rounds pass. -/
  success_iff : (test o play).exit = .success ↔ 0 < o.producers ∧ 0 < o.consumers ∧
    ∀ round < o.rounds, (play round).outcome = .passed
  /-- Without producers, or else without consumers, it fails at once, before anything is told. -/
  no_producers : o.producers = 0 →
    test o play = ⟨[], .failed (.single "producers must not be zero")⟩
  no_consumers : 0 < o.producers → o.consumers = 0 →
    test o play = ⟨[], .failed (.single "consumers must not be zero")⟩
  passed : 0 < o.producers → 0 < o.consumers →
    (∀ round < o.rounds, (play round).outcome = .passed) → (test o play).events =
      (List.range o.rounds.toNat).flatMap fun j => telling o.flavor play (UInt64.ofNat j)
  stopped : 0 < o.producers → 0 < o.consumers →
    ∀ k < o.rounds, (∀ round < k, (play round).outcome = .passed) →
      (play k).outcome ≠ .passed → StoppedAt o play k

/-- How the test ends is settled by how its rounds end. -/
private theorem settledBy (o : Options) (play : Word → RoundReport) : SettledBy o play := by
  have hone : o.producers = 0 →
      test o play = ⟨[], .failed (.single "producers must not be zero")⟩ := by
    intro h
    rw [test, if_pos h]
  have htwo : 0 < o.producers → o.consumers = 0 →
      test o play = ⟨[], .failed (.single "consumers must not be zero")⟩ := by
    intro hproducers h
    rw [test, if_neg (UInt64.pos_iff_ne_zero.1 hproducers), if_pos h]
  constructor
  case no_producers => exact hone
  case no_consumers => exact htwo
  case passed =>
    intro hproducers hconsumers hpassed
    rw [test_pass hproducers hconsumers hpassed]
  case stopped =>
    exact fun hproducers hconsumers k hk hpassed hfailed =>
      stoppedAt hproducers hconsumers hk hpassed hfailed
  -- The test succeeds only where every round does.
  case success_iff =>
    constructor
    · intro hsuccess
      have hproducers : 0 < o.producers := by
        rw [UInt64.pos_iff_ne_zero]
        intro h
        rw [hone h] at hsuccess
        cases hsuccess
      have hconsumers : 0 < o.consumers := by
        rw [UInt64.pos_iff_ne_zero]
        intro h
        rw [htwo hproducers h] at hsuccess
        cases hsuccess
      refine ⟨hproducers, hconsumers, ?_⟩
      -- Else there is a first round that does not pass, and the test ends as this one does.
      by_contra hall
      obtain ⟨k, hk, hpassed, hfailed⟩ := exists_first_failure hall
      rw [test_stop hproducers hconsumers hk hpassed hfailed] at hsuccess
      exact exitAt_ne_success hfailed hsuccess
    · rintro ⟨hproducers, hconsumers, hpassed⟩
      rw [test_pass hproducers hconsumers hpassed]

/-- The stages that a test reports whose rounds are staged, each on a fresh queue. -/
structure Reported (o : Options) (stagings : Word → Staging) : Prop where
  /-- Each of the rounds that pass has begun, has created a queue, and is finished. -/
  passed : 0 < o.producers → 0 < o.consumers →
    (∀ round < o.rounds, (staged o stagings round).outcome = .passed) →
      (test o (staged o stagings)).events.filterMap Event.mark? =
        (List.range o.rounds.toNat).flatMap fun j =>
          [.started (UInt64.ofNat j) o.flavor, .created, .finished]
  /-- The first round that does not pass has begun, and has created a queue, and so have the rounds
  before it; these are finished. -/
  stopped : 0 < o.producers → 0 < o.consumers →
    ∀ k < o.rounds, (∀ round < k, (staged o stagings round).outcome = .passed) →
      (staged o stagings k).outcome ≠ .passed →
        (test o (staged o stagings)).events.filterMap Event.mark? =
          ((List.range k.toNat).flatMap fun j =>
            [.started (UInt64.ofNat j) o.flavor, .created, .finished]) ++
              [.started k o.flavor, .created] ∧
        ((test o (staged o stagings)).events.filterMap Event.mark?).count .finished = k.toNat

/-- The marks of a test are those of its rounds up to the one that it stops at. -/
private theorem reported (o : Options) (stagings : Word → Staging) : Reported o stagings := by
  constructor
  case passed =>
    intro hproducers hconsumers hpassed
    rw [test_pass hproducers hconsumers hpassed]
    exact marks_passed o stagings _ ((forall_lt_iff _).1 hpassed)
  case stopped =>
    intro hproducers hconsumers k hk hpassed hfailed
    -- The rounds before have all their marks; this one is started and created, but not finished.
    have hmarks : (test o (staged o stagings)).events.filterMap Event.mark? =
        ((List.range k.toNat).flatMap fun j =>
          [.started (UInt64.ofNat j) o.flavor, .created, .finished]) ++
            [.started k o.flavor, .created] := by
      rw [test_stop hproducers hconsumers hk hpassed hfailed, List.range_succ,
        List.flatMap_append, List.filterMap_append,
        marks_passed o stagings k.toNat ((forall_lt_iff k).1 hpassed), List.flatMap_singleton,
        UInt64.ofNat_toNat, marks_telling, if_neg hfailed, List.append_nil]
    refine ⟨hmarks, ?_⟩
    rw [hmarks, List.count_append, count_finished]
    rfl

/-! ### The program -/

/-- The rounds of the program are staged. -/
private theorem exists_staging (flavor : Flavor) (plan : Plan) (wrapper : Option (Faults × Word)) :
    ∃ s : Staging, s.wrapper = wrapper ∧
      Round.ofFlavor flavor plan wrapper = s.play flavor plan := by
  -- The threads of the program run on some schedule, which is that of the staging.
  cases wrapper with
  | none =>
    obtain ⟨schedule, h⟩ := Round.run_eq_play (.linked flavor.facade) plan .init
    refine ⟨⟨none, schedule⟩, rfl, ?_⟩
    simp only [Round.ofFlavor, Staging.play, h]
  | some wrapper =>
    obtain ⟨faults, size⟩ := wrapper
    obtain ⟨schedule, h⟩ := Round.run_eq_play (Faulty.subject flavor.facade faults size) plan .init
    refine ⟨⟨some (faults, size), schedule⟩, rfl, ?_⟩
    simp only [Round.ofFlavor, Staging.play, h]

/-- Rounds begin and end with information; only the creation of a queue is less important. -/
private theorem level_of_mark? {event : Event} {mark : Mark} (h : event.mark? = some mark)
    (hmark : mark ≠ .created) : event.level = .info := by
  cases event with
  | started | finished => rfl
  | initialized =>
    cases h
    exact absurd rfl hmark
  | allocationFailed | released | drained => cases h

/-- A filter that lets information through leaves out no stage but the creations of queues. -/
private theorem marks_lets {f : LogFilter}
    (hinfo : ∀ event : Event, event.level = .info → f.lets event) (events : List Event) :
    ((events.filter f.lets).filterMap Event.mark?).filter (· ≠ .created) =
      (events.filterMap Event.mark?).filter (· ≠ .created) := by
  rw [List.filterMap_filter, List.filter_filterMap, List.filter_filterMap]
  apply List.filterMap_congr
  intro event _
  cases hmark : event.mark? with
  | none => simp
  | some mark =>
    by_cases hcreated : mark = .created
    · subst hcreated
      split <;> rfl
    · rw [if_pos (hinfo event (level_of_mark? hmark hcreated))]

/-- The program does what a test with staged rounds does, as far as the log filter shows it. -/
structure Performs (tokens : List String) (filter : String) (o : Options) (f : LogFilter)
    (stagings : Word → Staging) : Prop where
  /-- The rounds are those of the program, each on a queue without faults. -/
  wrapper : ∀ round, (stagings round).wrapper = none
  rounds : ∀ round, Round.ofFlavor o.flavor (plan o) none = staged o stagings round
  run_eq : run tokens filter = ⟨(LogFilter.read filter).warnings,
    (test o (staged o stagings)).events.filter f.lets, (test o (staged o stagings)).exit⟩
  /-- If information is let through, the beginnings and the ends of all rounds show. -/
  info : (∀ event : Event, event.level = .info → f.lets event) →
    ((run tokens filter).events.filterMap Event.mark?).filter (· ≠ .created) =
      ((test o (staged o stagings)).events.filterMap Event.mark?).filter (· ≠ .created)

/-- The program performs a test of staged rounds. -/
private theorem exists_performs {tokens : List String} {filter : String} {o : Options}
    {f : LogFilter} (hparse : Options.parse tokens = .ok o)
    (hfilter : (LogFilter.read filter).filter = .ok f) :
    ∃ stagings, Performs tokens filter o f stagings := by
  -- Every round of the program goes on its own queue, so one staging stands for all.
  obtain ⟨s, hwrapper, hs⟩ := exists_staging o.flavor (plan o) none
  have hrun : run tokens filter = ⟨(LogFilter.read filter).warnings,
      (test o (staged o fun _ => s)).events.filter f.lets,
      (test o (staged o fun _ => s)).exit⟩ := by
    simp only [run, hparse, hfilter, hs]
    rfl
  refine ⟨fun _ => s, fun _ => hwrapper, fun _ => hs, hrun, fun hinfo => ?_⟩
  rw [hrun]
  exact marks_lets hinfo _

/-- What a test comes to, however its rounds go, and that the program is such a test.

Whatever the rounds come to, the test succeeds if there are producers and consumers and all rounds
pass. Without producers, or else without consumers, it fails at once: no round is started and no
queue is created. If round `k` is the first that does not pass, the rounds up to it are started,
and its outcome is that of the test: its error with the number of the round in front, or its panic.
However the rounds are staged, on fresh queues of the flavor, each that is started creates one
queue, and those before round `k` are finished and no others. And the program, if it can read its
options and its log filter, tells what a test with staged rounds tells, and ends as it does. -/
theorem test_stops_at_first_failure (o : Options) :
    (∀ play, SettledBy o play) ∧ (∀ stagings, Reported o stagings) ∧
    ∀ tokens filter f, Options.parse tokens = .ok o → (LogFilter.read filter).filter = .ok f →
      ∃ stagings, Performs tokens filter o f stagings :=
  ⟨settledBy o, reported o, fun _ _ _ => exists_performs⟩

/-- The log filter of nobody who has set one. -/
private theorem read_empty : (LogFilter.read "").filter = .ok ⟨[]⟩ := by
  have hparts : "".splitOn "," = [""] := by
    unfold String.splitOn
    rw [if_neg (by decide)]
    unfold String.splitOnAux
    rw [if_pos (by decide)]
    rfl
  rw [LogFilter.read, hparts]
  rfl

/-- Three rounds of one item; in the second one there is no memory for it. The program is asked for
as many rounds as the test. -/
theorem test_stops_at_first_failure_starved :
    let o : Options := ⟨1, 1, 1, 3, .ptr⟩
    let schedule : List Agent :=
      List.replicate 10 (.producer 0) ++ [.main, .main] ++ List.replicate 16 (.consumer 0)
    let faults : Faults := ⟨some 0, none, none, none, none, none, none, none, none⟩
    let stagings : Word → Staging := fun round =>
      ⟨if round = 1 then some (faults, Queue.nodeSize) else none, schedule⟩
    StoppedAt o (staged o stagings) 1 ∧
    (test o (staged o stagings)).exit =
      .failed ((Subject.noMemory 0).context ("round " ++ Word.toDecimal 1 ++ " failed")) ∧
    (test o (staged o stagings)).events.filterMap Event.mark? =
      [.started 0 .ptr, .created, .finished, .started 1 .ptr, .created] ∧
    ∃ stagings, Performs o.render "" o ⟨[]⟩ stagings := by
  intro o schedule faults stagings
  have hfailed : (staged o stagings 1).outcome = .failed (.error (.push (Subject.noMemory 0))) := by
    decide +kernel
  -- There is one round before, and it passes.
  have hpassed : ∀ round < (1 : Word), (staged o stagings round).outcome = .passed := by
    intro round hround
    have hzero : round = 0 := UInt64.lt_one_iff.1 hround
    subst hzero
    decide +kernel
  have hne : (staged o stagings 1).outcome ≠ .passed := by rw [hfailed]; simp
  have hparse : Options.parse o.render = .ok o :=
    (Options.spelled_render o).parse_eq_ok_iff.2 (Options.chosen_settings o)
  obtain ⟨hsettled, hreported, hprogram⟩ := test_stops_at_first_failure o
  have hstopped : StoppedAt o (staged o stagings) 1 :=
    (hsettled _).stopped (by decide) (by decide) 1 (by decide) hpassed hne
  obtain ⟨hmarks, -⟩ :=
    (hreported stagings).stopped (by decide) (by decide) 1 (by decide) hpassed hne
  exact ⟨hstopped, hstopped.error _ hfailed, hmarks, hprogram _ _ _ hparse read_empty⟩

end Stress

end AtomicFifo

import AtomicFifo.Proofs.Crowd.Journal
import AtomicFifo.Proofs.Round.Naming
import Mathlib.Data.Set.Function

/-!
# Rounds at the end of the word

A round multiplies twice. Before it does anything, it multiplies the producers with their items,
and where this is no word it panics without a thread and without a touch of the queue. Where it is
one, every tag is a word as well, and the tags are the words below the total, each of them the tag
of one enqueue.

When everything is over, a round multiplies the total with the size of a node, only to report the
memory. This may panic too, on a queue that is released already. It cannot on a linked queue, whose
nodes have two words each: the list of the tags, with one word each, would have been too long.

* `Plan.Numbers`          the tags of a plan, as numbers
* `Crowd.Pushes`          the tags that a crowd asks for, on any queue and after any schedule
* `Reports`               a round that comes to its report
* `conclude_overflow_iff` the panic of the report
* `Products`, `play_overflow`   both products of a round
-/

namespace AtomicFifo

universe u v w

variable {σ : Type u} {κ : Type v}

/-! ### The tags -/

/-- The number of all tags is a word, no tag overflows, and producer and number stand for the tags
below the total one for one, as many as the table of the verification has places. -/
structure Plan.Numbers (plan : Plan) (total : Word) : Prop where
  total?_eq : plan.total? = some total
  toNat_total : total.toNat = plan.producers.toNat * plan.items.toNat
  exact : ∀ p < plan.producers, ∀ i < plan.items, ∃ tag, plan.tag? p i = some tag ∧
    tag.toNat = p.toNat * plan.items.toNat + i.toNat
  bijOn : Set.BijOn (fun x : Word × Word => plan.tag? x.1 x.2)
    {x | x.1 < plan.producers ∧ x.2 < plan.items} (some '' {tag | tag < total})
  slots : (Verification.table total []).size = total.toNat

/-- Where the total fits a word, every tag is computed. -/
private theorem Plan.Fits.tag?_eq_some {plan : Plan} (hfits : plan.Fits) {p i : Word}
    (hp : p < plan.producers) (hi : i < plan.items) :
    plan.tag? p i = some (plan.tag p.toNat i.toNat) := by
  have h := hfits.tag?_eq (UInt64.lt_iff_toNat_lt.1 hp) (UInt64.lt_iff_toNat_lt.1 hi)
  rwa [UInt64.ofNat_toNat] at h

/-- Where the total fits a word, the tags number the items. -/
private theorem Plan.Fits.numbers {plan : Plan} (hfits : plan.Fits) :
    ∃ total, plan.Numbers total := by
  obtain ⟨total, htotal, htotal_eq⟩ := Word.exists_mul?_eq_some hfits
  refine ⟨total, htotal, htotal_eq, fun p hp i hi => ?_, ⟨?_, ?_, ?_⟩, Verification.size_table ..⟩
  · exact ⟨_, hfits.tag?_eq_some hp hi,
      hfits.toNat_tag (UInt64.lt_iff_toNat_lt.1 hp) (UInt64.lt_iff_toNat_lt.1 hi)⟩
  · -- Each tag is below the total.
    rintro ⟨p, i⟩ ⟨hp, hi⟩
    have hpn := UInt64.lt_iff_toNat_lt.1 hp
    have hin := UInt64.lt_iff_toNat_lt.1 hi
    refine ⟨_, ?_, (hfits.tag?_eq_some hp hi).symm⟩
    show plan.tag p.toNat i.toNat < total
    rw [UInt64.lt_iff_toNat_lt, hfits.toNat_tag hpn hin, htotal_eq]
    exact place_lt hpn hin
  · -- A tag tells its producer and its number.
    rintro ⟨p, i⟩ ⟨hp, hi⟩ ⟨q, j⟩ ⟨hq, hj⟩ heq
    have htags : plan.tag p.toNat i.toNat = plan.tag q.toNat j.toNat :=
      Option.some.inj ((hfits.tag?_eq_some hp hi).symm.trans
        (heq.trans (hfits.tag?_eq_some hq hj)))
    obtain ⟨hpq, hij⟩ := hfits.tag_inj (UInt64.lt_iff_toNat_lt.1 hp)
      (UInt64.lt_iff_toNat_lt.1 hi) (UInt64.lt_iff_toNat_lt.1 hq) (UInt64.lt_iff_toNat_lt.1 hj)
      htags
    exact Prod.ext (UInt64.toNat.inj hpq) (UInt64.toNat.inj hij)
  · -- Quotient and remainder say whose tag a word is, and both are words.
    rintro _ ⟨tag, hlt, rfl⟩
    obtain ⟨p, hp, n, hn, rfl⟩ := exists_tag_eq (htotal_eq ▸ UInt64.lt_iff_toNat_lt.1 hlt)
    have hpn : (UInt64.ofNat p).toNat = p :=
      UInt64.toNat_ofNat_of_lt (Nat.lt_trans hp plan.producers.toNat_lt)
    have hnn : (UInt64.ofNat n).toNat = n :=
      UInt64.toNat_ofNat_of_lt (Nat.lt_trans hn plan.items.toNat_lt)
    refine ⟨(UInt64.ofNat p, UInt64.ofNat n), ⟨?_, ?_⟩, ?_⟩
    · rwa [UInt64.lt_iff_toNat_lt, hpn]
    · rwa [UInt64.lt_iff_toNat_lt, hnn]
    · show plan.tag? (UInt64.ofNat p) (UInt64.ofNat n) = _
      rw [hfits.tag?_eq hp (hnn.symm ▸ hn), hnn]

/-- What the producers of a crowd ask for, whatever its queue does: `watched` is the crowd with a
journal, which nobody notices. A producer that is not through with its tags begins its next
enqueue; no tag has been asked for twice, and none from the total on; and once all producers have
ended normally, every tag has been asked for. -/
structure Crowd.Pushes (f : Fifo σ κ) (plan : Plan) (total : Word) (crowd : Crowd σ κ)
    (watched : Crowd (σ × List Word) (Journaling κ)) : Prop where
  unnoticed : watched.forget f = crowd
  begins : ∀ (p : Nat) (x : Producer κ), crowd.producers[p]? = some x → x.phase = .ready →
    x.pushed ≠ plan.items → ∃ tag < total, tag.toNat = p * plan.items.toNat + x.pushed.toNat ∧
      beginPush f plan p x = { x with phase := .pushing (f.start (.enqueue tag)) }
  nodup : watched.queue.2.Nodup
  lt : ∀ tag ∈ watched.queue.2, tag < total
  perm : (∀ (p : Nat) (x : Producer κ), crowd.producers[p]? = some x →
    x.phase = .ended .completed) → watched.queue.2.Perm (Verification.tagsBelow total.toNat)

namespace Crowd

variable {f : Fifo σ κ} {plan : Plan} {total : Word}
  {watched : Crowd (σ × List Word) (Journaling κ)} {written : Nat → Nat}

/-- A producer of the crowd with the journal, as the crowd without it has it. -/
private theorem getElem?_forget {p : Nat} {y : Producer (Journaling κ)}
    (h : watched.producers[p]? = some y) :
    (watched.forget f).producers[p]? = some (y.forget f) := by
  simp [forget, h]

/-- A producer without its journal is one with a journal. -/
private theorem exists_of_getElem?_forget {p : Nat} {x : Producer κ}
    (h : (watched.forget f).producers[p]? = some x) :
    ∃ y, watched.producers[p]? = some y ∧ y.forget f = x := by
  simpa [forget] using h

/-- A producer that is not through with its tags begins its next enqueue. -/
private theorem Recorded.begins (h : watched.Recorded plan written) (hfits : plan.Fits) {p : Nat}
    {y : Producer (Journaling κ)} (hy : watched.producers[p]? = some y)
    (hready : (y.forget f).phase = .ready) (hmore : y.pushed ≠ plan.items) :
    p < plan.producers.toNat ∧ y.pushed.toNat < plan.items.toNat ∧
      beginPush f plan p (y.forget f) =
        { y.forget f with phase := .pushing (f.start (.enqueue (plan.tag p y.pushed.toNat))) } := by
  have hp : p < plan.producers.toNat := h.size ▸ (Array.getElem?_eq_some_iff.1 hy).1
  -- The journal changes no phase, so the producer is ready with it, too.
  have hphase : y.phase = .ready := by
    revert hready
    cases hy : y.phase <;> simp [Producer.forget, hy]
  obtain ⟨hle, hwrites⟩ := h.producer hy
  rw [hphase] at hwrites
  have hlt : y.pushed.toNat < plan.items.toNat :=
    Word.toNat_lt_of_ne (hwrites ▸ hle) hmore
  have hmore' : (y.forget f).pushed ≠ plan.items := hmore
  have htag : plan.tag? (UInt64.ofNat p) (y.forget f).pushed = _ := hfits.tag?_eq hp hlt
  rw [beginPush, if_neg hmore', htag]
  exact ⟨hp, hlt, rfl⟩

/-- What the journal says is what the producers push. -/
private theorem Recorded.pushes (h : watched.Recorded plan written) (hfits : plan.Fits)
    (htotal : total.toNat = plan.producers.toNat * plan.items.toNat) :
    Pushes f plan total (watched.forget f) watched := by
  refine ⟨rfl, fun p x hx hready hmore => ?_, h.nodup, fun tag hmem => ?_, fun hall => ?_⟩
  · obtain ⟨y, hy, rfl⟩ := exists_of_getElem?_forget hx
    obtain ⟨hp, hlt, hbegin⟩ := h.begins hfits hy hready hmore
    have hnat := hfits.toNat_tag hp hlt
    refine ⟨_, ?_, hnat, hbegin⟩
    rw [UInt64.lt_iff_toNat_lt, hnat, htotal]
    exact Plan.place_lt hp hlt
  · rw [UInt64.lt_iff_toNat_lt, htotal]
    exact h.toNat_lt hfits hmem
  · -- All producers have ended normally, with their journals as without.
    refine h.perm hfits htotal fun p y hy => ?_
    have hphase := hall p _ (getElem?_forget hy)
    revert hphase
    cases hy' : y.phase <;> simp [Producer.forget, hy']

end Crowd

namespace Round

variable {subject : Subject σ κ} {crowd : Crowd σ κ} {total : Word} {left : σ}
  {events : List Event}

/-! ### The report -/

/-- The round comes to its report: all its threads have ended normally, the tags taken are in a
list, the verification has found nothing wrong, and `left`, which it has left of the queue, is
released with these events. -/
structure Reports (subject : Subject σ κ) (total : Word) (crowd : Crowd σ κ) (left : σ)
    (events : List Event) : Prop where
  ended : crowd.ended = true
  completed : ∀ e ∈ endings crowd, e = .completed
  allocated : allocatable total = true
  verified : inspect subject total crowd.queue (taken crowd) = some (left, .ok ())
  released : subject.release left = some (.ok (), events)

/-- Where everything has been verified, the round ends with its report, or with the product in it.
-/
private theorem Reports.conclude_eq (h : Reports subject total crowd left events) :
    conclude subject total crowd =
      match Word.mul? total subject.nodeSize with
      | none => ⟨⟨.failed (.panic .multiplyOverflow), crowd.log.reverse ++ events⟩, none⟩
      | some memory =>
        ⟨⟨.passed, crowd.log.reverse ++ (events ++ [.finished total memory])⟩, none⟩ := by
  rw [conclude_completed h.ended h.completed h.allocated, verify, h.verified]
  simp only [h.released]
  cases Word.mul? total subject.nodeSize <;> rfl

/-- A round that does not come to its report never asks for the size of a node. If it panics
because a product does not fit a word, the release has done so. -/
private theorem conclude_unreported (h : ¬ ∃ left events, Reports subject total crowd left events) :
    (∀ size, conclude { subject with nodeSize := size } total crowd =
      conclude subject total crowd) ∧
    ((conclude subject total crowd).outcome = .failed (.panic .multiplyOverflow) →
      ∃ left events, subject.release left = some (.error .multiplyOverflow, events)) := by
  unfold conclude
  cases hended : crowd.ended with
  | false => simp
  | true =>
    cases hjoin : join subject.refusal (producerEndings crowd) (consumerEndings crowd) total with
    | error failure =>
      have hne : failure ≠ .panic .multiplyOverflow := by
        rintro rfl
        exact join_ne_multiplyOverflow hjoin
      simp [hjoin, hne]
    | ok =>
      obtain ⟨hcompleted, hallocated⟩ := join_eq_ok_iff.1 hjoin
      have hinspect : ∀ size, inspect { subject with nodeSize := size } total crowd.queue
          (taken crowd) = inspect subject total crowd.queue (taken crowd) := fun _ => rfl
      simp only [hjoin, verify, hinspect]
      cases hfound : inspect subject total crowd.queue (taken crowd) with
      | none => simp
      | some found =>
        obtain ⟨left, result⟩ := found
        cases result with
        | error v => simp
        | ok =>
          cases hrelease : subject.release left with
          | none => simp [hrelease]
          | some released =>
            obtain ⟨result, events⟩ := released
            cases result with
            | error p =>
              refine ⟨fun _ => by simp [hrelease], fun hpanic => ⟨left, events, ?_⟩⟩
              obtain rfl : p = .multiplyOverflow := by simpa [hrelease] using hpanic
              exact hrelease
            -- Here the round comes to its report, as it was said not to.
            | ok => exact absurd ⟨left, events, hended, hcompleted, hallocated, hfound, hrelease⟩ h

/-- The panic of the report, for a queue whose release does not panic in the same way: it comes
exactly in the rounds that come to their report, with a product that is no word. -/
theorem conclude_overflow_iff
    (hrelease : ∀ left events, subject.release left ≠ some (.error .multiplyOverflow, events)) :
    (conclude subject total crowd).outcome = .failed (.panic .multiplyOverflow) ↔
      (∃ left events, Reports subject total crowd left events) ∧
        2 ^ 64 ≤ total.toNat * subject.nodeSize.toNat := by
  -- Without a report no product is computed, so another panic would have to be the release's.
  by_cases h : ∃ left events, Reports subject total crowd left events
  · obtain ⟨left, events, hreports⟩ := h
    have hover : Word.mul? total subject.nodeSize = none ↔
        2 ^ 64 ≤ total.toNat * subject.nodeSize.toNat := Word.mul?_eq_none
    rw [hreports.conclude_eq, ← hover]
    cases hmul : Word.mul? total subject.nodeSize with
    | none => simpa using ⟨left, events, hreports⟩
    | some memory => simp
  · refine ⟨fun hpanic => ?_, fun hover => absurd hover.1 h⟩
    obtain ⟨left, events, heq⟩ := (conclude_unreported h).2 hpanic
    exact absurd heq (hrelease left events)

/-- The release of a linked queue panics if the queue is not empty, and in no other way. -/
private theorem release_linked_ne {α : Type w} (f : Facade Word α) (left : Shared α)
    (events : List Event) :
    (Subject.linked f).release left ≠ some (.error .multiplyOverflow, events) := by
  show left.nodeCount?.map Queue.released ≠ _
  intro h
  obtain ⟨nodes, -, hreleased⟩ := Option.map_eq_some_iff.1 h
  unfold Queue.released at hreleased
  split at hreleased <;> cases hreleased

/-- A list of tags that can be allocated has fewer than half as many bytes as nodes could have. -/
private theorem mul_nodeSize_lt (h : allocatable total = true) :
    total.toNat * Queue.nodeSize.toNat < 2 ^ 64 := by
  have hsize : Queue.nodeSize.toNat = 16 := by decide
  unfold allocatable at h
  rw [decide_eq_true_iff] at h
  rw [hsize]
  omega

/-- The report of a round on a linked queue does not panic. -/
private theorem conclude_linked_ne_overflow {α : Type w} {f : Facade Word α}
    {crowd : Crowd (Shared α) (Call α)} :
    (conclude (.linked f) total crowd).outcome ≠ .failed (.panic .multiplyOverflow) := by
  rw [Ne, conclude_overflow_iff (release_linked_ne f)]
  rintro ⟨⟨left, events, h⟩, hover⟩
  exact Nat.not_le.2 (mul_nodeSize_lt h.allocated) hover

/-! ### Both products of a round -/

section Products

variable {plan : Plan} {queue : σ}

/-- A total beyond a word panics before any thread is started. -/
private theorem play_of_overflow (h : 2 ^ 64 ≤ plan.producers.toNat * plan.items.toNat)
    (schedule : List Agent) :
    play subject plan queue schedule =
      ⟨⟨.failed (.panic .multiplyOverflow), []⟩, some queue⟩ := by
  have htotal : plan.total? = none := Word.mul?_eq_none.2 h
  rw [play, htotal]

/-- A total that fits a word lets the crowd go to work. -/
private theorem play_of_total (h : plan.total? = some total) (schedule : List Agent) :
    play subject plan queue schedule =
      conclude subject total (Crowd.follow subject.toFifo plan (.init plan queue) schedule) := by
  rw [play, h]

/-- A round that has joined its producers panics if there is no memory for the list of the tags. -/
private theorem conclude_capacityOverflow (hended : crowd.ended = true)
    (hproducers : ∀ e ∈ producerEndings crowd, e = .completed)
    (hroom : 2 ^ 63 ≤ 8 * total.toNat) :
    conclude subject total crowd =
      ⟨⟨.failed (.panic .capacityOverflow), crowd.log.reverse⟩, some crowd.queue⟩ := by
  have hnot : allocatable total = false := by
    unfold allocatable
    rw [decide_eq_false_iff_not]
    omega
  have hjoin : join subject.refusal (producerEndings crowd) (consumerEndings crowd) total = _ :=
    join_capacityOverflow hproducers hnot
  simp [conclude, hended, hjoin]

/-- What a report makes of the product of the total and the size of a node. -/
private theorem Reports.overflow (h : Reports subject total crowd left events) :
    (2 ^ 64 ≤ total.toNat * subject.nodeSize.toNat → conclude subject total crowd =
      ⟨⟨.failed (.panic .multiplyOverflow), crowd.log.reverse ++ events⟩, none⟩) ∧
    (total.toNat * subject.nodeSize.toNat < 2 ^ 64 → ∃ memory,
      memory.toNat = total.toNat * subject.nodeSize.toNat ∧ conclude subject total crowd =
        ⟨⟨.passed, crowd.log.reverse ++ (events ++ [.finished total memory])⟩, none⟩) := by
  refine ⟨fun hover => ?_, fun hlt => ?_⟩
  · rw [h.conclude_eq, Word.mul?_eq_none.2 hover]
  · obtain ⟨memory, hmul, hmemory⟩ := Word.exists_mul?_eq_some hlt
    refine ⟨memory, hmemory, ?_⟩
    rw [h.conclude_eq, hmul]

/-- What becomes of a round whose tags are numbered up to this total, on any schedule. -/
structure Proceeds (subject : Subject σ κ) (plan : Plan) (queue : σ) (total : Word)
    (schedule : List Agent) : Prop where
  play_eq : play subject plan queue schedule =
    conclude subject total (Crowd.follow subject.toFifo plan (.init plan queue) schedule)
  /-- The crowd asks for each tag at most once, and for all of them before its producers have
  ended. -/
  pushes : Crowd.Pushes subject.toFifo plan total
    (Crowd.follow subject.toFifo plan (.init plan queue) schedule)
    (Crowd.follow subject.toFifo.journaled plan (.init plan (queue, [])) schedule)
  /-- A round that comes to its report, with a queue that is verified and released, panics exactly
  if the product of the total and the size of a node is no word, and else reports it. -/
  reports :
    let all := plan.producers.toNat * plan.items.toNat
    let crowd := Crowd.follow subject.toFifo plan (.init plan queue) schedule
    ∀ left events, Reports subject total crowd left events →
      (2 ^ 64 ≤ all * subject.nodeSize.toNat → play subject plan queue schedule =
        ⟨⟨.failed (.panic .multiplyOverflow), crowd.log.reverse ++ events⟩, none⟩) ∧
      (all * subject.nodeSize.toNat < 2 ^ 64 → ∃ memory,
        memory.toNat = all * subject.nodeSize.toNat ∧ play subject plan queue schedule =
          ⟨⟨.passed, crowd.log.reverse ++ (events ++ [.finished total memory])⟩, none⟩)
  /-- The size of a node matters to such a round only. -/
  unreported :
    let crowd := Crowd.follow subject.toFifo plan (.init plan queue) schedule
    (¬ ∃ left events, Reports subject total crowd left events) → ∀ size,
      play { subject with nodeSize := size } plan queue schedule =
        play subject plan queue schedule
  /-- If the tags are too many for their list, a round whose producers have ended normally panics
  before. -/
  crowded :
    let crowd := Crowd.follow subject.toFifo plan (.init plan queue) schedule
    2 ^ 63 ≤ 8 * (plan.producers.toNat * plan.items.toNat) → crowd.ended = true →
      (∀ e ∈ producerEndings crowd, e = .completed) → play subject plan queue schedule =
        ⟨⟨.failed (.panic .capacityOverflow), crowd.log.reverse⟩, some crowd.queue⟩

/-- A round whose total fits a word proceeds. -/
private theorem proceeds (hnumbers : plan.Numbers total) (hfits : plan.Fits)
    (schedule : List Agent) : Proceeds subject plan queue total schedule := by
  have hall := hnumbers.toNat_total
  have hround : play subject plan queue schedule = _ := play_of_total hnumbers.total?_eq schedule
  constructor
  case play_eq => exact hround
  case pushes =>
    -- The crowd with a journal is the same crowd, but for the journal.
    obtain ⟨written, hrecorded⟩ := Crowd.Recorded.follow subject.toFifo hfits queue schedule
    have hpushes := hrecorded.pushes (f := subject.toFifo) hfits hall
    rwa [Crowd.forget_follow subject.toFifo plan queue [] schedule] at hpushes
  case reports =>
    intro all crowd left events h
    rw [hround, show all = total.toNat from hall.symm]
    exact h.overflow
  case unreported =>
    intro crowd hnone size
    rw [hround, play_of_total hnumbers.total?_eq]
    exact (conclude_unreported hnone).1 size
  -- The table of the tags would take more than half of the address space.
  case crowded =>
    intro crowd hroom hended hproducers
    rw [hround]
    exact conclude_capacityOverflow hended hproducers (hall ▸ hroom)

/-- The two products of a round: the number of its tags, and the memory of their nodes. -/
structure Products (subject : Subject σ κ) (plan : Plan) (queue : σ) : Prop where
  /-- Before a thread has taken a step, a round panics exactly if the number of its tags is no
  word, -/
  panics_iff : (play subject plan queue []).outcome = .failed (.panic .multiplyOverflow) ↔
    2 ^ 64 ≤ plan.producers.toNat * plan.items.toNat
  /-- and then it has not touched its queue. -/
  untouched : 2 ^ 64 ≤ plan.producers.toNat * plan.items.toNat → ∀ schedule,
    play subject plan queue schedule =
      ⟨⟨.failed (.panic .multiplyOverflow), []⟩, some queue⟩
  /-- Else the tags are numbered one for one, and the round proceeds. -/
  proceeds : plan.producers.toNat * plan.items.toNat < 2 ^ 64 → ∃ total, plan.Numbers total ∧
    ∀ schedule, Proceeds subject plan queue total schedule
  /-- A round on a linked queue, whose nodes have 16 bytes, does not panic at its report. -/
  linked : ∀ {α : Type w} (f : Facade Word α) (queue : Shared α) (schedule : List Agent),
    (Subject.linked f).nodeSize = 16 ∧
      ((play (.linked f) plan queue schedule).outcome = .failed (.panic .multiplyOverflow) ↔
        2 ^ 64 ≤ plan.producers.toNat * plan.items.toNat)

/-- Any plan, any subject and any queue: what becomes of both products. -/
theorem play_overflow (subject : Subject σ κ) (plan : Plan) (queue : σ) :
    Products.{u, v, w} subject plan queue := by
  constructor
  case panics_iff =>
    refine ⟨fun hpanic => ?_, fun hover => by rw [play_of_overflow hover]⟩
    by_contra hlt
    obtain ⟨total, htotal, -⟩ := Word.exists_mul?_eq_some (Nat.lt_of_not_le hlt)
    -- The mark is not set yet, so the round has not ended.
    rw [play_of_total htotal] at hpanic
    cases hpanic
  case untouched => exact fun hover => play_of_overflow hover
  case proceeds =>
    intro hfits
    obtain ⟨total, hnumbers⟩ := Plan.Fits.numbers hfits
    exact ⟨total, hnumbers, proceeds hnumbers hfits⟩
  case linked =>
    intro α f queue schedule
    refine ⟨rfl, fun hpanic => ?_, fun hover => by rw [play_of_overflow hover]⟩
    by_contra hlt
    obtain ⟨total, htotal, -⟩ := Word.exists_mul?_eq_some (Nat.lt_of_not_le hlt)
    rw [play_of_total htotal] at hpanic
    exact conclude_linked_ne_overflow hpanic

/-- Two tags in nodes of half the address space each: everything goes well, and the round panics
when the queue is released already. -/
theorem play_overflow_oversized :
    let faults : Faults := ⟨none, none, none, none, none, none, none, none, none⟩
    let subject := Faulty.subject (.addresses Word) faults 0x8000000000000000
    let plan : Plan := ⟨1, 1, 2, false⟩
    let schedule : List Agent := List.replicate 20 (.producer 0) ++ List.replicate 2 .main ++
      List.replicate 40 (.consumer 0)
    (play subject plan .init schedule).toRoundReport =
      ⟨.failed (.panic .multiplyOverflow), [.drained 0 2, .released]⟩ := by
  intro faults subject plan schedule
  have htotal : plan.total? = some 2 := by decide
  let crowd := Crowd.follow subject.toFifo plan (.init plan .init) schedule
  have hended : crowd.ended = true := by decide +kernel
  have hcompleted : ∀ e ∈ endings crowd, e = .completed := by decide +kernel
  have hcount : crowd.queue.inner.count = 0 := by decide +kernel
  have hwalk : crowd.queue.inner.nodeCount? = some 0 := by decide +kernel
  have htaken : taken crowd = [0, 1] := by decide +kernel
  have hlog : crowd.log = [.drained 0 2] := by decide +kernel
  -- What the queue answers follows from its counter and its walk; it need not be computed.
  have hanswers : ∀ left : Faulty (RawItem Word), left.inner.count = 0 →
      left.inner.nodeCount? = some 0 → inspect subject 2 left [0, 1] = some (left, .ok ()) ∧
        subject.release left = some (.ok (), [.released]) := by
    intro left hcount hwalk
    have hlen : subject.len? left = some (left, 0) := by
      show some (left, left.inner.count) = some (left, 0)
      rw [hcount]
    have hnodes : subject.nodeCount? left = some (left, 0) :=
      congrArg (Option.map (left, ·)) hwalk
    exact ⟨inspect_check hlen hnodes, congrArg (Option.map Queue.released) hwalk⟩
  obtain ⟨hverified, hreleased⟩ := hanswers crowd.queue hcount hwalk
  have hreports : Reports subject 2 crowd crowd.queue [.released] :=
    ⟨hended, hcompleted, by decide, htaken ▸ hverified, hreleased⟩
  obtain ⟨total, hnumbers, hround⟩ :=
    (play_overflow.{0, 0, 0} subject plan .init).proceeds (by decide)
  obtain rfl : total = 2 := Option.some.inj (hnumbers.total?_eq.symm.trans htotal)
  have hpanic : play subject plan .init schedule = _ :=
    ((hround schedule).reports _ _ hreports).1 (by decide +kernel)
  have hevents : crowd.log.reverse ++ [.released] = [.drained 0 2, .released] := by rw [hlog]; rfl
  rw [hpanic, ← hevents]

end Products

end Round

end AtomicFifo

import AtomicFifo.Proofs.Crowd.Settling
import AtomicFifo.Proofs.Round.Joining
import AtomicFifo.Proofs.Round.Verification

/-!
# A round over a linked queue loses nothing

A stress round over a linked queue never reports a violation that is none. Whatever the schedule,
once all threads have ended the consumers have taken every tag exactly once, those of each
producer in their order, and the verification finds nothing. The only round that fails is one
without consumers, in which nobody takes anything.

* `Round.run_passes`   a whole round comes to its end and passes
* `lossless_round`     on every schedule, a round with consumers passes, and one without does not
-/

namespace AtomicFifo

universe u v

namespace Round

variable {α : Type u} {f : Facade Word α} {total : Word}

/-- An empty linked queue passes the verification if all tags were taken, and it is released. -/
private theorem verify_linked {queue : Shared α} {tags : List Word} (hcount : queue.count = 0)
    (hnodes : queue.nodeCount? = some 0) (htags : tags.Perm (Verification.tagsBelow total.toNat))
    (htotal : total.toNat < 2 ^ 60) :
    ∃ memory, verify (.linked f) total queue tags =
      ⟨⟨.passed, [.released, .finished total memory]⟩, none⟩ := by
  have hcheck : Verification.check 0 0 tags total = .ok () :=
    Verification.check_eq_ok_iff.2 ⟨rfl, rfl, htags⟩
  have hinspect : inspect (.linked f) total queue tags = some (queue, .ok ()) := by
    simp [inspect, Subject.linked, hcount, hnodes, hcheck]
  have hrelease : (Subject.linked f).release queue = some (Queue.released 0) := by
    show queue.nodeCount?.map Queue.released = _
    rw [hnodes]
    rfl
  -- The nodes are few enough for their memory to be a word.
  have hsize : total.toNat * (Subject.linked f).nodeSize.toNat < UInt64.size := by
    show total.toNat * 16 < 2 ^ 64
    omega
  obtain ⟨memory, hmemory, -⟩ := Word.exists_mul?_eq_some hsize
  refine ⟨memory, ?_⟩
  simp [verify, hinspect, hrelease, Queue.released, hmemory]

/-- A linked queue with something left on its counter does not pass. -/
private theorem verify_countLeft {queue : Shared α} {tags : List Word} (hcount : queue.count ≠ 0) :
    verify (.linked f) total queue tags =
      ⟨⟨.failed (.error (.violation (.countLeft queue.count))), []⟩, some queue⟩ := by
  have hinspect : inspect (.linked f) total queue tags =
      some (queue, .error (.countLeft queue.count)) := by
    simp [inspect, Subject.linked, hcount]
  simp [verify, hinspect]

end Round

/-! ### What the consumers report -/

/-- The consumers that a report names, and the numbers that it adds up. -/
private theorem RoundReport.reports (r : RoundReport) :
    r.drainers = (r.events.filterMap Event.report?).map (·.1) ∧
      r.drained = ((r.events.filterMap Event.report?).map (·.2)).sum := by
  unfold drainers drained
  induction r.events with
  | nil => exact ⟨rfl, rfl⟩
  | cons e events ih =>
    obtain ⟨ih₁, ih₂⟩ := ih
    cases e <;> simp [List.filterMap_cons, Event.report?, ih₁, ih₂]

/-- When all consumers have ended normally, each of them has reported once. -/
theorem Crowd.Reported.perm {σ : Type u} {κ : Type v} {crowd : Crowd σ κ} (h : crowd.Reported)
    (hc : ∀ (c : Nat) (y : Consumer κ), crowd.consumers[c]? = some y →
      y.phase = .ended .completed) :
    (crowd.log.filterMap Event.report?).Perm
      (crowd.consumers.toList.zipIdx.map fun (y, c) => (c, y.taken.length)) := by
  have hmem : ∀ c n,
      (c, n) ∈ crowd.consumers.toList.zipIdx.map (fun (y, c) => (c, y.taken.length)) ↔
        ∃ y, crowd.consumers[c]? = some y ∧ y.taken.length = n := by
    intro c n
    simp only [List.mem_map, Prod.exists, List.mem_zipIdx_iff_getElem?, Prod.mk.injEq,
      Array.getElem?_toList]
    constructor
    · rintro ⟨y, i, hy, rfl, rfl⟩
      exact ⟨y, hy, rfl⟩
    · rintro ⟨y, hy, rfl⟩
      exact ⟨y, c, hy, rfl, rfl⟩
  have hnodup : (crowd.consumers.toList.zipIdx.map fun (y, c) => (c, y.taken.length)).Nodup := by
    apply List.Nodup.of_map Prod.fst
    rw [List.map_map]
    have : (Prod.fst ∘ fun ((y, c) : Consumer κ × Nat) => (c, y.taken.length)) = Prod.snd := rfl
    rw [this, List.zipIdx_map_snd]
    exact List.nodup_range'
  -- Neither list has anything twice, so it is enough that they have the same members.
  refine (List.perm_ext_iff_of_nodup h.nodup hnodup).2 fun ⟨c, n⟩ => ?_
  rw [h.mem, hmem]
  constructor
  · rintro ⟨y, hy, -, hlen⟩
    exact ⟨y, hy, hlen⟩
  · rintro ⟨y, hy, hlen⟩
    exact ⟨y, hy, hc c y hy, hlen⟩

/-! ### Every schedule -/

section Crowds

variable {α : Type u} {f : Facade Word α} {plan : Plan} {crowd : Crowd (Shared α) (Call α)}
  {moves : List (Move α)} {total : Word}

namespace Crowd.Traced

/-- All threads of a crowd on a linked queue end normally. -/
private theorem completed (h : crowd.Traced f plan moves) (hended : crowd.ended = true) :
    (∀ (p : Nat) (x : Producer (Call α)), crowd.producers[p]? = some x →
        x.phase = .ended .completed) ∧
      ∀ (c : Nat) (y : Consumer (Call α)), crowd.consumers[c]? = some y →
        y.phase = .ended .completed := by
  obtain ⟨-, hproducers, hconsumers⟩ := ended_iff.1 hended
  constructor
  · intro p x hx
    obtain ⟨e, he⟩ := hproducers p x hx
    rw [he, ((h.producer hx).ended he).1]
  · intro c y hy
    obtain ⟨e, he⟩ := hconsumers c y hy
    rw [he, (h.consumer hy).ended he]

/-- On a linked queue with memory all threads end normally. -/
private theorem endings_completed (h : crowd.Traced f plan moves) (hended : crowd.ended = true) :
    ∀ e ∈ Round.endings crowd, e = .completed := by
  obtain ⟨hp, hc⟩ := h.completed hended
  intro e he
  rcases Round.mem_endings.1 he with ⟨p, x, hx, hphase⟩ | ⟨c, y, hy, hphase⟩
  · have := hphase.symm.trans (hp p x hx)
    simpa using this
  · have := hphase.symm.trans (hc c y hy)
    simpa using this

/-- Producers without pairs take nothing, so every tag is with a consumer or in the queue. -/
private theorem perm_taken (h : crowd.Traced f plan moves) (hpairs : plan.pairs = false)
    (hbalanced : crowd.Balanced f plan) :
    ((List.range (plan.producers.toNat * plan.items.toNat)).map UInt64.ofNat).Perm
      (Round.taken crowd ++ crowd.queue.items.map f.unwrap) := by
  have hnone : crowd.producers.toList.flatMap (·.taken.reverse) = [] := by
    refine List.flatMap_eq_nil_iff.2 fun x hx => ?_
    obtain ⟨p, hx⟩ := Array.getElem?_of_mem (Array.mem_toList_iff.1 hx)
    rw [(h.producer hx).taken_nil hpairs]
    rfl
  have hperm := hbalanced.perm
  rwa [hnone, List.nil_append] at hperm

/-- The reports of the consumers, once all threads have ended. -/
private theorem reports (h : crowd.Traced f plan moves) (hended : crowd.ended = true)
    (hreported : crowd.Reported) :
    ((crowd.log.filterMap Event.report?).map (·.1)).Perm (List.range plan.consumers.toNat) ∧
      ((crowd.log.filterMap Event.report?).map (·.2)).sum = (Round.taken crowd).length := by
  have hperm := hreported.perm (h.completed hended).2
  constructor
  · -- The consumers that report are all consumers, each of them once.
    have hmap := hperm.map (·.1)
    have hfst : ((·.1) ∘ fun ((y, c) : Consumer (Call α) × Nat) => (c, y.taken.length)) =
      Prod.snd := rfl
    rw [List.map_map, hfst, List.zipIdx_map_snd, Array.length_toList, h.consumers_size,
      ← List.range_eq_range'] at hmap
    exact hmap
  · -- What they report adds up to what they have taken.
    have hsum := (hperm.map (·.2)).sum_nat
    have hsnd : ((·.2) ∘ fun ((y, c) : Consumer (Call α) × Nat) => (c, y.taken.length)) =
      (fun y => y.taken.length) ∘ Prod.fst := rfl
    rw [List.map_map, hsnd, ← List.map_map, List.zipIdx_map_fst] at hsum
    rw [hsum, Round.taken, List.length_flatMap]
    simp

/-- A round with consumers passes. -/
private theorem passes (h : crowd.Traced f plan moves) (hdrained : crowd.Drained)
    (hbalanced : crowd.Balanced f plan) (hended : crowd.ended = true)
    (hpairs : plan.pairs = false) (hpos : 0 < plan.consumers.toNat)
    (htotal : total.toNat = plan.producers.toNat * plan.items.toNat)
    (hsmall : total.toNat < 2 ^ 60) :
    crowd.queue.count = 0 ∧ crowd.queue.nodeCount? = some 0 ∧
      (Round.taken crowd).Perm (Verification.tagsBelow total.toNat) ∧
      ∃ memory, Round.conclude (.linked f) total crowd =
        ⟨⟨.passed, crowd.log.reverse ++ [.released, .finished total memory]⟩, none⟩ := by
  obtain ⟨-, hc⟩ := h.completed hended
  -- The first consumer has found the queue empty.
  have hlt : 0 < crowd.consumers.size := h.consumers_size.symm ▸ hpos
  have hfirst := Array.getElem?_eq_getElem hlt
  have hempty := (hdrained 0 _ _ hfirst (hc 0 _ hfirst)).2
  have hcount := hbalanced.count_eq
  have hnodes := hbalanced.nodeCount?_eq
  have hperm := h.perm_taken hpairs hbalanced
  rw [hempty, List.map_nil, List.append_nil, ← htotal] at hperm
  rw [hempty] at hcount hnodes
  obtain ⟨memory, hverify⟩ := Round.verify_linked (f := f) hcount hnodes hperm.symm hsmall
  refine ⟨hcount, hnodes, hperm.symm, memory, ?_⟩
  rw [Round.conclude_completed hended (h.endings_completed hended)
    (Round.allocatable_of_lt (by omega)), hverify]

/-- A round without consumers finds all tags on the counter. -/
private theorem fails (h : crowd.Traced f plan moves) (hbalanced : crowd.Balanced f plan)
    (hended : crowd.ended = true) (hpairs : plan.pairs = false) (hzero : plan.consumers.toNat = 0)
    (htotal : total.toNat = plan.producers.toNat * plan.items.toNat)
    (hsmall : total.toNat < 2 ^ 60) (hpos : 0 < total.toNat) :
    Round.conclude (.linked f) total crowd =
      ⟨⟨.failed (.error (.violation (.countLeft total))), crowd.log.reverse⟩,
        some crowd.queue⟩ := by
  -- Nobody has taken anything, so the queue holds all tags.
  have hnobody : crowd.consumers.toList = [] := by
    rw [← List.length_eq_zero_iff, Array.length_toList, h.consumers_size, hzero]
  have hperm := h.perm_taken hpairs hbalanced
  rw [Round.taken, hnobody, List.flatMap_nil, List.nil_append, ← htotal] at hperm
  have hlen : crowd.queue.items.length = total.toNat := by simpa using hperm.length_eq.symm
  have hcount : crowd.queue.count = total := by
    rw [hbalanced.count_eq, hlen, UInt64.ofNat_toNat]
  have hne : total ≠ 0 := by
    rintro rfl
    exact Nat.lt_irrefl _ hpos
  rw [Round.conclude_completed hended (h.endings_completed hended)
    (Round.allocatable_of_lt (by omega)), Round.verify_countLeft (hcount ▸ hne), hcount,
    List.append_nil]

end Crowd.Traced

end Crowds

/-- The tags left on the counter, as the error of the round says. -/
private theorem Violation.message_countLeft (count : Word) :
    (Violation.countLeft count).message = "count is " ++ toString count.toNat ++ " after drain" :=
  rfl

/-- A whole round over a linked queue with fewer than 2 ^ 60 tags, no pairs and some consumer
comes to its end, and passes. -/
theorem Round.run_passes (f : Facade Word α) (plan : Plan) (hpairs : plan.pairs = false)
    (hsmall : plan.producers.toNat * plan.items.toNat < 2 ^ 60)
    (hpos : 0 < plan.consumers.toNat) :
    (Round.run (.linked f) plan .init).outcome = .passed := by
  have hfits : plan.Fits := Nat.lt_trans hsmall (by decide)
  obtain ⟨total, htotal, htotal_eq⟩ := Word.exists_mul?_eq_some hfits
  -- The schedule of the round is one of all schedules, and all threads end on it.
  have hended := Crowd.settle_init_ended f hfits
  obtain ⟨schedule, hschedule⟩ := Crowd.settle_eq_follow (.linked f) plan
    (Crowd.patience plan 0) (.init plan .init)
  rw [hschedule] at hended
  obtain ⟨⟨moves, htraced⟩, -, hdrained⟩ := Crowd.traced_follow (f := f) hfits schedule
  obtain ⟨-, -, -, memory, hconclude⟩ := htraced.passes hdrained (htraced.balanced hfits hended)
    hended hpairs hpos htotal_eq (htotal_eq ▸ hsmall)
  rw [Round.run, show plan.total? = some total from htotal]
  show (conclude _ _ (Crowd.settle (.linked f) _ _ _)).outcome = _
  rw [hschedule, hconclude]

/-- A round over a linked queue with fewer than 2 ^ 60 tags and no pairs, on any schedule. All
threads can come to their end from where the schedule has led them. Once they have, and if there
are consumers, the queue is empty by both of its sizes, the consumers have taken all tags, each
of them once, and those of each producer in increasing order; each consumer has reported once,
the numbers that they reported add up to that of all tags, and the round passes. Without
consumers it fails as soon as there are tags, with all of them on the counter. -/
theorem lossless_round {α : Type u} (f : Facade Word α) (plan : Plan) (schedule : List Agent)
    (hpairs : plan.pairs = false)
    (hsmall : plan.producers.toNat * plan.items.toNat < 2 ^ 60) :
    let all := plan.producers.toNat * plan.items.toNat
    let crowd := Crowd.follow (.linked f) plan (.init plan .init) schedule
    ∃ total, plan.total? = some total ∧
      (∃ more, (Crowd.follow (.linked f) plan crowd more).ended = true) ∧
      (crowd.ended = true →
        let report := Round.conclude (.linked f) total crowd
        (0 < plan.consumers.toNat →
          crowd.queue.count = 0 ∧ crowd.queue.nodeCount? = some 0 ∧
          (Round.taken crowd).Perm ((List.range all).map UInt64.ofNat) ∧
          (∀ y ∈ crowd.consumers, ∀ p < plan.producers.toNat,
            (y.taken.reverse.filter fun tag => tag.toNat / plan.items.toNat = p).Pairwise
              (·.toNat < ·.toNat)) ∧
          report.drainers.Perm (List.range plan.consumers.toNat) ∧ report.drained = all ∧
          report.outcome = .passed) ∧
        (plan.consumers.toNat = 0 → 0 < all →
          ∃ e, report.outcome = .failed (.error e) ∧
            e.chain = .single ("count is " ++ toString all ++ " after drain"))) := by
  have hfits : plan.Fits := Nat.lt_trans hsmall (by decide)
  obtain ⟨⟨moves, htraced⟩, hprotocol, hdrained⟩ := Crowd.traced_follow (f := f) hfits schedule
  have hquiet : (Fifo.linked f).Quiet := fun _ _ => rfl
  have hreported : (Crowd.follow (.linked f) plan (.init plan .init) schedule).Reported :=
    .follow hquiet plan Shared.init schedule
  intro all crowd
  -- From here on only what the schedule has kept is used, not how the crowd came about.
  have hcrowd : crowd = Crowd.follow (.linked f) plan (.init plan .init) schedule := rfl
  rw [← hcrowd] at htraced hprotocol hdrained hreported
  clear_value crowd
  clear hcrowd
  obtain ⟨total, htotal, htotal_eq⟩ := Word.exists_mul?_eq_some hfits
  have hsmall' : total.toNat < 2 ^ 60 := htotal_eq ▸ hsmall
  refine ⟨total, htotal, htraced.exists_follow_ended hprotocol hfits, fun hended => ?_⟩
  have hbalanced := htraced.balanced hfits hended
  refine ⟨fun hpos => ?_, fun hzero hall => ?_⟩
  · obtain ⟨hcount, hnodes, hperm, memory, hconclude⟩ :=
      htraced.passes hdrained hbalanced hended hpairs hpos htotal_eq hsmall'
    obtain ⟨hdrainers, hsum⟩ := htraced.reports hended hreported
    have hevents : (Round.conclude (.linked f) total crowd).events.filterMap Event.report? =
        (crowd.log.filterMap Event.report?).reverse := by
      rw [hconclude, List.filterMap_append, List.filterMap_reverse]
      simp [List.filterMap_cons, Event.report?]
    rw [htotal_eq] at hperm
    -- In their order from the producer the tags increase, and a consumer has some of them.
    refine ⟨hcount, hnodes, hperm, fun y hy p hp => ?_, ?_, ?_, by rw [hconclude]⟩
    · exact (hfits.pairwise_tags hp).sublist (hbalanced.order y hy p hp)
    · rw [(RoundReport.reports _).1, hevents, List.map_reverse]
      exact (List.reverse_perm _).trans hdrainers
    · rw [(RoundReport.reports _).2, hevents, List.map_reverse, List.sum_reverse, hsum,
        hperm.length_eq]
      simp [Verification.tagsBelow, all]
  · have hconclude := htraced.fails hbalanced hended hpairs hzero htotal_eq hsmall'
      (htotal_eq ▸ hall)
    refine ⟨_, by rw [hconclude], ?_⟩
    rw [RoundError.chain, Violation.message_countLeft, htotal_eq]

/-- One producer and one consumer; the consumer polls in vain once, begins its next poll while
the item is not linked yet, and takes it. -/
theorem lossless_round_overlapping :
    let plan : Plan := ⟨1, 1, 1, false⟩
    let schedule : List Agent := List.replicate 4 (.producer 0) ++ List.replicate 4 (.consumer 0) ++
      List.replicate 2 (.producer 0) ++ List.replicate 3 (.consumer 0) ++
      List.replicate 3 (.producer 0) ++ List.replicate 8 (.consumer 0) ++
      [.main, .main] ++ List.replicate 4 (.consumer 0)
    let crowd := Crowd.follow (.linked (.addresses Word)) plan (.init plan .init) schedule
    crowd.ended = true ∧ ∃ total, plan.total? = some total ∧
      (Round.conclude (.linked (.addresses Word)) total crowd).outcome = .passed := by
  intro plan schedule crowd
  have hended : crowd.ended = true := by decide +kernel
  obtain ⟨total, htotal, -, hends⟩ :=
    lossless_round (.addresses Word) plan schedule rfl (by decide)
  have hcrowd : Crowd.follow (.linked (.addresses Word)) plan (.init plan .init) schedule =
    crowd := rfl
  -- What the round comes to is not computed here, so it does not matter how the crowd came about.
  rw [hcrowd] at hends
  clear_value crowd
  obtain ⟨-, -, -, -, -, -, hpassed⟩ := (hends hended).1 (by decide)
  exact ⟨hended, total, htotal, hpassed⟩

end AtomicFifo

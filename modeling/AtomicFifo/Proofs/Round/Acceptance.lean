import AtomicFifo.Proofs.Round.Joining
import AtomicFifo.Proofs.Round.Verification
import AtomicFifo.Round.Faults
import Mathlib.Data.List.Perm.Basic
import Mathlib.Data.List.Perm.Subperm

/-!
# Which rounds pass

A stress round asks the queue under test for its size in two ways and looks at the tags that were
taken, but it never looks for a tag that is missing. Still it passes exactly the rounds in which
nothing was lost, duplicated, altered or invented, whatever the queue does: as many tags as there
are, all of them known and none of them twice, are all tags.

* `inspect_eq_ok_iff`   the verification of any subject
* `verify_passed_iff`   the verification and the release
* `play_passed_iff`     a whole round without a failing thread, on any schedule
-/

namespace AtomicFifo.Round

universe u v

variable {σ : Type u} {κ : Type v} {subject : Subject σ κ} {total : Word}

/-- The verification passes exactly if both sizes are zero and the tags taken are all tags, in
some order. -/
theorem inspect_eq_ok_iff {queue left : σ} {tags : List Word} :
    inspect subject total queue tags = some (left, .ok ()) ↔
      (∃ asked, subject.len? queue = some (asked, 0) ∧
        subject.nodeCount? asked = some (left, 0)) ∧
        tags.Perm (Verification.tagsBelow total.toNat) := by
  unfold inspect
  cases hlen : subject.len? queue with
  | none => simp
  | some answer =>
    obtain ⟨asked, count⟩ := answer
    -- The nodes are counted only where the counter reads zero.
    by_cases hcount : count = 0
    · subst hcount
      cases hnodes : subject.nodeCount? asked with
      | none => simp [hnodes]
      | some walk =>
        obtain ⟨walked, nodes⟩ := walk
        have hcheck : Verification.check 0 nodes tags total = .ok () ↔ _ :=
          Verification.check_eq_ok_iff
        simp [hnodes, hcheck, and_assoc]
    · simp [hcount]

/-- A round passes exactly if its verification does and the queue can be released. -/
theorem verify_passed_iff {queue : σ} {tags : List Word}
    (hmemory : (Word.mul? total subject.nodeSize).isSome) :
    (verify subject total queue tags).outcome = .passed ↔
      ∃ left events, inspect subject total queue tags = some (left, .ok ()) ∧
        subject.release left = some (.ok (), events) := by
  obtain ⟨memory, hmemory⟩ := Option.isSome_iff_exists.1 hmemory
  unfold verify
  -- First the inspection must find nothing, then the release must succeed.
  cases hinspect : inspect subject total queue tags with
  | none => simp
  | some found =>
    obtain ⟨left, result⟩ := found
    cases result with
    | error v => simp
    | ok =>
      cases hrelease : subject.release left with
      | none => simp [hrelease]
      | some released =>
        obtain ⟨result, events⟩ := released
        cases result with
        | error p => simp [hrelease]
        | ok => simp [hrelease, hmemory]

/-- A violation that is found is what the round ends in. -/
private theorem verify_violation {queue left : σ} {tags : List Word} {v : Violation}
    (h : inspect subject total queue tags = some (left, .error v)) :
    (verify subject total queue tags).outcome = .failed (.error (.violation v)) := by
  simp [verify, h]

/-! ### A whole round -/

/-- Nothing is left in the queue of a round and nothing went wrong with its tags: the counter
answers zero, the count of the nodes does, and the consumers have taken all tags, each of them
once. Both questions may change the queue, and `left` is what they make of it. -/
structure Clean (subject : Subject σ κ) (plan : Plan) (crowd : Crowd σ κ) (left : σ) : Prop where
  sizes : ∃ asked, subject.len? crowd.queue = some (asked, 0) ∧
    subject.nodeCount? asked = some (left, 0)
  tags : (taken crowd).Perm
    ((List.range (plan.producers.toNat * plan.items.toNat)).map UInt64.ofNat)

section Plans

variable {plan : Plan} {crowd : Crowd σ κ}

/-- The inspection finds nothing exactly if the crowd has left everything clean. -/
private theorem inspect_eq_ok_iff_clean {left : σ}
    (htotal : total.toNat = plan.producers.toNat * plan.items.toNat) :
    inspect subject total crowd.queue (taken crowd) = some (left, .ok ()) ↔
      Clean subject plan crowd left := by
  rw [inspect_eq_ok_iff, htotal]
  constructor
  · rintro ⟨hsizes, hperm⟩
    exact ⟨hsizes, hperm⟩
  · intro h
    exact ⟨h.sizes, h.tags⟩

/-- In a clean round each tag was taken once, and nothing else was. -/
private theorem Clean.count_taken {left : σ} (h : Clean subject plan crowd left)
    (htotal : total.toNat = plan.producers.toNat * plan.items.toNat) (tag : Word) :
    (taken crowd).count tag =
      if tag.toNat < plan.producers.toNat * plan.items.toNat then 1 else 0 := by
  have hperm : (taken crowd).Perm (Verification.tagsBelow total.toNat) := by
    rw [htotal]
    exact h.tags
  have hmem : tag ∈ Verification.tagsBelow total.toNat ↔ tag.toNat < total.toNat :=
    Verification.mem_tagsBelow
  rw [hperm.count_eq, ← htotal]
  -- The tags below the total are there once, and no other ones are.
  by_cases hlt : tag.toNat < total.toNat
  · rw [if_pos hlt]
    exact List.count_eq_one_of_mem (Verification.nodup_tagsBelow total) (hmem.2 hlt)
  · rw [if_neg hlt]
    exact List.count_eq_zero.2 fun h => hlt (hmem.1 h)

end Plans

/-- A round in which no thread fails, over any subject whatever and on any schedule, with tags
that are few enough for their list and for the memory of their nodes. The verification passes
exactly if the round is clean; the round passes exactly if it is clean and its queue can be
released; and if it is not clean and the queue answers what it is asked, the round fails with what
the verification has found. So a round does not pass if some tag was not taken exactly once, or if
something was taken that nobody has enqueued. -/
theorem play_passed_iff (subject : Subject σ κ) (plan : Plan) (queue : σ) (schedule : List Agent)
    (hroom : 8 * (plan.producers.toNat * plan.items.toNat) < 2 ^ 63)
    (hmemory : plan.producers.toNat * plan.items.toNat * subject.nodeSize.toNat < 2 ^ 64) :
    let all := plan.producers.toNat * plan.items.toNat
    let crowd := Crowd.follow subject.toFifo plan (.init plan queue) schedule
    let round := play subject plan queue schedule
    crowd.ended = true → (∀ e ∈ endings crowd, e = .completed) →
      ∃ total, plan.total? = some total ∧
        (∀ left, inspect subject total crowd.queue (taken crowd) = some (left, .ok ()) ↔
          Clean subject plan crowd left) ∧
        (round.outcome = .passed ↔ ∃ left events, Clean subject plan crowd left ∧
          subject.release left = some (.ok (), events)) ∧
        ((∀ left, ¬ Clean subject plan crowd left) →
          inspect subject total crowd.queue (taken crowd) ≠ none →
          ∃ v, round.outcome = .failed (.error (.violation v))) ∧
        ((∃ tag, (taken crowd).count tag ≠ if tag.toNat < all then 1 else 0) →
          round.outcome ≠ .passed) := by
  intro all crowd round hended hall
  obtain ⟨total, htotal, htotal_eq, hallocatable, hround⟩ :=
    exists_play_eq subject queue schedule hroom
  have hmul : (Word.mul? total subject.nodeSize).isSome := by
    have hsize : total.toNat * subject.nodeSize.toNat < UInt64.size := htotal_eq ▸ hmemory
    obtain ⟨memory, hmul, -⟩ := Word.exists_mul?_eq_some hsize
    rw [hmul]
    rfl
  have hclean : ∀ left, inspect subject total crowd.queue (taken crowd) = some (left, .ok ()) ↔
      Clean subject plan crowd left := fun left => inspect_eq_ok_iff_clean htotal_eq
  -- No thread has failed, so the round comes to what its verification does.
  have houtcome : round.outcome = (verify subject total crowd.queue (taken crowd)).outcome := by
    show (play subject plan queue schedule).outcome = _
    rw [hround, conclude_completed hended hall hallocatable]
  have hpassed : round.outcome = .passed ↔ ∃ left events, Clean subject plan crowd left ∧
      subject.release left = some (.ok (), events) := by
    rw [houtcome, verify_passed_iff hmul]
    simp only [hclean]
  refine ⟨total, htotal, hclean, hpassed, fun hnot hanswers => ?_, ?_⟩
  · obtain ⟨⟨left, result⟩, hinspect⟩ := Option.ne_none_iff_exists'.1 hanswers
    cases result with
    | ok => exact absurd ((hclean left).1 hinspect) (hnot left)
    | error v => exact ⟨v, houtcome.trans (verify_violation hinspect)⟩
  · rintro ⟨tag, hcount⟩ hpass
    obtain ⟨left, events, h, -⟩ := hpassed.1 hpass
    exact hcount (h.count_taken htotal_eq tag)

/-- A queue that loses one tag and answers another one twice is found out, though it ends up empty
and has answered as many tags as there are. -/
theorem play_passed_iff_compensated :
    let faults : Faults := ⟨none, none, none, some 0, some 1, none, none, none, none⟩
    let subject := Faulty.subject (.addresses Word) faults Queue.nodeSize
    let plan : Plan := ⟨1, 1, 2, false⟩
    let schedule : List Agent := List.replicate 20 (.producer 0) ++ List.replicate 2 .main ++
      List.replicate 40 (.consumer 0)
    let crowd := Crowd.follow subject.toFifo plan (.init plan .init) schedule
    crowd.ended = true ∧ endings crowd = [.completed, .completed] ∧ taken crowd = [1, 1] ∧
      (subject.len? crowd.queue).map (·.2) = some 0 ∧
      (play subject plan .init schedule).outcome ≠ .passed := by
  intro faults subject plan schedule crowd
  have hended : crowd.ended = true := by decide +kernel
  have hendings : endings crowd = [.completed, .completed] := by decide +kernel
  have htaken : taken crowd = [1, 1] := by decide +kernel
  have hlen : (subject.len? crowd.queue).map (·.2) = some 0 := by decide +kernel
  have hall : ∀ e ∈ endings crowd, e = .completed := by
    rw [hendings]
    decide
  have hcount : ∃ tag : Word, (taken crowd).count tag ≠ if tag.toNat < 2 then 1 else 0 := by
    rw [htaken]
    exact ⟨0, by decide⟩
  -- The counter reads zero, but a tag is missing and another one is there twice.
  obtain ⟨total, -, -, -, -, hfound⟩ :=
    play_passed_iff subject plan .init schedule (by decide) (by decide) hended hall
  exact ⟨hended, hendings, htaken, hlen, hfound hcount⟩

end AtomicFifo.Round

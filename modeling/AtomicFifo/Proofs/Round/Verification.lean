import AtomicFifo.Round.Verification
import Mathlib.Data.List.Nodup
import Mathlib.Data.List.Perm.Subperm

/-!
# What passes the verification

The table of the verification has one place for each tag, so all tags enter it exactly if none
of them comes twice and each of them has a place. Together with their number this says that
they are all tags there are, in some order.

* `checkTags_eq_ok_iff`   the table
* `check_eq_ok_iff`       the whole verification
-/

namespace AtomicFifo.Verification

/-- All tags enter the table exactly if no tag comes twice and the place of each is empty. -/
theorem checkTags_eq_ok_iff {seen : Array Bool} {tags : List Word} :
    checkTags seen tags = .ok () ↔ tags.Nodup ∧ ∀ t ∈ tags, seen[t.toNat]? = some false := by
  induction tags generalizing seen with
  | nil => simp [checkTags]
  | cons tag tags ih =>
    cases hseen : seen[tag.toNat]? with
    | none =>
      -- There is no place for this tag.
      simp [checkTags, hseen]
    | some old =>
      cases old with
      | true =>
        -- The tag has come before.
        simp [checkTags, hseen]
      | false =>
        -- The place of this tag is taken for all that come behind it.
        have hlt : tag.toNat < seen.size := (Array.getElem?_eq_some_iff.1 hseen).1
        have hset : ∀ t : Word, (seen.setIfInBounds tag.toNat true)[t.toNat]? = some false ↔
            tag ≠ t ∧ seen[t.toNat]? = some false := by
          intro t
          rw [Array.getElem?_setIfInBounds]
          by_cases ht : tag = t
          · subst ht
            simp [hlt]
          · have : tag.toNat ≠ t.toNat := fun heq => ht (UInt64.toNat.inj heq)
            simp [ht, this]
        simp only [checkTags, hseen, ih, hset, List.nodup_cons, List.mem_cons, forall_eq_or_imp]
        constructor
        · rintro ⟨hnodup, hall⟩
          exact ⟨⟨fun hmem => (hall tag hmem).1 rfl, hnodup⟩, trivial, fun t ht => (hall t ht).2⟩
        · rintro ⟨⟨hnot, hnodup⟩, -, hall⟩
          exact ⟨hnodup, fun t ht => ⟨fun heq => hnot (heq ▸ ht), hall t ht⟩⟩

/-- All tags below a total, in their order. -/
def tagsBelow (n : Nat) : List Word := (List.range n).map UInt64.ofNat

/-- The tags below a total are different. -/
theorem nodup_tagsBelow (total : Word) : (tagsBelow total.toNat).Nodup := by
  refine List.Nodup.map_on (fun i hi j hj heq => ?_) List.nodup_range
  have hlt := total.toNat_lt
  have hi := List.mem_range.1 hi
  have hj := List.mem_range.1 hj
  have := congrArg UInt64.toNat heq
  rwa [UInt64.toNat_ofNat_of_lt' (Nat.lt_trans hi hlt),
    UInt64.toNat_ofNat_of_lt' (Nat.lt_trans hj hlt)] at this

/-- The tags below a total are the words below it. -/
theorem mem_tagsBelow {total tag : Word} :
    tag ∈ tagsBelow total.toNat ↔ tag.toNat < total.toNat := by
  unfold tagsBelow
  rw [List.mem_map]
  constructor
  · rintro ⟨i, hi, rfl⟩
    have hi := List.mem_range.1 hi
    rwa [UInt64.toNat_ofNat_of_lt' (Nat.lt_trans hi total.toNat_lt)]
  · intro h
    exact ⟨tag.toNat, List.mem_range.2 h, UInt64.ofNat_toNat⟩

/-- The verification passes exactly if nothing is left and the tags taken are all tags, in some
order. -/
theorem check_eq_ok_iff {count : Word} {nodes : Nat} {taken : List Word} {total : Word} :
    check count nodes taken total = .ok () ↔
      count = 0 ∧ nodes = 0 ∧ taken.Perm (tagsBelow total.toNat) := by
  have hempty : ∀ t : Word, (Array.replicate total.toNat false)[t.toNat]? = some false ↔
      t.toNat < total.toNat := by
    intro t
    rw [Array.getElem?_replicate]
    split <;> simp_all
  have htags : (taken.length = total.toNat ∧ taken.Nodup ∧ ∀ t ∈ taken, t.toNat < total.toNat) ↔
      taken.Perm (tagsBelow total.toNat) := by
    constructor
    · rintro ⟨hlen, hnodup, hall⟩
      -- As many different tags as there are, and none of them unknown.
      have hsub := hnodup.subperm fun t ht => mem_tagsBelow.2 (hall t ht)
      exact hsub.perm_of_length_le (by simp [tagsBelow, hlen])
    · intro hperm
      refine ⟨?_, hperm.nodup_iff.2 (nodup_tagsBelow total), fun t ht => ?_⟩
      · simpa [tagsBelow] using hperm.length_eq
      · exact mem_tagsBelow.1 (hperm.mem_iff.1 ht)
  unfold check
  rw [← htags]
  by_cases hcount : count = 0
  · by_cases hnodes : nodes = 0
    · by_cases hlen : taken.length = total.toNat
      · simp [hcount, hnodes, hlen, checkTags_eq_ok_iff, hempty]
      · simp [hcount, hnodes, hlen]
    · simp [hcount, hnodes]
  · simp [hcount]

end AtomicFifo.Verification

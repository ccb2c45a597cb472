import AtomicFifo.Proofs.Round.Joining
import AtomicFifo.Proofs.Round.Verification
import AtomicFifo.Round.Faults
import Mathlib.Data.List.Induction
import Mathlib.Data.Nat.Find

/-!
# Which violation a round names

Most rounds that are wrong are wrong in several ways, and a round names one violation only: what
is left on the counter goes first, then the nodes that are left, then the number of the tags
taken. If all these are as they should be, it names the first tag, in the order in which the tags
come in the list, that is unknown or has come before. Whatever it names, the queue is dropped and
not released.

The loop over the tags keeps a table. After some tags have been entered, the table says of each
tag below the total whether it is one of them, and there is no place for any other tag.

* `Verification.getElem?_table`   what the table says
* `Arrives.of_clean`              where the loop comes to, and what it finds in the table
* `checkTags_firstOffence`        the violation of the first tag that offends
* `verify_names`                  the precedence of the violations
-/

namespace AtomicFifo

universe u v

namespace Verification

variable {total : Word} {tags : List Word} {i j : Nat} {t : Word}

/-! ### The table -/

/-- The table after these tags have been entered. -/
def table (total : Word) (tags : List Word) : Array Bool :=
  tags.foldl (fun seen tag => seen.setIfInBounds tag.toNat true)
    (Array.replicate total.toNat false)

/-- One more tag marks one more entry of the table. -/
private theorem table_concat (total : Word) (tags : List Word) (t : Word) :
    table total (tags ++ [t]) = (table total tags).setIfInBounds t.toNat true := by
  simp [table]

/-- The table has one place for each tag below the total, whatever has been entered. -/
@[simp] theorem size_table (total : Word) (tags : List Word) :
    (table total tags).size = total.toNat := by
  induction tags using List.reverseRecOn with
  | nil => simp [table]
  | append_singleton tags t ih => rw [table_concat, Array.size_setIfInBounds, ih]

/-- The place of a tag says whether the tag has been entered; an unknown tag has no place. -/
theorem getElem?_table (total : Word) (tags : List Word) (t : Word) :
    (table total tags)[t.toNat]? =
      if t.toNat < total.toNat then some (decide (t ∈ tags)) else none := by
  induction tags using List.reverseRecOn with
  | nil => simp [table, Array.getElem?_replicate]
  | append_singleton tags u ih =>
    rw [table_concat, Array.getElem?_setIfInBounds, size_table, ih]
    by_cases hut : u = t
    · subst hut
      simp
    · have hne : u.toNat ≠ t.toNat := fun heq => hut (UInt64.toNat.inj heq)
      simp [hne, Ne.symm hut]

/-! ### The first tag that offends -/

/-- At this place stands a tag that is unknown or that has come before. -/
def Offends (total : Word) (tags : List Word) (i : Nat) : Prop :=
  ∃ t, tags[i]? = some t ∧ (total.toNat ≤ t.toNat ∨ t ∈ tags.take i)

/-- The tag `t` at place `j` is unknown or has come before, and no place in front has such a
tag. -/
structure FirstOffence (total : Word) (tags : List Word) (j : Nat) (t : Word) : Prop where
  tag : tags[j]? = some t
  offends : total.toNat ≤ t.toNat ∨ t ∈ tags.take j
  before : ∀ i < j, ¬ Offends total tags i

/-- What is said of the first tag that offends: that it is unknown if it is, and else that it has
come before. -/
def verdict (total t : Word) : Violation :=
  if total.toNat ≤ t.toNat then .unknownTag t else .repeatedTag t

/-- The loop over the tags comes to place `i`, where tag `t` stands, with the tags in front of it
entered, and looks this tag up. -/
structure Arrives (total : Word) (tags : List Word) (i : Nat) (t : Word) : Prop where
  walked : checkTags (table total []) tags =
    checkTags (table total (tags.take i)) (t :: tags.drop (i + 1))
  size : (table total (tags.take i)).size = total.toNat
  lookup : (table total (tags.take i))[t.toNat]? =
    if t.toNat < total.toNat then some (decide (t ∈ tags.take i)) else none

/-- A tag that does not offend is entered. -/
private theorem checkTags_table_cons {done rest : List Word} (hlt : t.toNat < total.toNat)
    (hnew : t ∉ done) :
    checkTags (table total done) (t :: rest) = checkTags (table total (done ++ [t])) rest := by
  have hlookup : (table total done)[t.toNat]? = some false := by
    rw [getElem?_table, if_pos hlt]
    simp [hnew]
  rw [checkTags, hlookup, table_concat]

/-- As long as no tag offends, the loop goes on. -/
private theorem checkTags_take_drop (hclean : ∀ k < i, ¬ Offends total tags k) :
    checkTags (table total []) tags = checkTags (table total (tags.take i)) (tags.drop i) := by
  induction i with
  | zero => rfl
  | succ i ih =>
    rw [ih fun k hk => hclean k (Nat.lt_succ_of_lt hk)]
    by_cases hi : i < tags.length
    · have hget := List.getElem?_eq_getElem hi
      have hnot : ¬ (total.toNat ≤ tags[i].toNat ∨ tags[i] ∈ tags.take i) := fun h =>
        hclean i (Nat.lt_succ_self i) ⟨_, hget, h⟩
      obtain ⟨hlt, hnew⟩ := not_or.1 hnot
      rw [List.drop_eq_getElem_cons hi, checkTags_table_cons (Nat.lt_of_not_le hlt) hnew,
        List.take_add_one, hget]
      rfl
    · -- There are no more tags, so neither side goes on.
      have hi := Nat.le_of_not_lt hi
      rw [List.take_of_length_le hi, List.take_of_length_le (Nat.le_succ_of_le hi),
        List.drop_of_length_le hi, List.drop_of_length_le (Nat.le_succ_of_le hi)]

/-- A check that has met no offence so far arrives at the next tag. -/
theorem Arrives.of_clean (hget : tags[i]? = some t) (hclean : ∀ k < i, ¬ Offends total tags k) :
    Arrives total tags i t where
  walked := by
    obtain ⟨hi, rfl⟩ := List.getElem?_eq_some_iff.1 hget
    rw [checkTags_take_drop hclean, List.drop_eq_getElem_cons hi]
  size := size_table total _
  lookup := getElem?_table total _ t

/-- The loop stops at the first tag that offends. -/
theorem checkTags_firstOffence (h : FirstOffence total tags j t) :
    checkTags (table total []) tags = .error (verdict total t) := by
  obtain ⟨hwalked, -, hlookup⟩ := Arrives.of_clean h.tag h.before
  rw [hwalked, checkTags, hlookup, verdict]
  by_cases hle : total.toNat ≤ t.toNat
  · rw [if_neg (Nat.not_lt.2 hle), if_pos hle]
  · have hmem : t ∈ tags.take j := h.offends.resolve_left hle
    rw [if_pos (Nat.lt_of_not_le hle), if_neg hle]
    simp [hmem]

/-- Where no tag offends, all of them are entered. -/
private theorem checkTags_of_clean (h : ∀ i, ¬ Offends total tags i) :
    checkTags (table total []) tags = .ok () := by
  rw [checkTags_take_drop (i := tags.length) fun k _ => h k, List.drop_length]
  rfl

/-- With nothing left and as many tags as there are, the verification is the loop. -/
private theorem check_eq_checkTags (hlen : tags.length = total.toNat) :
    check 0 0 tags total = checkTags (table total []) tags := by
  simp [check, hlen, table]

/-- As many tags as there are, in which something is wrong, have a first one that offends. -/
private theorem exists_firstOffence (hlen : tags.length = total.toNat)
    (hperm : ¬ tags.Perm (tagsBelow total.toNat)) : ∃ j t, FirstOffence total tags j t := by
  classical
  have hsome : ∃ j, Offends total tags j := by
    by_contra hnone
    rw [not_exists] at hnone
    have hcheck : check 0 0 tags total = .ok () :=
      (check_eq_checkTags hlen).trans (checkTags_of_clean hnone)
    exact hperm (check_eq_ok_iff.1 hcheck).2.2
  obtain ⟨t, hget, hoffends⟩ := Nat.find_spec hsome
  exact ⟨Nat.find hsome, t, hget, hoffends, fun i hi => Nat.find_min hsome hi⟩

end Verification

namespace Round

variable {σ : Type u} {κ : Type v} {subject : Subject σ κ} {total : Word} {queue asked left : σ}
  {tags : List Word}

/-! ### The verification of a subject -/

/-- A queue with something on its counter is asked for it once more, for the message. -/
private theorem inspect_countLeft {count again : Word}
    (hlen : subject.len? queue = some (asked, count)) (hcount : count ≠ 0)
    (hagain : subject.len? asked = some (left, again)) :
    inspect subject total queue tags = some (left, .error (.countLeft again)) := by
  simp [inspect, hlen, hcount, hagain]

/-- With nothing on the counter the nodes and the tags are verified. -/
theorem inspect_check {nodes : Nat} (hlen : subject.len? queue = some (asked, 0))
    (hnodes : subject.nodeCount? asked = some (left, nodes)) :
    inspect subject total queue tags = some (left, Verification.check 0 nodes tags total) := by
  simp [inspect, hlen, hnodes]

/-- The round ends with an error of this text. It emits no event for it, and it drops the queue:
what a release would do does not matter, and neither does the size of a node. -/
structure Rejected (subject : Subject σ κ) (total : Word) (queue : σ) (tags : List Word)
    (text : String) : Prop where
  outcome : ∃ e, (verify subject total queue tags).outcome = .failed (.error e) ∧
    e.chain = .single text
  events : (verify subject total queue tags).events = []
  dropped : ∃ left, (verify subject total queue tags).dropped = some left
  unreleased : ∀ release nodeSize,
    verify { subject with release := release, nodeSize := nodeSize } total queue tags =
      verify subject total queue tags

/-- What the inspection finds is what the round is rejected with. -/
private theorem Rejected.of_inspect {v : Violation} {text : String}
    (h : inspect subject total queue tags = some (left, .error v)) (htext : v.message = text) :
    Rejected subject total queue tags text := by
  have hverify : verify subject total queue tags =
      ⟨⟨.failed (.error (.violation v)), []⟩, some left⟩ := by
    simp [verify, h]
  refine ⟨⟨.violation v, by rw [hverify], congrArg ErrorChain.single htext⟩, by rw [hverify],
    ⟨left, by rw [hverify]⟩, fun release nodeSize => ?_⟩
  -- The verification asks for the sizes only, and these are answered as before.
  have h' : inspect { subject with release := release, nodeSize := nodeSize } total queue tags =
      some (left, .error v) := h
  rw [hverify]
  simp [verify, h']

/-- Which violation a round names whose threads have all ended normally, over any subject, with
any total and any tags taken. If the counter does not answer zero, it names what the counter
answers when it is asked for the message; else the nodes that are left, if there are any; else the
number of the tags taken, if it is not the total. If these are as they should be and the tags
taken are not all tags in some order, some tag is the first that offends, and the round names this
one, as unknown or as taken twice. Until then the loop enters tag after tag, and looks up none
that has no place in the table but an unknown one, which ends it. In no other case does the
verification fail, and in all of these the queue is not released. -/
theorem verify_names (subject : Subject σ κ) (total : Word) (queue : σ) (tags : List Word) :
    (∀ asked count left again, subject.len? queue = some (asked, count) → count ≠ 0 →
      subject.len? asked = some (left, again) →
        Rejected subject total queue tags
          ("count is " ++ toString again.toNat ++ " after drain")) ∧
    (∀ asked left nodes, subject.len? queue = some (asked, 0) →
      subject.nodeCount? asked = some (left, nodes) →
        (nodes ≠ 0 → Rejected subject total queue tags
          (toString nodes ++ " nodes are still linked after drain")) ∧
        (nodes = 0 → tags.length ≠ total.toNat → Rejected subject total queue tags
          ("dequeued " ++ toString tags.length ++ " of " ++ toString total.toNat ++ " items")) ∧
        (nodes = 0 → tags.length = total.toNat →
          (¬ tags.Perm (Verification.tagsBelow total.toNat) →
            ∃ j t, Verification.FirstOffence total tags j t) ∧
          (∀ j t, Verification.FirstOffence total tags j t →
            Rejected subject total queue tags
              (if total.toNat ≤ t.toNat then "dequeued unknown item " ++ toString t.toNat
                else "dequeued item " ++ toString t.toNat ++ " twice")) ∧
          (tags.Perm (Verification.tagsBelow total.toNat) →
            inspect subject total queue tags = some (left, .ok ())))) ∧
    (∀ i t, tags[i]? = some t → (∀ k < i, ¬ Verification.Offends total tags k) →
      Verification.Arrives total tags i t) ∧
    ∀ crowd : Crowd σ κ, crowd.queue = queue → taken crowd = tags → crowd.ended = true →
      (∀ e ∈ endings crowd, e = .completed) → allocatable total = true →
        conclude subject total crowd =
          { verify subject total queue tags with
            events := crowd.log.reverse ++ (verify subject total queue tags).events } := by
  refine ⟨fun asked count left again hlen hcount hagain => ?_,
    fun asked left nodes hlen hnodes => ⟨fun hne => ?_, ?_, ?_⟩,
    fun i t hget hclean => .of_clean hget hclean, ?_⟩
  · exact .of_inspect (inspect_countLeft hlen hcount hagain) rfl
  · have hcheck : Verification.check 0 nodes tags total = .error (.nodesLeft nodes) := by
      simp [Verification.check, hne]
    exact .of_inspect ((inspect_check hlen hnodes).trans (by rw [hcheck])) rfl
  · rintro rfl hne
    have hcheck : Verification.check 0 0 tags total = .error (.wrongNumber tags.length total) := by
      simp [Verification.check, hne]
    exact .of_inspect ((inspect_check hlen hnodes).trans (by rw [hcheck])) rfl
  · rintro rfl heq
    -- With nothing left in the queue and the right number of tags, the table decides.
    have hinspect : inspect subject total queue tags = _ :=
      (inspect_check hlen hnodes).trans (by rw [Verification.check_eq_checkTags heq])
    refine ⟨Verification.exists_firstOffence heq, fun j t hfirst => ?_, fun hperm => ?_⟩
    · rw [Verification.checkTags_firstOffence hfirst] at hinspect
      refine .of_inspect hinspect ?_
      unfold Verification.verdict
      split <;> rfl
    · rw [inspect_check hlen hnodes, Verification.check_eq_ok_iff.2 ⟨rfl, rfl, hperm⟩]
  · rintro crowd rfl rfl hended hall hroom
    exact conclude_completed hended hall hroom

/-- An unknown tag and a known one, both of them taken twice: the first that is wrong is the
unknown one where it comes for the first time. -/
theorem verify_names_tangled :
    let subject := Subject.linked (.addresses Word)
    let tags : List Word := [2, 9, 2, 9]
    Verification.FirstOffence 4 tags 1 9 ∧
      Rejected subject 4 .init tags "dequeued unknown item 9" := by
  intro subject tags
  -- The second tag is unknown, and no tag before it offends.
  have hfirst : Verification.FirstOffence 4 tags 1 9 := by
    refine ⟨rfl, .inl (by decide), fun i hi => ?_⟩
    obtain rfl : i = 0 := by omega
    rintro ⟨t, hget, hoffends⟩
    obtain rfl : 2 = t := Option.some.inj hget
    revert hoffends
    decide
  have hlen : subject.len? .init = some (.init, 0) := rfl
  have hnodes : subject.nodeCount? .init = some (.init, 0) := rfl
  obtain ⟨-, hsizes, -, -⟩ := verify_names subject 4 .init tags
  obtain ⟨-, -, hnames⟩ := hsizes _ _ 0 hlen hnodes
  exact ⟨hfirst, (hnames rfl rfl).2.1 1 9 hfirst⟩

end Round

end AtomicFifo

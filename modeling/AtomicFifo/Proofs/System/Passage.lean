import AtomicFifo.Proofs.Call.Promotion
import AtomicFifo.Proofs.System.Invariant
import Mathlib.Data.List.Induction

/-!
# The nodes that have been passed

The nodes of a queue are linked one behind the other, and the tail and the head pass them in this
very order, one by one. So a run links no node twice, and no node is made the tail twice or the
head twice, however many threads try to do it at the same time.

* `promotions`           the exchanges of a run that have succeeded
* `Shared.Passed`        what has been linked, and how far the tail and the head have come
* `Passed.unique`        the links, the tail and the head tell what has been promoted
* `passed_run`           the tail and the head follow the links along every run
-/

namespace AtomicFifo

universe u

open Links

variable {α : Type u}

namespace Promotion

/-- There are as many promotions as there are of the three kinds together. -/
theorem length_eq (l : List Promotion) :
    l.length = (l.filterMap linked?).length + (l.filterMap tail?).length +
      (l.filterMap head?).length := by
  induction l with
  | nil => rfl
  | cons p l ih => cases p <;> simp [List.filterMap_cons, linked?, tail?, head?, ih] <;> omega

end Promotion

namespace Shared

/-- A pointer that began at `first` has come to these nodes, one after the other, of those that
are linked behind `first`. -/
structure Along (first : NodeId) (linked passed : List NodeId) (pointer : NodeId) : Prop where
  within : passed <+: linked
  last_eq : (first :: passed).getLast? = some pointer

/-- The nodes linked behind `first`, and those that the tail and the head have come to. -/
structure Passed (s : Shared α) (first : NodeId) (linked tails heads : List NodeId) : Prop where
  path : Path s.next (some first) (first :: linked)
  tails : Along first linked tails s.tail
  heads : Along first linked heads s.head

variable {s s' : Shared α} {first pointer : NodeId} {linked passed tails heads : List NodeId}

namespace Along

/-- Where the pointer stands on the path. -/
private theorem exists_split (h : Along first linked passed pointer) :
    ∃ l r, first :: linked = l ++ pointer :: r ∧ linked = passed ++ r := by
  obtain ⟨r, rfl⟩ := h.within
  obtain ⟨l, hl⟩ := List.getLast?_eq_some_iff.1 h.last_eq
  refine ⟨l, r, ?_, rfl⟩
  rw [← List.cons_append, hl, List.append_assoc]
  rfl

/-- The pointer moves over its link. -/
private theorem next {next : NodeId → Option NodeId} {m : NodeId}
    (h : Along first linked passed pointer)
    (hpath : Path next (some first) (first :: linked)) (hm : next pointer = some m) :
    Along first linked (passed ++ [m]) m := by
  obtain ⟨l, r, hsplit, rfl⟩ := h.exists_split
  rw [hsplit] at hpath
  have hr := path_next hpath
  rw [hm] at hr
  cases r with
  | nil => cases hr
  | cons k r =>
    cases hr
    exact ⟨⟨r, by simp⟩, by rw [← List.cons_append, List.getLast?_concat]⟩

/-- Another node is linked. -/
private theorem concat (h : Along first linked passed pointer) (n : NodeId) :
    Along first (linked ++ [n]) passed pointer :=
  ⟨h.within.trans (List.prefix_append _ _), h.last_eq⟩

/-- Where a pointer stands tells how far it has come. -/
theorem unique {next : NodeId → Option NodeId} {passed' : List NodeId}
    (hpath : Path next (some first) (first :: linked)) (h : Along first linked passed pointer)
    (h' : Along first linked passed' pointer) : passed = passed' := by
  obtain ⟨l, r, hsplit, hr⟩ := h.exists_split
  obtain ⟨l', r', hsplit', hr'⟩ := h'.exists_split
  -- Both leave the same rest of the path behind the pointer.
  have hrest : pointer :: r = pointer :: r' :=
    Path.unique (hsplit ▸ hpath).suffix (hsplit' ▸ hpath).suffix
  cases hrest
  exact List.append_cancel_right (hr.symm.trans hr')

end Along

namespace Passed

/-- No node is linked twice. -/
theorem nodup (h : s.Passed first linked tails heads) : linked.Nodup :=
  (List.nodup_cons.1 h.path.nodup).2

/-- What was promoted is determined by the links, the tail and the head. -/
theorem unique {linked' tails' heads' : List NodeId} (h : s.Passed first linked tails heads)
    (h' : s'.Passed first linked' tails' heads') (hnext : s'.next = s.next)
    (htail : s'.tail = s.tail) (hhead : s'.head = s.head) :
    linked' = linked ∧ tails' = tails ∧ heads' = heads := by
  have hpath := h'.path
  rw [hnext] at hpath
  cases hpath.unique h.path
  have htails := h'.tails
  have hheads := h'.heads
  rw [htail] at htails
  rw [hhead] at hheads
  exact ⟨rfl, htails.unique h.path h.tails, hheads.unique h.path h.heads⟩

/-- A promotion adds its node to those linked, or to those that the tail or the head has come
to. -/
private theorem promoted {p : Option Promotion} (h : s.Passed first linked tails heads)
    (hs : s.Coherent) (hp : s.Promoted p s') :
    s'.Passed first (linked ++ (p.bind Promotion.linked?).toList)
      (tails ++ (p.bind Promotion.tail?).toList) (heads ++ (p.bind Promotion.head?).toList) := by
  cases hp with
  | rest hhead htail hnext =>
    exact {
      path := by simpa [hnext] using h.path
      tails := by simpa [htail] using h.tails
      heads := by simpa [hhead] using h.heads }
  | @linked n ht hn =>
    exact {
      path := by
        -- The tail has no link, so the path ends there, and goes on with the new node now.
        obtain ⟨l, r, hsplit, -⟩ := h.tails.exists_split
        have hlast := path_getLast? h.path (by simp [hsplit]) ht
        exact path_concat h.path hlast (linkBehind_next hs n) (linkBehind_next_self hs hn)
      tails := by simpa [Promotion.linked?, Promotion.tail?] using h.tails.concat n
      heads := by simpa [Promotion.linked?, Promotion.head?] using h.heads.concat n }
  | tail hm =>
    exact {
      path := by simpa [Promotion.linked?] using h.path
      tails := by simpa [Promotion.linked?, Promotion.tail?] using h.tails.next h.path hm
      heads := by simpa [Promotion.linked?, Promotion.head?] using h.heads }
  | head hm =>
    exact {
      path := by simpa [Promotion.linked?] using h.path
      tails := by simpa [Promotion.linked?, Promotion.tail?] using h.tails
      heads := by simpa [Promotion.linked?, Promotion.head?] using h.heads.next h.path hm }

end Passed

end Shared

namespace System

/-- The promotion that a move makes. -/
def promotes? (s : System α) : Move α → Option Promotion
  | .start _ _ => none
  | .advance thread _ => (s.running? thread).bind (·.promotes? s.shared)

/-- The promotions of a run. -/
def promotions : System α → List (Move α) → List Promotion
  | _, [] => []
  | s, move :: moves => (s.promotes? move).toList ++ promotions (s.step move) moves

/-- The promotions of a run and its continuation are those of both. -/
theorem promotions_append (s : System α) (moves moves' : List (Move α)) :
    s.promotions (moves ++ moves') = s.promotions moves ++ (s.run moves).promotions moves' := by
  induction moves generalizing s with
  | nil => rfl
  | cons move moves ih => simp [promotions, ih]

variable {s : System α} {first : NodeId} {linked tails heads : List NodeId}

/-- Every move makes the promotion that it is said to make. -/
theorem Inv.promoted (h : s.Inv) (move : Move α) :
    s.shared.Promoted (s.promotes? move) (s.step move).shared := by
  cases move with
  | start thread request =>
    by_cases hidle : s.idle thread = true
    · rw [step_start hidle]
      exact .rest rfl rfl rfl
    · rw [step_start_of_busy hidle]
      exact .rest rfl rfl rfl
  | advance thread memory =>
    cases hrun : s.running? thread with
    | none =>
      rw [step_advance_of_idle hrun]
      simp only [promotes?, hrun]
      exact .rest rfl rfl rfl
    | some call =>
      have hat := (running?_eq_some_iff.1 hrun).1
      rw [step_advance hrun]
      simp only [promotes?, hrun]
      exact call.step_promoted memory (h.knows hat) fun n hn => h.apart hat hn

/-- A run adds what it promotes to what has been passed before. -/
private theorem Inv.passed (h : s.Inv) (hp : s.shared.Passed first linked tails heads)
    (moves : List (Move α)) :
    (s.run moves).shared.Passed first
      (linked ++ (s.promotions moves).filterMap Promotion.linked?)
      (tails ++ (s.promotions moves).filterMap Promotion.tail?)
      (heads ++ (s.promotions moves).filterMap Promotion.head?) := by
  induction moves generalizing s linked tails heads with
  | nil => simpa [promotions] using hp
  | cons move moves ih =>
    have hrest := ih (h.step move) (hp.promoted h.coherent (h.promoted move))
    -- The promotion of the first move, if any, comes before those of the others.
    have hadd : ∀ (f : Promotion → Option NodeId) (l : List NodeId),
        l ++ ((s.promotes? move).bind f).toList ++
            ((s.step move).promotions moves).filterMap f =
          l ++ (s.promotions (move :: moves)).filterMap f := by
      intro f l
      cases hp : s.promotes? move with
      | none => simp [promotions, hp]
      | some p => cases hf : f p <;> simp [promotions, hp, hf]
    rw [hadd, hadd, hadd] at hrest
    exact hrest

/-- At the start nothing has been linked or passed. -/
private theorem passed_init (threads : Nat) : (init threads : System α).shared.Passed 0 [] [] [] :=
  ⟨.cons .nil, ⟨List.nil_prefix, rfl⟩, ⟨List.nil_prefix, rfl⟩⟩

/-- In every run the tail and the head pass the nodes in the order in which they are linked. -/
theorem passed_run (threads : Nat) (moves : List (Move α)) :
    let promoted := (init threads : System α).promotions moves
    ((init threads).run moves).shared.Passed 0 (promoted.filterMap Promotion.linked?)
      (promoted.filterMap Promotion.tail?) (promoted.filterMap Promotion.head?) := by
  simpa using (inv_init threads).passed (passed_init threads) moves

end System

end AtomicFifo

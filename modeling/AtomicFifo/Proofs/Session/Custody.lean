import AtomicFifo.Session
import Mathlib.Data.List.Perm.Basic

/-!
# What the books of a session account for

Books that stand in some relation to the items that are in the queues stay in this relation
whatever commands are run, if they do so where a single item comes out of the hands of the user or
goes back there. It does not matter which queue an item is in, nor in which order the items are,
nor how a queue ends.

* `Custody.Sound`          what the user has to do with a single item
* `Facade.items`           the items of a queue, and what each operation makes of them
* `Session.contents`       the items of all queues of a session
* `Session.run_accounted`  one command
* `Session.finish_accounted`, `Session.contents_finish`  the end of a session
-/

namespace AtomicFifo

universe u v w x

variable {ε : Type u} {σ : Type v} {ι : Type w} {α : Type x}

/-! ### Items in a queue -/

namespace Facade

variable (f : Facade ι α) (q : Queue α)

/-- The items of a queue, the oldest first. -/
def items : List ι := q.toList.map f.unwrap

/-- A new queue holds nothing. -/
private theorem items_init : f.items .init = [] := rfl

/-- An enqueue appends its item. -/
theorem items_enqueue (i : ι) : f.items (f.enqueue q i) = f.items q ++ [i] := by
  simp [items, enqueue, Queue.toList_enqueue, f.unwrap_wrap]

/-- A dequeue answers the first item and leaves the others. -/
theorem dequeue_eq :
    (f.dequeue q).2 = (f.items q).head? ∧ f.items (f.dequeue q).1 = (f.items q).tail :=
  ⟨by simp [dequeue, items, Queue.dequeue_snd], by simp [dequeue, items, Queue.toList_dequeue]⟩

/-- The items are the one that a dequeue answers and those that it leaves. -/
private theorem items_dequeue : f.items q = (f.dequeue q).2.toList ++ f.items (f.dequeue q).1 := by
  rw [items, q.toList_split_dequeue, List.map_append, ← Option.toList_map]
  rfl

/-- The items are those that a drain takes and those that it leaves. -/
private theorem items_drain : f.items q = (f.drain q).2 ++ f.items (f.drain q).1 := by
  rw [items, q.toList_split_drain, List.map_append]
  rfl

/-- The items are those that are taken and those that stay. -/
private theorem items_takeUpTo (k : Nat) :
    f.items q = (f.takeUpTo k q).2 ++ f.items (f.takeUpTo k q).1 := by
  rw [items, Queue.toList_split_takeUpTo k q, List.map_append]
  rfl

/-- The items are the skipped ones, the one that is taken and those that stay. -/
private theorem items_takeNth (n : Nat) :
    f.items q = (f.takeNth n q).2.1 ++ (f.takeNth n q).2.2.toList ++ f.items (f.takeNth n q).1 := by
  rw [items, Queue.toList_split_takeNth n q, List.map_append, List.map_append, ← Option.toList_map]
  rfl

/-- The end of a queue drops all items that it holds. -/
private theorem remains_eq : f.remains q = f.items q := rfl

end Facade

/-! ### Single items -/

/-- What a user does with an item that it has got keeps its books right. -/
def Custody.Takes (Owes : ε → List ι → Prop) (take : ε → ι → ε) : Prop :=
  ∀ books i items, Owes books (i :: items) → Owes (take books i) items

/-- What a user does with a single item keeps its books right: they owe an item more where it
gives one away, an item less where it gets one, and do not care about the order. -/
structure Custody.Sound (c : Custody ε σ ι) (Owes : ε → List ι → Prop) : Prop where
  perm : ∀ {books items items'}, items.Perm items' → Owes books items → Owes books items'
  fetch : ∀ {books item i books' items}, c.fetch books item = some (i, books') →
    Owes books items → Owes books' (i :: items)
  generate : ∀ {books n i books' items}, c.generate books n = some (i, books') →
    Owes books items → Owes books' (i :: items)
  release : Custody.Takes Owes c.release
  keep : Custody.Takes Owes c.keep
  drop : Custody.Takes Owes c.drop

namespace Custody

variable {c : Custody ε σ ι} {Owes : ε → List ι → Prop} {take : ε → ι → ε} {books : ε}

/-- Items that are taken one after the other are all accounted for. -/
theorem Takes.foldl (h : Takes Owes take) {taken items : List ι}
    (ho : Owes books (taken ++ items)) : Owes (taken.foldl take books) items := by
  induction taken generalizing books with
  | nil => exact ho
  | cons i taken ih => exact ih (h _ _ _ ho)

/-- An item that may have been found is accounted for. -/
theorem Takes.elim (h : Takes Owes take) {i : Option ι} {items : List ι}
    (ho : Owes books (i.toList ++ items)) : Owes (i.elim books (take books)) items := by
  cases i with
  | none => exact ho
  | some i => exact h _ _ _ ho

end Custody

/-! ### Commands on one queue -/

namespace Session

open Custody

variable {f : Facade ι α} {c : Custody ε σ ι} {Owes : ε → List ι → Prop} {take : ε → ι → ε}
  {q : Queue α} {books : ε} {rest : List ι}

/-- An item of the user goes into a queue. -/
private theorem enqueue_accounted (h : c.Sound Owes) {i : ι}
    (ho : Owes books (i :: (f.items q ++ rest))) :
    Owes books (f.items (f.enqueue q i) ++ rest) := by
  refine h.perm ?_ ho
  rw [f.items_enqueue, List.append_assoc]
  exact List.perm_middle.symm

/-- A dequeue accounts for the item that it finds. -/
theorem dequeue_accounted (htake : Takes Owes take) (ho : Owes books (f.items q ++ rest)) :
    Owes ((f.dequeue q).2.elim books (take books)) (f.items (f.dequeue q).1 ++ rest) := by
  rw [f.items_dequeue, List.append_assoc] at ho
  exact htake.elim ho

/-- Filling a queue accounts for the items that it is filled with. -/
private theorem fill_accounted (h : c.Sound Owes) {first : Word} {n done : Nat}
    (ho : Owes books (f.items q ++ rest)) :
    Owes (fill f c first n done q books).2.1
      (f.items (fill f c first n done q books).1 ++ rest) := by
  -- By induction on the number of items that are still to come.
  induction n generalizing done q books with
  | zero => exact ho
  | succ n ih =>
    unfold fill
    cases hgen : c.generate books (first + UInt64.ofNat done) with
    | none => exact ho
    | some got =>
      obtain ⟨i, books'⟩ := got
      exact ih (enqueue_accounted h (h.generate hgen ho))

/-- A step of a live drain accounts for what goes in and out. -/
private theorem liveStep_accounted (h : c.Sound Owes) {step : LiveStep σ} {q' : Queue α}
    {books' : ε} {answer : LiveAnswer ι}
    (hstep : liveStep f c q books step = some (q', books', answer))
    (ho : Owes books (f.items q ++ rest)) : Owes books' (f.items q' ++ rest) := by
  cases step with
  | next | dequeue =>
    cases hstep
    exact dequeue_accounted h.release ho
  | enqueue item =>
    simp only [liveStep] at hstep
    cases hfetch : c.fetch books item with
    | none =>
      simp only [hfetch] at hstep
      cases hstep
      exact ho
    | some got =>
      obtain ⟨i, books'⟩ := got
      simp only [hfetch] at hstep
      cases hstep
      exact enqueue_accounted h (h.fetch hfetch ho)
  -- An unknown step ends the script and does nothing.
  | unknown => cases hstep
  | len | isEmpty | sizeHint =>
    cases hstep
    exact ho

/-- A live drain accounts for what goes in and out. -/
private theorem liveScript_accounted (h : c.Sound Owes) {script : List (LiveStep σ)}
    (ho : Owes books (f.items q ++ rest)) :
    Owes (liveScript f c script q books).2.1
      (f.items (liveScript f c script q books).1 ++ rest) := by
  -- By induction on the script, which ends early at a step that is unknown.
  induction script generalizing q books with
  | nil => exact ho
  | cons step script ih =>
    unfold liveScript
    cases hstep : liveStep f c q books step with
    | none => exact ho
    | some next =>
      obtain ⟨q', books', answer⟩ := next
      exact ih (liveStep_accounted h hstep ho)

/-- Whatever is done with a queue, all items are accounted for. -/
private theorem act_accounted (h : c.Sound Owes) {action : Action σ}
    (ho : Owes books (f.items q ++ rest)) :
    Owes (act f c q books action).2.1 (f.items (act f c q books action).1 ++ rest) := by
  cases action with
  | enqueue memory item =>
    simp only [act]
    cases hfetch : c.fetch books item with
    | none => exact ho
    | some got =>
      obtain ⟨i, books'⟩ := got
      have ho := h.fetch hfetch ho
      cases memory with
      | true => exact enqueue_accounted h ho
      | false =>
        -- The item comes back, and the user lets it go.
        simp only [f.enqueue?_false]
        exact h.release _ _ _ ho
  | fill first count => exact fill_accounted h ho
  | dequeue => exact dequeue_accounted h.release ho
  | take => exact dequeue_accounted h.keep ho
  | drain limit =>
    cases limit with
    | none =>
      rw [f.items_drain, List.append_assoc] at ho
      exact h.release.foldl ho
    | some k =>
      rw [f.items_takeUpTo q k, List.append_assoc] at ho
      exact h.release.foldl ho
  | skip count =>
    -- The items skipped go first, then the one behind them.
    rw [f.items_takeNth q count, List.append_assoc, List.append_assoc] at ho
    exact h.release.elim (h.drop.foldl ho)
  -- What is discarded is let go like any other item.
  | discard =>
    rw [f.items_drain, List.append_assoc] at ho
    exact h.drop.foldl ho
  | live script =>
    cases script with
    | none => exact ho
    | some script => exact liveScript_accounted h ho
  | _ => exact ho

/-! ### Commands on two queues -/

/-- Whatever moves from one queue to another stays in one of them. -/
private theorem transfer_perm (n done : Nat) (source target : Queue α) :
    (f.items (transfer f n done source target).1 ++
      f.items (transfer f n done source target).2.1).Perm (f.items source ++ f.items target) := by
  induction n generalizing done source target with
  | zero => exact .refl _
  | succ n ih =>
    have hsource := f.items_dequeue source
    unfold transfer
    cases hdequeue : f.dequeue source with
    | mk source' found =>
      rw [hdequeue] at hsource
      cases found with
      | none =>
        rw [hsource]
        exact .refl _
      | some i =>
        -- The item is now behind those of the other queue.
        rw [hsource]
        refine (ih (done + 1) source' (f.enqueue target i)).trans ?_
        rw [f.items_enqueue, ← List.append_assoc]
        exact List.perm_append_singleton i _

/-- Moving items from the front of a queue to its end loses none. -/
private theorem rotate_perm (n done : Nat) (q : Queue α) :
    (f.items (rotate f n done q).1).Perm (f.items q) := by
  induction n generalizing done q with
  | zero => exact .refl _
  | succ n ih =>
    have hq := f.items_dequeue q
    unfold rotate
    cases hdequeue : f.dequeue q with
    | mk q' found =>
      rw [hdequeue] at hq
      -- Either the queue is empty, or its first item goes to the end.
      cases found with
      | none =>
        rw [hq]
        exact .refl _
      | some i =>
        rw [hq]
        refine (ih (done + 1) (f.enqueue q' i)).trans ?_
        rw [f.items_enqueue]
        exact List.perm_append_singleton i _

/-! ### The table -/

/-- The items at a place of the table. -/
def holdings (f : Facade ι α) (place : Option (Queue α)) : List ι := place.elim [] f.items

/-- The items in all queues of the table. -/
def contents (f : Facade ι α) (s : Session ε α) : List ι :=
  s.queues.toList.flatMap (holdings f)

variable {s : Session ε α} {place other : Nat}

/-- There is a queue at a place just if one was put there. -/
theorem queue?_eq_some : s.queue? place = some q ↔ s.queues[place]? = some (some q) := by
  simp [queue?, Option.join_eq_some_iff]

/-- Whatever stands at a place may be put there again. -/
theorem setIfInBounds_same {β : Type*} {xs : Array β} {n : Nat} {x : β}
    (h : xs[n]? = some x) : xs.setIfInBounds n x = xs := by
  obtain ⟨hlt, rfl⟩ := Array.getElem?_eq_some_iff.1 h
  simp [Array.setIfInBounds, hlt]

/-- What stands at one place of the table, and whatever stands at the others. -/
theorem exists_contents {o : Option (Queue α)} (h : s.queues[place]? = some o) :
    ∃ rest, (s.contents f).Perm (holdings f o ++ rest) ∧ ∀ o' (books : ε),
      (contents f ⟨s.queues.setIfInBounds place o', books⟩).Perm (holdings f o' ++ rest) := by
  obtain ⟨hlt, -⟩ := Array.getElem?_eq_some_iff.1 h
  -- What is held at the place can be brought to the front, and the rest does not depend on it.
  have hset : ∀ o' (books : ε),
      (contents f ⟨s.queues.setIfInBounds place o', books⟩).Perm (holdings f o' ++
        ((s.queues.toList.take place).flatMap (holdings f) ++
          (s.queues.toList.drop (place + 1)).flatMap (holdings f))) := by
    intro o' books
    unfold contents
    rw [Array.toList_setIfInBounds, List.set_eq_take_cons_drop _ (by simpa using hlt),
      List.flatMap_append, List.flatMap_cons, ← List.append_assoc, ← List.append_assoc]
    exact List.perm_append_comm.append_right _
  refine ⟨_, ?_, hset⟩
  have hsame := hset o s.books
  rwa [setIfInBounds_same h] at hsame

/-- Two places of the table come to hold together what they held. -/
private theorem contents_exchange {a b : Option (Queue α)} (a' b' : Option (Queue α))
    (hne : place ≠ other) (ha : s.queues[place]? = some a) (hb : s.queues[other]? = some b)
    (hperm : (holdings f a' ++ holdings f b').Perm (holdings f a ++ holdings f b)) :
    (contents f ⟨(s.queues.setIfInBounds place a').setIfInBounds other b', s.books⟩).Perm
      (s.contents f) := by
  have hb' : (s.queues.setIfInBounds place a')[other]? = some b := by
    rwa [Array.getElem?_setIfInBounds_ne hne]
  obtain ⟨rest, hbefore, hset⟩ := exists_contents (f := f) ha
  obtain ⟨rest', hbefore', hset'⟩ :=
    exists_contents (f := f) (s := ⟨s.queues.setIfInBounds place a', s.books⟩) hb'
  -- Between the two writes the table holds what is new at the one place and old at the other.
  classical
  rw [List.perm_iff_count] at hperm ⊢
  intro i
  have hmiddle := ((hset a' s.books).symm.trans hbefore').count_eq i
  have hbefore := hbefore.count_eq i
  have hafter := (hset' b' s.books).count_eq i
  have hperm := hperm i
  simp only [List.count_append] at hmiddle hbefore hafter hperm
  omega

/-- What the books owe is what the queues hold. -/
def Accounted (f : Facade ι α) (Owes : ε → List ι → Prop) (s : Session ε α) : Prop :=
  Owes s.books (s.contents f)

/-- A queue of the table is used and put back. -/
theorem Accounted.setQueue (h : c.Sound Owes) (hs : s.Accounted f Owes)
    (hq : s.queue? place = some q) {q' : Queue α} {books : ε}
    (hop : ∀ rest, Owes s.books (f.items q ++ rest) → Owes books (f.items q' ++ rest)) :
    Accounted f Owes { s.setQueue place q' with books := books } := by
  obtain ⟨rest, hbefore, hset⟩ := exists_contents (f := f) (queue?_eq_some.1 hq)
  exact h.perm (hset (some q') books).symm (hop rest (h.perm hbefore hs))

/-- A queue of the table ends. -/
private theorem Accounted.dispose (h : c.Sound Owes) (hs : s.Accounted f Owes)
    (hq : s.queue? place = some q) : Accounted f Owes (dispose f c s place q) := by
  obtain ⟨rest, hbefore, hset⟩ := exists_contents (f := f) (queue?_eq_some.1 hq)
  have ho : Owes s.books (f.items q ++ rest) := h.perm hbefore hs
  rw [← f.remains_eq] at ho
  exact h.perm (hset none _).symm (h.drop.foldl ho)

/-- What a command can make of a session. -/
inductive Ran (f : Facade ι α) (c : Custody ε σ ι) (s : Session ε α) : Session ε α → Prop
  | rest : Ran f c s s
  | create : Ran f c s { s with queues := s.queues.push (some .init) }
  -- Two places are exchanged, with or without queues on them.
  | swap {place other : Nat} {a b : Option (Queue α)} :
      s.queues[place]? = some a → s.queues[other]? = some b →
      Ran f c s { s with queues := (s.queues.setIfInBounds place b).setIfInBounds other a }
  | dispose {place : Nat} {q : Queue α} : s.queue? place = some q →
      Ran f c s (dispose f c s place q)
  | rotate {place : Nat} {q : Queue α} (count : Nat) : s.queue? place = some q →
      Ran f c s (s.setQueue place (rotate f count 0 q).1)
  | transfer {place other : Nat} {q target : Queue α} (count : Nat) : place ≠ other →
      s.queue? place = some q → s.queue? other = some target →
      Ran f c s ((s.setQueue place (transfer f count 0 q target).1).setQueue other
        (transfer f count 0 q target).2.1)
  | act {place : Nat} {q : Queue α} (action : Action σ) : s.queue? place = some q →
      Ran f c s { s.setQueue place (act f c q s.books action).1 with
        books := (act f c q s.books action).2.1 }

/-- Every command is one of the things that can happen to a session. -/
theorem run_ran (cmd : Command σ) : Ran f c s (run f c s cmd).1 := by
  -- By the command; one that names no queue does nothing.
  obtain ⟨action, place, other⟩ := cmd
  cases action with
  | create => exact .create
  | swap =>
    simp only [run]
    split
    · rename_i ha hb
      exact .swap ha hb
    · exact .rest
  | release | drop =>
    simp only [run]
    split
    · exact .rest
    · rename_i hq
      exact .dispose hq
  | move count =>
    simp only [run]
    split
    · exact .rest
    · split
      · exact .rest
      · rename_i hq
        split
        · exact .rotate count hq
        · rename_i hne
          split
          · exact .rest
          · rename_i htarget
            exact .transfer count (Ne.symm hne) hq htarget
  | _ =>
    simp only [run]
    split
    · exact .rest
    · split
      · exact .rest
      · rename_i hq
        exact .act _ hq

/-- Whatever is done to a session, its books owe what its queues hold. -/
theorem Accounted.ran (h : c.Sound Owes) (hs : s.Accounted f Owes) {s' : Session ε α}
    (hran : Ran f c s s') : s'.Accounted f Owes := by
  cases hran with
  | rest => exact hs
  | create =>
    -- A new queue holds nothing.
    refine h.perm (.of_eq ?_) hs
    simp [contents, holdings, f.items_init]
  | @swap place other a b ha hb =>
    by_cases hne : place = other
    · -- A place is exchanged with itself.
      subst hne
      obtain rfl : a = b := Option.some.inj (ha.symm.trans hb)
      rw [setIfInBounds_same ha, setIfInBounds_same ha]
      exact hs
    · exact h.perm (contents_exchange b a hne ha hb List.perm_append_comm).symm hs
  | dispose hq => exact hs.dispose h hq
  | rotate count hq =>
    exact hs.setQueue h hq fun rest ho => h.perm ((rotate_perm _ _ _).symm.append_right _) ho
  | transfer count hne hq htarget =>
    exact h.perm (contents_exchange (some _) (some _) hne (queue?_eq_some.1 hq)
      (queue?_eq_some.1 htarget) (transfer_perm _ _ _ _)).symm hs
  | act action hq => exact hs.setQueue h hq fun rest ho => act_accounted h ho

/-- One command. -/
theorem run_accounted (h : c.Sound Owes) (hs : s.Accounted f Owes) (cmd : Command σ) :
    (run f c s cmd).1.Accounted f Owes :=
  hs.ran h (run_ran cmd)

/-! ### The end -/

/-- What the places before `n` leave when their queues are dropped. -/
def finishUpTo (f : Facade ι α) (c : Custody ε σ ι) (s : Session ε α) (n : Nat) : Session ε α :=
  (List.range n).foldl (fun s place => (s.queue? place).elim s (dispose f c s place)) s

/-- The queues are disposed of in the order of their places. -/
private theorem finishUpTo_succ (n : Nat) : finishUpTo f c s (n + 1) =
    ((finishUpTo f c s n).queue? n).elim (finishUpTo f c s n)
      (dispose f c (finishUpTo f c s n) n) := by
  simp [finishUpTo, List.range_succ]

/-- At the end of a session all items are accounted for. -/
theorem finish_accounted (h : c.Sound Owes) (hs : s.Accounted f Owes) :
    (finish f c s).Accounted f Owes := by
  show (finishUpTo f c s s.queues.size).Accounted f Owes
  -- By induction on the number of places that have been visited.
  induction s.queues.size with
  | zero => exact hs
  | succ n ih =>
    rw [finishUpTo_succ]
    cases hq : (finishUpTo f c s n).queue? n with
    | none => exact ih
    | some q => exact ih.dispose h hq

/-- No place has a queue any more. -/
theorem contents_finish : (finish f c s).contents f = [] := by
  -- A place that was visited is empty, and stays so while the others are visited.
  have hgone : ∀ n, (finishUpTo f c s n).queues.size = s.queues.size ∧
      ∀ place < n, (finishUpTo f c s n).queue? place = none := by
    intro n
    induction n with
    | zero => exact ⟨rfl, fun place h => absurd h (Nat.not_lt_zero place)⟩
    | succ n ih =>
      obtain ⟨hsize, hnone⟩ := ih
      rw [finishUpTo_succ]
      cases hq : (finishUpTo f c s n).queue? n with
      | none =>
        refine ⟨hsize, fun place hplace => ?_⟩
        rcases Nat.lt_succ_iff_lt_or_eq.1 hplace with hlt | rfl
        · exact hnone place hlt
        · exact hq
      | some q =>
        refine ⟨by simp [dispose, clear, hsize], fun place hplace => ?_⟩
        simp only [Option.elim, dispose, clear, queue?]
        rcases Nat.lt_succ_iff_lt_or_eq.1 hplace with hlt | rfl
        · rw [Array.getElem?_setIfInBounds_ne (Nat.ne_of_gt hlt)]
          exact hnone place hlt
        · rw [Array.getElem?_setIfInBounds_self]
          split <;> rfl
  obtain ⟨hsize, hnone⟩ := hgone s.queues.size
  show (finishUpTo f c s s.queues.size).queues.toList.flatMap (holdings f) = []
  refine List.flatMap_eq_nil_iff.2 fun o ho => ?_
  obtain ⟨place, hplace⟩ := List.getElem?_of_mem ho
  rw [Array.getElem?_toList] at hplace
  obtain ⟨hlt, -⟩ := Array.getElem?_eq_some_iff.1 hplace
  have hgone := hnone place (hsize ▸ hlt)
  rw [queue?, hplace] at hgone
  cases o with
  | none => rfl
  | some q => cases hgone

end Session

end AtomicFifo

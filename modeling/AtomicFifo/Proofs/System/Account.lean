import AtomicFifo.Proofs.System.History
import AtomicFifo.Queue
import Mathlib.Data.List.Perm.Basic

/-!
# What became of the items

A history tells what became of every item: its thread asked for it to be enqueued, it entered
the queue, it left, and it was answered to a thread. For one thread the first two of these and
the last two agree up to the call that the thread is in; for all threads together, what entered
is what left and then what is still there.

* `Legal.entered_eq`      what entered, left and is there
* `Course.asked_eq`      what one thread asked for and let enter
* `Course.left_eq`       what one thread let leave and answered
* `History.perm_of`       a history is made up of the acts of its threads
* `History.filter_of`     items that tell their thread come in the order of this thread
* `History.filterMap_all`  what only one thread does
* `Legal.entered_perm`    what all threads together let enter, let leave and left there
-/

namespace AtomicFifo

universe u

variable {α : Type u}

namespace Act

/-- The item that an act asks to enqueue. -/
def asked? : Act α → Option α
  | .called (.enqueue a) => some a
  | _ => none

/-- The item that enters. -/
def entered? : Act α → Option α
  | .entered a => some a
  | _ => none

/-- The item that leaves. -/
def left? : Act α → Option α
  | .left a => some a
  | _ => none

/-- The item that is answered. -/
def answered? : Act α → Option α
  | .returned reply => reply.item?
  | _ => none

end Act

/-- The item of a call that has not entered yet. -/
def Standing.toEnter : Standing α → List α
  | .asked (.enqueue a) => [a]
  | _ => []

/-- The item of a call that has left and is not answered yet. -/
def Standing.toAnswer : Standing α → List α
  | .left a => [a]
  | _ => []

/-- The acts of all threads, in their order. -/
def History.all (h : List (Nat × Act α)) : List (Act α) := h.map (·.2)

/-- The acts of a history and its continuation are those of both. -/
private theorem History.all_append (h h' : List (Nat × Act α)) : all (h ++ h') = all h ++ all h' :=
  List.map_append

/-- What entered is what left, and then what is still there. -/
theorem Legal.entered_eq {h : List (Nat × Act α)} {l : List α} (hl : Legal h l) :
    (History.all h).filterMap Act.entered? = (History.all h).filterMap Act.left? ++ l := by
  induction hl with
  | nil => rfl
  | @snoc h x before after _ haff ih =>
    obtain ⟨thread, act⟩ := x
    rw [History.all_append, List.filterMap_append, List.filterMap_append, ih]
    cases act with
    | entered a =>
      simp only [Act.Affects] at haff
      simp [History.all, List.filterMap_cons, Act.entered?, Act.left?, haff]
    | left a =>
      simp only [Act.Affects] at haff
      simp [History.all, List.filterMap_cons, Act.entered?, Act.left?, haff]
    | called request =>
      simp only [Act.Affects] at haff
      simp [History.all, List.filterMap_cons, Act.entered?, Act.left?, haff]
    | returned reply =>
      -- A return changes nothing, whether it answers an item or none.
      have hsame : after = before := by
        cases reply with
        | dequeued item =>
          cases item with
          | none => exact haff.2
          | some a => exact haff
        | _ => exact haff
      simp [History.all, List.filterMap_cons, Act.entered?, Act.left?, hsame]

/-- A thread that is never refused lets enter what it asks for. -/
theorem Course.asked_eq {l : List (Act α)} {st : Standing α} (h : Course l st)
    (hmemory : ∀ a, Act.returned (.refused a) ∉ l) :
    l.filterMap Act.asked? = l.filterMap Act.entered? ++ st.toEnter := by
  induction h with
  | nil => rfl
  | @snoc l act st st' _ hgo ih =>
    have ih := ih fun a ha => hmemory a (List.mem_append_left _ ha)
    rw [List.filterMap_append, List.filterMap_append, ih]
    -- In each case the act takes the item on by one station.
    cases hgo with
    | called request =>
      cases request <;> simp [List.filterMap_cons, Act.asked?, Act.entered?, Standing.toEnter]
    | refused a => exact absurd (List.mem_append_right _ (List.mem_singleton.2 rfl)) (hmemory a)
    | _ => simp [List.filterMap_cons, Act.asked?, Act.entered?, Standing.toEnter]

/-- A thread answers what it lets leave. -/
theorem Course.left_eq {l : List (Act α)} {st : Standing α} (h : Course l st) :
    l.filterMap Act.left? = l.filterMap Act.answered? ++ st.toAnswer := by
  induction h with
  | nil => rfl
  | @snoc l act st st' _ hgo ih =>
    rw [List.filterMap_append, List.filterMap_append, ih]
    cases hgo <;>
      simp [List.filterMap_cons, Act.left?, Act.answered?, Standing.toAnswer, Reply.item?]

namespace History

variable {h : List (Nat × Act α)}

/-- An act of a history is one of its thread. -/
theorem mem_of {x : Nat × Act α} (hx : x ∈ h) : x.2 ∈ of x.1 h :=
  List.mem_filterMap.2 ⟨x, hx, by simp⟩

/-- The acts of one thread are some of all acts. -/
theorem of_sublist (thread : Nat) (h : List (Nat × Act α)) : (of thread h).Sublist (all h) := by
  induction h with
  | nil => exact .slnil
  | cons x h ih =>
    obtain ⟨t, act⟩ := x
    by_cases ht : t = thread
    · simpa [of, all, ht] using ih
    · have : of thread ((t, act) :: h) = of thread h := by simp [of, ht]
      rw [this]
      exact ih.cons _

/-- What only one member of a list has, the whole list has once. -/
private theorem flatMap_own {β : Type u} {l : List Nat} {t : Nat} (hnodup : l.Nodup) (ht : t ∈ l)
    (b : β) : l.flatMap (fun k => if t = k then [b] else []) = [b] := by
  induction l with
  | nil => cases ht
  | cons k l ih =>
    rw [List.nodup_cons] at hnodup
    rw [List.flatMap_cons]
    by_cases hk : t = k
    · subst hk
      -- It comes only once, so it is not among the others.
      have hrest : l.flatMap (fun k => if t = k then [b] else []) = [] := by
        refine List.flatMap_eq_nil_iff.2 fun k hk => if_neg ?_
        rintro rfl
        exact hnodup.1 hk
      rw [if_pos rfl, hrest]
      rfl
    · have ht : t ∈ l := by simpa [hk] using ht
      rw [if_neg hk, ih hnodup.2 ht]
      rfl

/-- A history is made up of the acts of its threads. -/
theorem perm_of {threads : Nat} (hlt : ∀ x ∈ h, x.1 < threads) :
    (all h).Perm ((List.range threads).flatMap fun thread => of thread h) := by
  induction h with
  | nil => simp [all, of]
  | cons x h ih =>
    obtain ⟨t, act⟩ := x
    have ih := ih fun y hy => hlt y (List.mem_cons_of_mem _ hy)
    have hsplit : ∀ thread, of thread ((t, act) :: h) =
        (if t = thread then [act] else []) ++ of thread h := by
      intro thread
      by_cases ht : t = thread <;> simp [of, ht]
    have hown : (List.range threads).flatMap (fun thread => if t = thread then [act] else []) =
        [act] :=
      flatMap_own List.nodup_range (List.mem_range.2 (hlt _ (List.mem_cons_self ..))) act
    -- The first act is put where the acts of its thread are.
    calc all ((t, act) :: h)
        = [act] ++ all h := rfl
      _ |>.Perm ([act] ++ (List.range threads).flatMap fun thread => of thread h) :=
        ih.append_left _
      _ = (List.range threads).flatMap (fun thread => if t = thread then [act] else []) ++
            (List.range threads).flatMap fun thread => of thread h := by rw [hown]
      _ |>.Perm ((List.range threads).flatMap fun thread =>
            (if t = thread then [act] else []) ++ of thread h) :=
        List.flatMap_append_perm _ _ _
      _ = (List.range threads).flatMap fun thread => of thread ((t, act) :: h) := by
        simp only [hsplit]

/-- Where what is selected from an act tells the thread, what tells one thread is what is
selected from the acts of this thread. -/
theorem filter_of {β : Type u} {g : Act α → Option β} {origin : β → Nat}
    (horigin : ∀ x ∈ h, ∀ b, g x.2 = some b → origin b = x.1) (thread : Nat) :
    ((all h).filterMap g).filter (origin · = thread) = (of thread h).filterMap g := by
  induction h with
  | nil => rfl
  | cons x h ih =>
    obtain ⟨t, act⟩ := x
    have ih := ih fun y hy => horigin y (List.mem_cons_of_mem _ hy)
    have hall : all ((t, act) :: h) = act :: all h := rfl
    rw [hall]
    cases hg : g act with
    | none =>
      rw [List.filterMap_cons_none hg, ih]
      by_cases ht : t = thread <;> simp [of, ht, hg]
    | some b =>
      have hb : origin b = t := horigin (t, act) (List.mem_cons_self ..) b hg
      rw [List.filterMap_cons_some hg]
      -- An act that gives something is counted for the thread that it comes from.
      by_cases ht : t = thread
      · rw [List.filter_cons_of_pos (by simp [hb, ht]), ih]
        simp [of, ht, hg]
      · rw [List.filter_cons_of_neg (by simp [hb, ht]), ih]
        simp [of, ht]

/-- Where only one thread has what is selected from an act, nothing is selected from the acts of
the others. -/
theorem filterMap_all {β : Type u} {g : Act α → Option β} {t : Nat}
    (honly : ∀ x ∈ h, x.1 ≠ t → (of x.1 h).filterMap g = []) :
    (all h).filterMap g = (of t h).filterMap g := by
  have horigin : ∀ x ∈ h, ∀ b, g x.2 = some b → t = x.1 := by
    intro x hx b hb
    by_contra hne
    have hmem : b ∈ (of x.1 h).filterMap g := List.mem_filterMap.2 ⟨x.2, mem_of hx, hb⟩
    rw [honly x hx (Ne.symm hne)] at hmem
    cases hmem
  have hfilter := filter_of horigin t
  rwa [List.filter_eq_self.2 fun _ _ => by simp] at hfilter

end History

/-- What all threads have let enter is what they have let leave, and what is still there. -/
theorem Legal.entered_perm {threads : Nat} {h : List (Nat × Act α)} {l : List α} (hl : Legal h l)
    (hlt : ∀ x ∈ h, x.1 < threads) :
    ((List.range threads).flatMap fun t => (History.of t h).filterMap Act.entered?).Perm
      (((List.range threads).flatMap fun t => (History.of t h).filterMap Act.left?) ++ l) := by
  -- Up to its order the history is made of what it says of each thread.
  have hperm := History.perm_of hlt
  have hentered := hperm.filterMap Act.entered?
  have hleft := hperm.filterMap Act.left?
  rw [List.filterMap_flatMap] at hentered hleft
  -- What has entered, in its order, is what has left followed by what is still there.
  apply hentered.symm.trans
  rw [hl.entered_eq]
  exact hleft.append_right l

end AtomicFifo

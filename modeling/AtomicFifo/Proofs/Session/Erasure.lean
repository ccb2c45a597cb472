import AtomicFifo.Proofs.Session.Handles

/-!
# Commands whose enqueue is refused

A user who enqueues an item obtains it, passes it on, and, if there is no memory, gets it back
and lets it go. Without the call the user would just obtain the item and let it go. There is no
other difference: no queue, no later answer and no later event depends on it.

* `Conduct`                 sessions of one kind, and what is left of a command without its call
* `Conduct.course_without`  the course of a session without some of its refused enqueues
* `Handles.run_refused_clone`, `Handles.run_refused_kept`   the handles of an object are as many
  as before
-/

namespace AtomicFifo

universe u v w x

variable {ε : Type u} {σ : Type v} {ι : Type w} {α : Type x}

/-! ### One command -/

namespace Session

variable {f : Facade ι α} {c : Custody ε σ ι} {s : Session ε α} {cmd : Command σ}

/-- The item that a command enqueues without memory, and the books of the user while the call
runs. -/
def refused? (c : Custody ε σ ι) (s : Session ε α) (cmd : Command σ) : Option (ι × ε) :=
  match cmd.action with
  | .enqueue false item =>
    if cmd.other.all s.present && s.present cmd.queue then c.fetch s.books item else none
  | _ => none

/-- The session of a user who obtains the item and lets it go without the call. -/
def lend? (c : Custody ε σ ι) (s : Session ε α) (cmd : Command σ) : Option (ι × Session ε α) :=
  (refused? c s cmd).map fun (i, books) => (i, { s with books := c.release books i })

/-- A refused enqueue gives its item back to the books and leaves everything else as it was. -/
theorem run_refused {i : ι} {books : ε} (h : refused? c s cmd = some (i, books)) :
    run f c s cmd = ({ s with books := c.release books i }, .refused ⟨i⟩,
      [.allocationFailed Queue.nodeSize]) := by
  obtain ⟨action, place, other⟩ := cmd
  simp only [refused?] at h
  split at h
  · rename_i memory item
    split at h
    · rename_i hpresent
      obtain ⟨hother, hqueue⟩ := Bool.and_eq_true_iff.1 hpresent
      obtain ⟨q, hq⟩ := Option.isSome_iff_exists.1 hqueue
      -- The queue that is put back at its place is the one that was there.
      have hsame : s.queues.setIfInBounds place (some q) = s.queues :=
        setIfInBounds_same (queue?_eq_some.1 hq)
      simp only [run, act, hother, hq, h, f.enqueue?_false, setQueue, hsame]
      rfl
    · cases h
  · cases h

end Session

/-! ### A course of commands -/

/-- Sessions of one kind: what comes of a command, and, if the command makes an enqueue that is
refused, the item of this and what would become of the session without the call. -/
structure Conduct (S : Type u) (C : Type v) (ι : Type w) where
  run : S → C → S × Answer ι × List Event
  lend? : S → C → Option (ι × S)
  run_eq : ∀ s cmd i s', lend? s cmd = some (i, s') →
    run s cmd = (s', .refused ⟨i⟩, [.allocationFailed Queue.nodeSize])

/-- What shows of a command. -/
inductive Upshot (ι : Type w)
  | answered (answer : Answer ι) (events : List Event)
  /-- The item is not passed on. -/
  | lent (item : ι)

/-- What shows if the item is passed on and refused. -/
def Upshot.refuse : Upshot ι → Upshot ι
  | .lent i => .answered (.refused ⟨i⟩) [.allocationFailed Queue.nodeSize]
  | entry => entry

namespace Conduct

variable {S : Type u} {C : Type v} (b : Conduct S C ι)

/-- What comes of a command, without its call if it is marked and makes an enqueue that is
refused. -/
def step (s : S) : C × Bool → S × Upshot ι
  | (cmd, false) =>
    let (s', answer, events) := b.run s cmd
    (s', .answered answer events)
  | (cmd, true) =>
    match b.lend? s cmd with
    | some (i, s') => (s', .lent i)
    | none =>
      let (s', answer, events) := b.run s cmd
      (s', .answered answer events)

/-- The session after each command, and what shows of the command. -/
def course : S → List (C × Bool) → List (S × Upshot ι)
  | _, [] => []
  | s, marked :: later => b.step s marked :: course (b.step s marked).1 later

/-- Leaving a refused enqueue out gives the same state, and only the answer says so. -/
private theorem step_without (s : S) (cmd : C) (chosen : Bool) :
    b.step s (cmd, false) = Prod.map id Upshot.refuse (b.step s (cmd, chosen)) := by
  cases chosen with
  | false => rfl
  | true =>
    -- A command that lends nothing is not one that can be refused.
    cases hlend : b.lend? s cmd with
    | none => simp only [step, hlend]; rfl
    | some lent =>
      obtain ⟨i, s'⟩ := lent
      simp only [step, hlend, b.run_eq s cmd i s' hlend]
      rfl

/-- The course of all commands is that without some of the refused calls, but for what these calls
show themselves. -/
theorem course_without (s : S) (marks : List (C × Bool)) :
    b.course s (marks.map fun marked => (marked.1, false)) =
      (b.course s marks).map (Prod.map id Upshot.refuse) := by
  induction marks generalizing s with
  | nil => rfl
  | cons marked later ih =>
    obtain ⟨cmd, chosen⟩ := marked
    have hstep := b.step_without s cmd chosen
    have hsession : (b.step s (cmd, false)).1 = (b.step s (cmd, chosen)).1 := by rw [hstep]; rfl
    rw [List.map_cons, course, course, List.map_cons, ih, hsession, hstep]

end Conduct

/-- Sessions with any custody. -/
def Session.conduct (f : Facade ι α) (c : Custody ε σ ι) :
    Conduct (Session ε α) (Command σ) ι where
  run := Session.run f c
  lend? := lend? c
  run_eq s cmd i s' h := by
    obtain ⟨⟨i, books⟩, hrefused, hlent⟩ := Option.map_eq_some_iff.1 h
    cases hlent
    exact run_refused hrefused

namespace Handles

/-- The session of a user of handles without the call. -/
def lend? (s : Session) (cmd : Command) : Option (Nat × Session) :=
  match cmd.action with
  | .common action => AtomicFifo.Session.lend? custody s ⟨action, cmd.queue, cmd.other⟩
  | .hoarding action => AtomicFifo.Session.lend? hoard s ⟨action, cmd.queue, cmd.other⟩
  | _ => none

/-- Sessions on handles. -/
def conduct : Conduct Session Command Nat where
  run := Handles.run
  lend? := lend?
  run_eq s cmd i s' h := by
    obtain ⟨action, place, other⟩ := cmd
    cases action with
    | common action => exact (Session.conduct facade custody).run_eq _ _ _ _ h
    | hoarding action => exact (Session.conduct facade hoard).run_eq _ _ _ _ h
    | _ => cases h

/-! ### Handles that come back -/

variable {objects : Nat} {past : List Nat} {s : Session} {i place : Nat}

/-- Where a clone goes again, all handles are as they were before it was made. -/
private theorem release_clone {h : Handles} (hpos : h.strong[i]? ≠ some 0) :
    (h.clone i).release i = h := by
  have hstrong : (h.strong.modify i (· + 1)).modify i (· - 1) = h.strong := by
    apply Array.ext_getElem?
    intro j
    by_cases hj : i = j
    · subst hj
      simp [Array.getElem?_modify, Option.map_map, Function.comp_def]
    · simp [Array.getElem?_modify, hj]
  simp only [clone, release, hstrong, if_neg hpos]

/-- A clone of a handle in the table is passed on, comes back, and is let go. -/
theorem run_refused_clone (hs : Balanced objects past s) (hin : s.books.inTable i = true)
    (hplace : s.present place = true) :
    Handles.run s ⟨.common (.enqueue false ⟨i, false⟩), place, none⟩ =
      (s, .refused ⟨i⟩, [.allocationFailed Queue.nodeSize]) := by
  -- The program owns a handle itself, so the count is not zero and its clone leaves no trace.
  have hpos : s.books.strong[i]? ≠ some 0 := by
    intro hzero
    have howned := owned_pos_of_inTable hin
    have hstrong := hs.strong_eq i
    rw [hzero, Option.getD_some] at hstrong
    omega
  have hrefused : AtomicFifo.Session.refused? custody s ⟨.enqueue false ⟨i, false⟩, place, none⟩ =
      some (i, s.books.clone i) := by
    simp [AtomicFifo.Session.refused?, hplace, custody, fetch, hin]
  have hrun := AtomicFifo.Session.run_refused (f := facade) hrefused
  rw [show custody.release (s.books.clone i) i = s.books from release_clone hpos] at hrun
  exact hrun

/-- A handle that the user has kept is passed on, comes back, and is kept again. -/
theorem run_refused_kept (hheld : i ∈ s.books.held) (hplace : s.present place = true) :
    Handles.run s ⟨.hoarding (.enqueue false ⟨i, true⟩), place, none⟩ =
      ({ s with books := { s.books with held := i :: s.books.held.erase i } }, .refused ⟨i⟩,
        [.allocationFailed Queue.nodeSize]) := by
  have hrefused : AtomicFifo.Session.refused? hoard s ⟨.enqueue false ⟨i, true⟩, place, none⟩ =
      some (i, { s.books with held := s.books.held.erase i }) := by
    simp [AtomicFifo.Session.refused?, hplace, hoard, fetchHeld, hheld]
  exact AtomicFifo.Session.run_refused (f := facade) hrefused

end Handles

end AtomicFifo

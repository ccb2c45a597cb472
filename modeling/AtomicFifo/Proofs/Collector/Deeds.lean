import AtomicFifo.Collector

/-!
# What may be done to a node, and when

In the life of a node it is made the sentinel once, by one call, and this call takes its item
out; later it is retired once, and freed once after that. Taking the item out comes before the
freeing, but it may come after the retirement, since the call that made the node the sentinel
may be slow. The very first sentinel has no item, and nobody has made it the sentinel.

`Proper` says all this of the list of deeds that a collector keeps, whose latest deed stands
first.
-/

namespace AtomicFifo

/-- The sentinel of a new queue. -/
def Incarnation.first : Incarnation := ⟨0, 0⟩

/-- A deed may be done after these. -/
def Deed.Due (before : List Deed) : Deed → Prop
  | .crowned _ node => node ≠ .first ∧ ∀ call, .crowned call node ∉ before
  | .taken call node =>
    .crowned call node ∈ before ∧ (∀ call', .taken call' node ∉ before) ∧ .freed node ∉ before
  | .retired node =>
    .retired node ∉ before ∧ (node = .first ∨ ∃ call, .crowned call node ∈ before)
  | .freed node =>
    .retired node ∈ before ∧ .freed node ∉ before ∧
      (node = .first ∨ ∃ call, .taken call node ∈ before)

/-- Every deed was due when it was done. -/
inductive Proper : List Deed → Prop
  | nil : Proper []
  | cons {deed : Deed} {before : List Deed} :
      Proper before → deed.Due before → Proper (deed :: before)

/-- What has been the sentinel has been it from then on. -/
theorem Deed.crowned_mono {deeds deeds' : List Deed} {node : Incarnation} (hsub : deeds ⊆ deeds')
    (h : node = .first ∨ ∃ call, .crowned call node ∈ deeds) :
    node = .first ∨ ∃ call, .crowned call node ∈ deeds' :=
  h.imp_right (Exists.imp fun _ hmem => hsub hmem)

/-- A call has made a node the sentinel, and has still to take the item out of it and to retire
the sentinel from before. -/
structure Taking (deeds : List Deed) (call : CallId) (head next : Incarnation) : Prop where
  crowned : .crowned call next ∈ deeds
  not_taken : ∀ call', .taken call' next ∉ deeds
  not_retired : .retired head ∉ deeds
  origin : head = .first ∨ ∃ call', .crowned call' head ∈ deeds

/-- Deeds that are done to other nodes leave it to the call. -/
theorem Taking.cons {deeds : List Deed} {call : CallId} {head next : Incarnation} {deed : Deed}
    (h : Taking deeds call head next) (htaken : ∀ call', deed ≠ .taken call' next)
    (hretired : deed ≠ .retired head) : Taking (deed :: deeds) call head next where
  crowned := List.mem_cons_of_mem _ h.crowned
  not_taken call' hmem := h.not_taken call' (List.mem_of_ne_of_mem (htaken call').symm hmem)
  not_retired hmem := h.not_retired (List.mem_of_ne_of_mem hretired.symm hmem)
  origin := Deed.crowned_mono (List.subset_cons_self _ _) h.origin

namespace Proper

variable {deeds : List Deed} {node : Incarnation} {call call' : CallId}

/-- Only one call makes a node the sentinel. -/
theorem crowned_unique (h : Proper deeds) (hc : .crowned call node ∈ deeds)
    (hc' : .crowned call' node ∈ deeds) : call = call' := by
  induction h with
  | nil => cases hc
  | @cons deed before _ hdue ih =>
    rcases List.mem_cons.1 hc with heq | hold
    · subst heq
      rcases List.mem_cons.1 hc' with heq | hold'
      · cases heq
        rfl
      · exact absurd hold' (hdue.2 call')
    · rcases List.mem_cons.1 hc' with heq | hold'
      · subst heq
        exact absurd hold (hdue.2 call)
      · exact ih hold hold'

/-- A call takes the item only out of a node that it has made the sentinel. -/
theorem crowned_of_taken (h : Proper deeds) (ht : .taken call node ∈ deeds) :
    .crowned call node ∈ deeds := by
  induction h with
  | nil => cases ht
  | @cons deed before _ hdue ih =>
    rcases List.mem_cons.1 ht with rfl | ht
    · exact List.mem_cons_of_mem _ hdue.1
    · exact List.mem_cons_of_mem _ (ih ht)

/-- What is retired has been the sentinel. -/
theorem crowned_of_retired (h : Proper deeds) (hr : .retired node ∈ deeds) :
    node = .first ∨ ∃ call, .crowned call node ∈ deeds := by
  induction h with
  | nil => cases hr
  | @cons deed before _ hdue ih =>
    have hsub : before ⊆ deed :: before := List.subset_cons_self _ _
    rcases List.mem_cons.1 hr with rfl | hr
    · exact Deed.crowned_mono hsub hdue.2
    · exact Deed.crowned_mono hsub (ih hr)

end Proper

end AtomicFifo

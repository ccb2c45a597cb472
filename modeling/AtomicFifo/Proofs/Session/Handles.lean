import AtomicFifo.Proofs.Session.Custody
import AtomicFifo.Session.Handles

/-!
# Handles are neither lost nor doubled

Whatever a user does with counted handles and any number of queues, every object has as many
handles as the user holds and as there are in the queues, and it is freed when the last of them
goes.

* `Handles.Counts`        what the books say of the handles inside and outside the queues
* `Handles.custody_sound` one handle that goes into a queue or comes out of one
* `Handles.Balanced.run`  one command
* `Handles.Conserved`, `Handles.strong_run`   any commands, from the start on
-/

namespace AtomicFifo.Handles

open AtomicFifo.Session (dequeue_accounted setIfInBounds_same)

variable {h : Handles} {object : Nat} {items : List Nat}

/-- How many handles of an object the user has. -/
def owned (h : Handles) (object : Nat) : Nat := (h.inTable object).toNat + h.held.count object

/-- The books of so many objects while these handles are not in the user's hands. An object freed
earlier stays freed. -/
structure Counts (objects : Nat) (past : List Nat) (h : Handles) (items : List Nat) : Prop where
  size_table : h.table.size = objects
  size_strong : h.strong.size = objects
  strong_eq : ∀ i, h.strong[i]?.getD 0 = h.owned i + items.count i
  freed_nodup : h.freed.Nodup
  mem_freed : ∀ i, i ∈ h.freed ↔ h.strong[i]? = some 0
  past_suffix : past <:+ h.freed

/-- One more handle in front counts for its own object. -/
private theorem count_cons_eq (object : Nat) (items : List Nat) (i : Nat) :
    (object :: items).count i = [object].count i + items.count i := by
  rw [← List.count_append]
  rfl

/-- An object in the table has a place in it. -/
private theorem lt_of_inTable (hin : h.inTable object = true) : object < h.table.size := by
  by_contra hge
  simp [inTable, Array.getElem?_eq_none (Nat.le_of_not_lt hge)] at hin

/-- What the table has once a place of it was written. -/
private theorem inTable_set (hlt : object < h.table.size) (b : Bool) (i : Nat) :
    inTable { h with table := h.table.setIfInBounds object b } i =
      if i = object then b else h.inTable i := by
  unfold inTable
  by_cases hi : i = object
  · subst hi
    simp [hlt]
  · simp [Array.getElem?_setIfInBounds_ne (Ne.symm hi), hi]

/-- Who gives the handle in the table away has one handle of its object less. -/
private theorem owned_give (hin : h.inTable object = true) (i : Nat) :
    owned { h with table := h.table.setIfInBounds object false } i + [object].count i =
      h.owned i := by
  unfold owned
  rw [inTable_set (lt_of_inTable hin)]
  by_cases hi : i = object
  · subst hi
    simp [hin, Nat.add_comm]
  · simp [hi, Ne.symm hi]

/-- Who puts a handle into an empty place of the table has one more. -/
private theorem owned_put (hlt : object < h.table.size) (hout : h.inTable object = false)
    (i : Nat) :
    owned { h with table := h.table.setIfInBounds object true } i =
      h.owned i + [object].count i := by
  unfold owned
  rw [inTable_set hlt]
  by_cases hi : i = object
  · subst hi
    simp [hout, Nat.add_comm]
  · simp [hi, Ne.symm hi]

/-- Who keeps a handle has one more. -/
private theorem owned_keep (i : Nat) :
    owned (h.keep object) i = h.owned i + [object].count i := by
  show (h.inTable i).toNat + (object :: h.held).count i = _
  rw [count_cons_eq, owned]
  omega

/-- Who gives away a handle that it has kept has one less. -/
private theorem owned_lend (hheld : object ∈ h.held) (i : Nat) :
    owned { h with held := h.held.erase object } i + [object].count i = h.owned i := by
  show (h.inTable i).toNat + (h.held.erase object).count i + _ = _
  rw [Nat.add_assoc, owned, Nat.add_comm (List.count _ _), ← count_cons_eq]
  rw [(List.perm_cons_erase hheld).count_eq i]

/-- The table owns a handle of each object in it. -/
theorem owned_pos_of_inTable (hin : h.inTable object = true) : 0 < h.owned object := by
  simp only [owned, hin, Bool.toNat_true]
  omega

/-- A held handle is owned. -/
private theorem owned_pos_of_mem (hheld : object ∈ h.held) : 0 < h.owned object :=
  Nat.add_pos_right _ (List.count_pos_iff.2 hheld)

/-- Letting go of a handle lowers the count of its object by one. -/
private theorem strong_release (h : Handles) (object : Nat) :
    (h.release object).strong[object]? = h.strong[object]?.map (· - 1) := by
  simp [Handles.release, Array.getElem?_modify]

namespace Counts

variable {objects : Nat} {past : List Nat}

/-- The order in which items are held does not matter for the counts. -/
theorem perm {items' : List Nat} (hperm : items.Perm items') (hc : Counts objects past h items) :
    Counts objects past h items' where
  __ := hc
  strong_eq i := by rw [← hperm.count_eq i]; exact hc.strong_eq i

/-- An object with a handle outside the user's hands is not freed. -/
private theorem strong_cons (hc : Counts objects past h (object :: items)) :
    h.strong[object]? = some (h.owned object + items.count object + 1) := by
  have hstrong := hc.strong_eq object
  rw [List.count_cons_self] at hstrong
  cases hget : h.strong[object]? with
  | none => rw [hget] at hstrong; simp at hstrong
  | some n => rw [hget] at hstrong; simpa [Nat.add_assoc] using hstrong

/-- Every item is a handle of an object that there is. -/
private theorem lt_of_cons (hc : Counts objects past h (object :: items)) : object < objects := by
  obtain ⟨hlt, -⟩ := Array.getElem?_eq_some_iff.1 hc.strong_cons
  exact hc.size_strong ▸ hlt

/-- A handle that comes back to the user goes. -/
theorem release (hc : Counts objects past h (object :: items)) :
    Counts objects past (h.release object) items := by
  -- The count goes down by the handle that goes, and the object is not freed yet.
  have hstrong := hc.strong_cons
  have hnow : (h.release object).strong[object]? = some (h.owned object + items.count object) := by
    rw [strong_release, hstrong]
    rfl
  have hother : ∀ i, i ≠ object → (h.release object).strong[i]? = h.strong[i]? := fun i hi => by
    simp [Handles.release, Array.getElem?_modify, Ne.symm hi]
  have hfresh : object ∉ h.freed := by
    rw [hc.mem_freed, hstrong]
    simp
  have hfreed : (h.release object).freed =
      if h.owned object + items.count object = 0 then object :: h.freed else h.freed := by
    show (if (h.release object).strong[object]? = some 0 then _ else _) = _
    simp only [hnow, Option.some.injEq]
  refine ⟨hc.size_table, by simp [Handles.release, hc.size_strong], fun i => ?_, ?_,
    fun i => ?_, ?_⟩
  · show _ = h.owned i + _
    by_cases hi : i = object
    · subst hi
      rw [hnow]
      rfl
    · rw [hother i hi, hc.strong_eq i, List.count_cons_of_ne (Ne.symm hi)]
  · rw [hfreed]
    split
    · exact List.nodup_cons.2 ⟨hfresh, hc.freed_nodup⟩
    · exact hc.freed_nodup
  · rw [hfreed]
    by_cases hi : i = object
    · subst hi
      rw [hnow]
      split
      · rename_i hzero
        simp [hzero]
      · rename_i hpos
        simpa [hfresh] using hpos
    · rw [hother i hi, ← hc.mem_freed i]
      split <;> simp [hi]
  · rw [hfreed]
    split
    · exact hc.past_suffix.trans (List.suffix_cons ..)
    · exact hc.past_suffix

/-- The user clones a handle that it has, and the clone leaves its hands. -/
theorem clone (hc : Counts objects past h items) (hpos : 0 < h.owned object) :
    Counts objects past (h.clone object) (object :: items) := by
  have hstrong : h.strong[object]? = some (h.owned object + items.count object) := by
    have := hc.strong_eq object
    cases hget : h.strong[object]? with
    | none => rw [hget, Option.getD_none] at this; omega
    | some n => rw [hget, Option.getD_some] at this; rw [this]
  have hnow : (h.clone object).strong[object]? =
      some (h.owned object + items.count object + 1) := by
    simp [Handles.clone, Array.getElem?_modify, hstrong]
  have hother : ∀ i, i ≠ object → (h.clone object).strong[i]? = h.strong[i]? := fun i hi => by
    simp [Handles.clone, Array.getElem?_modify, Ne.symm hi]
  refine ⟨hc.size_table, by simp [Handles.clone, hc.size_strong], fun i => ?_, hc.freed_nodup,
    fun i => ?_, hc.past_suffix⟩
  · show _ = h.owned i + _
    by_cases hi : i = object
    · subst hi
      rw [hnow, List.count_cons_self]
      rfl
    · rw [hother i hi, hc.strong_eq i, List.count_cons_of_ne (Ne.symm hi)]
  · -- The object has a handle before and after, so it is freed at neither time.
    show i ∈ h.freed ↔ _
    rw [hc.mem_freed i]
    by_cases hi : i = object
    · subst hi
      rw [hnow, hstrong]
      simp only [Option.some.injEq]
      omega
    · rw [hother i hi]

/-- The user's own handle leaves its hands. -/
theorem give (hc : Counts objects past h items) (hin : h.inTable object = true) :
    Counts objects past { h with table := h.table.setIfInBounds object false }
      (object :: items) where
  __ := hc
  size_table := by simp [hc.size_table]
  strong_eq i := by
    rw [count_cons_eq, ← Nat.add_assoc, owned_give hin]
    exact hc.strong_eq i

/-- A handle that comes back to the user goes to an empty place of the table. -/
theorem put (hc : Counts objects past h (object :: items)) (hout : h.inTable object = false) :
    Counts objects past { h with table := h.table.setIfInBounds object true } items where
  __ := hc
  size_table := by simp [hc.size_table]
  strong_eq i := by
    rw [owned_put (hc.size_table ▸ hc.lt_of_cons) hout, Nat.add_assoc, ← count_cons_eq]
    exact hc.strong_eq i

/-- A handle that comes back to the user is kept. -/
theorem keep (hc : Counts objects past h (object :: items)) :
    Counts objects past (h.keep object) items where
  __ := hc
  strong_eq i := by
    rw [owned_keep, Nat.add_assoc, ← count_cons_eq]
    exact hc.strong_eq i

/-- A handle that the user has kept leaves its hands. -/
private theorem lend (hc : Counts objects past h items) (hheld : object ∈ h.held) :
    Counts objects past { h with held := h.held.erase object } (object :: items) where
  __ := hc
  strong_eq i := by
    rw [count_cons_eq, ← Nat.add_assoc, owned_lend hheld]
    exact hc.strong_eq i

/-- A handle that is fetched from the table is an item then. -/
private theorem fetch {r : HandleRequest} {h' : Handles} (hfetch : h.fetch r = some (object, h'))
    (hc : Counts objects past h items) : Counts objects past h' (object :: items) := by
  simp only [Handles.fetch] at hfetch
  split at hfetch
  · cases hfetch
  · rename_i hin
    have hin : h.inTable r.object = true := by simpa using hin
    split at hfetch
    · -- Either the handle in the table is given away, or a clone of it is.
      cases hfetch
      exact hc.give hin
    · cases hfetch
      exact hc.clone (owned_pos_of_inTable hin)

/-- A handle that is fetched from those held is an item then. -/
private theorem fetchHeld {r : HandleRequest} {h' : Handles}
    (hfetch : h.fetchHeld r = some (object, h'))
    (hc : Counts objects past h items) : Counts objects past h' (object :: items) := by
  simp only [Handles.fetchHeld] at hfetch
  split at hfetch
  · cases hfetch
  · rename_i hheld
    have hheld : r.object ∈ h.held := not_not.1 hheld
    split at hfetch
    · -- Either the held handle is lent, or a clone of it is.
      cases hfetch
      exact hc.lend hheld
    · cases hfetch
      exact hc.clone (owned_pos_of_mem hheld)

end Counts

/-- One handle at a time the books stay right, also with the handles kept. -/
private theorem hoard_sound (objects : Nat) (past : List Nat) :
    hoard.Sound (Counts objects past) where
  perm := Counts.perm
  fetch hfetch hc := hc.fetchHeld hfetch
  generate hgen := nomatch hgen
  release _ _ _ hc := hc.keep
  keep _ _ _ hc := hc.keep
  drop _ _ _ hc := hc.release

/-- One handle at a time the books stay right. -/
theorem custody_sound (objects : Nat) (past : List Nat) :
    custody.Sound (Counts objects past) where
  perm := Counts.perm
  fetch hfetch hc := hc.fetch hfetch
  generate hgen hc := by
    simp only [custody] at hgen
    split at hgen
    · cases hgen
    · exact hc.fetch hgen
  release _ _ _ hc := hc.release
  keep _ _ _ hc := hc.keep
  drop _ _ _ hc := hc.release

/-! ### Commands -/

/-- Letting handles go does not touch what the user keeps. -/
private theorem foldl_release_held (l held : List Nat) (h : Handles) :
    { l.foldl Handles.release h with held := held } =
      l.foldl Handles.release { h with held := held } := by
  induction l generalizing h with
  | nil => rfl
  | cons i l ih => exact ih (h.release i)

namespace Counts

variable {objects : Nat} {past rest : List Nat} {q : Queue (Handle Nat)}

/-- A handle that comes back to the user takes the place of the one in the table. -/
theorem restore (hc : Counts objects past h (object :: items)) :
    Counts objects past (h.restore object) items := by
  unfold Handles.restore
  cases hin : h.inTable object with
  | false => exact hc.put hin
  | true =>
    -- The one that it replaces goes, and the place stays taken.
    have htaken : h.table[object]? = some true := by
      simpa [inTable, Option.getD_eq_iff] using hin
    have hc := hc.release
    rw [if_pos rfl]
    show Counts objects past
      { h.release object with table := h.table.setIfInBounds object true } items
    rw [setIfInBounds_same htaken]
    exact hc

/-- The user lets the handle in the table go. -/
theorem forget (hc : Counts objects past h items) (hin : h.inTable object = true) :
    Counts objects past
      (Handles.release { h with table := h.table.setIfInBounds object false } object) items :=
  (hc.give hin).release

/-- The user lets all handles go that it has kept. -/
theorem dropHeld (hc : Counts objects past h items) :
    Counts objects past { h.held.foldl Handles.release h with held := [] } items := by
  rw [foldl_release_held]
  refine (custody_sound objects past).release.foldl ?_
  -- They are outside its hands before the first of them goes.
  refine { hc with strong_eq := fun i => ?_ }
  rw [hc.strong_eq i, List.count_append, ← Nat.add_assoc]
  rfl

/-- What is done with handles themselves keeps the counts. -/
private theorem act (hc : Counts objects past h (facade.items q ++ rest)) (action : Action) :
    Counts objects past (act q h action).2.1 (facade.items (act q h action).1 ++ rest) := by
  cases action with
  | common action | hoarding action => exact hc
  | forget object =>
    simp only [Handles.act]
    split
    · exact hc
    · split
      · rename_i hin
        exact hc.forget hin
      · exact hc
  | dropHeld => exact hc.dropHeld
  | restore => exact dequeue_accounted (fun _ _ _ hc => hc.restore) hc
  -- Taking the object out of its last handle lets go of the handle, as a dequeue does.
  | unwrap =>
    have hrest := dequeue_accounted (custody_sound objects past).release hc
    simp only [Handles.act]
    cases hdequeue : facade.dequeue q with
    | mk q' found =>
      rw [hdequeue] at hrest
      cases found with
      | none => exact hrest
      | some i => exact hrest

end Counts

/-- The session that a list of commands leaves. -/
def after (s : Session) (cmds : List Command) : Session := cmds.foldl (fun s cmd => (run s cmd).1) s

/-- The books of a session owe what its queues hold. -/
def Balanced (objects : Nat) (past : List Nat) (s : Session) : Prop :=
  s.Accounted facade (Counts objects past)

section Commands

variable {objects : Nat} {past : List Nat} {s : Session}

/-- What a command can make of a session on handles. -/
inductive Ran (s : Session) : Session → Prop
  | common {s' : Session} : AtomicFifo.Session.Ran facade custody s s' → Ran s s'
  | hoarding {s' : Session} : AtomicFifo.Session.Ran facade hoard s s' → Ran s s'
  | rest : Ran s s
  | own {place : Nat} {q : Queue (Handle Nat)} (action : Action) : s.queue? place = some q →
      Ran s { s.setQueue place (act q s.books action).1 with books := (act q s.books action).2.1 }

/-- Every command is a common one, one on held handles, one of handles alone, or nothing. -/
private theorem run_ran (s : Session) (cmd : Command) : Ran s (run s cmd).1 := by
  obtain ⟨action, place, other⟩ := cmd
  cases action with
  | common action => exact .common (Session.run_ran _)
  | hoarding action => exact .hoarding (Session.run_ran _)
  | _ =>
    simp only [Handles.run]
    split
    · exact .rest
    · split
      · exact .rest
      · rename_i hq
        exact .own _ hq

/-- Every command keeps the counts balanced. -/
theorem Balanced.run (hs : Balanced objects past s) (cmd : Command) :
    Balanced objects past (Handles.run s cmd).1 := by
  have hran := run_ran s cmd
  generalize (Handles.run s cmd).1 = s' at hran
  -- The common commands keep the counts in every custody that is sound.
  cases hran with
  | common hran => exact Session.Accounted.ran (custody_sound objects past) hs hran
  | hoarding hran => exact Session.Accounted.ran (hoard_sound objects past) hs hran
  | rest => exact hs
  | own action hq =>
    exact Session.Accounted.setQueue (custody_sound objects past) hs hq fun rest hc => hc.act action

/-- Any commands keep the counts balanced. -/
theorem Balanced.after (hs : Balanced objects past s) (cmds : List Command) :
    Balanced objects past (after s cmds) := by
  induction cmds generalizing s with
  | nil => exact hs
  | cons cmd cmds ih => exact ih (hs.run cmd)

/-- At the start each object has one handle, in the table. -/
theorem balanced_create (queues objects : Nat) :
    Balanced objects [] (Session.create queues (create objects)).1 := by
  -- All queues are new, so no item is in any of them.
  have hnone : Session.contents facade (Session.create queues (create objects)).1 = [] := by
    refine List.flatMap_eq_nil_iff.2 fun o ho => ?_
    obtain rfl : o = some .init := by
      simp only [Session.create, Array.toList_replicate] at ho
      exact List.eq_of_mem_replicate ho
    rfl
  unfold Balanced Session.Accounted
  rw [hnone]
  refine ⟨by simp [Session.create, create], by simp [Session.create, create], fun i => ?_,
    List.nodup_nil, fun i => ?_, List.suffix_refl _⟩
  · by_cases hi : i < objects <;>
      simp [Session.create, create, owned, inTable, hi]
  · by_cases hi : i < objects <;>
      simp [Session.create, create, hi]

/-- What the books of a balanced session say of one object. -/
theorem Balanced.strong (hs : Balanced objects past s) {i : Nat} (hi : i < objects) :
    s.books.strong[i]? = some (s.books.owned i + (s.contents facade).count i) := by
  have hlt : i < s.books.strong.size := hs.size_strong ▸ hi
  have hstrong := hs.strong_eq i
  rw [Array.getElem?_eq_getElem hlt, Option.getD_some] at hstrong
  rw [Array.getElem?_eq_getElem hlt, hstrong]

/-- An object is freed once no handle of it is left. -/
private theorem Balanced.mem_freed_iff (hs : Balanced objects past s) (i : Nat) :
    i ∈ s.books.freed ↔ i < objects ∧ s.books.owned i + (s.contents facade).count i = 0 := by
  rw [hs.mem_freed i]
  constructor
  · intro hzero
    obtain ⟨hlt, -⟩ := Array.getElem?_eq_some_iff.1 hzero
    have hi : i < objects := hs.size_strong ▸ hlt
    rw [hs.strong hi] at hzero
    exact ⟨hi, Option.some.inj hzero⟩
  · rintro ⟨hi, hzero⟩
    rw [hs.strong hi, hzero]

/-- Asking a dequeued handle for its object. -/
theorem Balanced.unwrap (hs : Balanced objects past s) {place i : Nat} {rest : List Nat}
    (hq : (s.queue? place).map facade.items = some (i :: rest)) :
    let s' := (Handles.run s ⟨.unwrap, place, none⟩).1
    let others := s'.books.owned i + (s'.contents facade).count i
    (Handles.run s ⟨.unwrap, place, none⟩).2.1 =
      if others = 0 then .owned i else .shared i (others + 1) := by
  intro s' others
  obtain ⟨q, hqueue, hitems⟩ := Option.map_eq_some_iff.1 hq
  -- The handle that comes out is one of those that the books owe.
  obtain ⟨elsewhere, hcontents, -⟩ := Session.exists_contents (f := facade)
    (Session.queue?_eq_some.1 hqueue)
  have hc : Counts objects past s.books (i :: (rest ++ elsewhere)) := by
    have := Counts.perm hcontents hs
    rwa [Session.holdings, Option.elim, hitems] at this
  have hstrong := hc.strong_cons
  generalize s.books.owned i + (rest ++ elsewhere).count i = n at hstrong
  have hrun : Handles.run s ⟨.unwrap, place, none⟩ =
      ({ s.setQueue place (facade.dequeue q).1 with books := s.books.release i },
        if n + 1 = 1 then .owned i else .shared i (n + 1), []) := by
    have hdequeue : facade.dequeue q = ((facade.dequeue q).1, some i) :=
      Prod.ext rfl ((facade.dequeue_eq q).1.trans (by rw [hitems]; rfl))
    simp only [Handles.run, hqueue, act]
    rw [hdequeue]
    simp [hstrong]
  -- It is gone afterwards, so the books count all others then.
  have hothers : n = others := by
    have hafter : s'.books.strong[i]? = some others :=
      (hs.run ⟨.unwrap, place, none⟩).strong hc.lt_of_cons
    have hnow : s'.books.strong[i]? = some n := by
      simp only [s', hrun]
      show (s.books.release i).strong[i]? = some n
      rw [strong_release, hstrong]
      rfl
    exact Option.some.inj (hnow.symm.trans hafter)
  rw [hrun, hothers]
  simp

/-- How many handles of an object there are, with the user and in all queues. -/
def handles (s : Session) (i : Nat) : Nat := s.books.owned i + (s.contents facade).count i

/-- A session on so many objects in which no handle is lost or doubled. -/
structure Conserved (objects : Nat) (s : Session) : Prop where
  /-- Every object has as many handles as the user has in its table and among those that it keeps,
  and as there are in all queues. -/
  strong : ∀ i < objects, s.books.strong[i]? = some (handles s i)
  /-- The objects freed are those without a handle; each was freed once, and stays freed whatever
  else is done. -/
  freed_nodup : s.books.freed.Nodup
  mem_freed_iff : ∀ i, i ∈ s.books.freed ↔ i < objects ∧ handles s i = 0
  freed_after : ∀ more, s.books.freed <:+ (after s more).books.freed
  /-- A dequeued handle gives the object itself exactly if there is no other handle of it, with the
  user or in a queue. -/
  unwrap : ∀ place i rest, (s.queue? place).map facade.items = some (i :: rest) →
    let (s', answer, _) := run s ⟨.unwrap, place, none⟩
    answer = if handles s' i = 0 then .owned i else .shared i (handles s' i + 1)
  /-- When the remaining queues are dropped, every object has the handles of the user and no
  others. -/
  finish :
    let ended := s.finish facade custody
    ∀ i < objects, ended.books.strong[i]? = some (ended.books.owned i)

/-- Let a user do whatever it likes with handles of some objects and with some queues, new ones
among them: no handle is lost or doubled. -/
theorem strong_run (queues objects : Nat) (cmds : List Command) :
    Conserved objects (after (Session.create queues (create objects)).1 cmds) := by
  have hs := (balanced_create queues objects).after cmds
  constructor
  case strong => exact fun i hi => hs.strong hi
  case freed_nodup => exact hs.freed_nodup
  case mem_freed_iff => exact hs.mem_freed_iff
  case freed_after =>
    intro more
    -- What is freed now is the past of what comes.
    have hpast : Balanced objects _ _ := { hs with past_suffix := List.suffix_refl _ }
    exact (hpast.after more).past_suffix
  case unwrap => exact fun place i rest hq => hs.unwrap hq
  case finish =>
    intro ended i hi
    have hended : Balanced objects [] ended :=
      Session.finish_accounted (custody_sound objects []) hs
    have hstrong := hended.strong hi
    rwa [Session.contents_finish] at hstrong

end Commands

end AtomicFifo.Handles

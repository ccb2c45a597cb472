import AtomicFifo.Node.Walk
import AtomicFifo.Proofs.Links.Reaches
import Mathlib.Data.Set.Card

/-!
# What a walk over nodes counts

A walk over nodes in memory follows the links of a table without knowing of the table. It returns
if the links come to an end, and then it has counted every node that can be reached, each of them
once, however the nodes lie and whatever else is in the memory. It reads links and nothing else,
and writes nothing.

* `Treads`                what holds at any time of a walk among places that lead to each other
* `LaidIn.step_standing`  one iteration of a walk that stands on a node
* `LaidIn.run_of_path`    a walk along a path that ends
* `Follows`, `Endless`    what holds after any number of iterations, of any walk and of one along a
  chain without an end
* `LaidIn.returns_iff`    what the loop returns, by the paths of the table
* `laidIn_buffer`         a table in memory as `NodeTable.buffer` lays it out
* `walk?_buffer`          over that memory a walk counts what the links of the table count
* `walk_counts`           what a walk counts, and that it depends on the links alone
-/

namespace AtomicFifo

/-! ### The nodes that are reached -/

/-- A path runs through as many nodes as its start reaches. -/
private theorem Links.Path.ncard_reached {ι : Type*} {next : ι → Option ι} {start : Option ι}
    {l : List ι} (h : Path next start l) :
    {i | ∃ a ∈ start, Reaches next a i}.ncard = l.length := by
  classical
  have hset : {i | ∃ a ∈ start, Reaches next a i} = ↑l.toFinset := by
    ext i
    cases start with
    | none =>
      cases h
      simp
    | some a => simp [h.mem_iff_reaches]
  rw [hset, Set.ncard_coe_finset, List.toFinset_card_of_nodup h.nodup]

/-! ### Iterations -/

namespace Walker

variable {linkOffset : Nat} {w : Walker}

/-- A walk may be interrupted after any number of iterations. -/
private theorem run_add (m n : Nat) :
    w.run linkOffset (m + n) = (w.run linkOffset m).run linkOffset n := by
  induction m generalizing w with
  | zero => rw [Nat.zero_add]; rfl
  | succ m ih => rw [show m + 1 + n = m + n + 1 by omega, run, ih]; rfl

/-- One more iteration is a step at the end. -/
private theorem run_succ (n : Nat) :
    w.run linkOffset (n + 1) = (w.run linkOffset n).step linkOffset :=
  run_add n 1

/-- What one iteration keeps, any number of them keeps. -/
private theorem run_induction {P : Walker → Prop} (hstep : ∀ w, P w → P (w.step linkOffset))
    (h : P w) (n : Nat) : P (w.run linkOffset n) := by
  induction n generalizing w with
  | zero => exact h
  | succ n ih => exact ih (hstep w h)

/-- A walk that has returned stays as it is. -/
private theorem run_of_returned {count : Word} (h : w.walk = .returned count) (n : Nat) :
    w.run linkOffset n = w := by
  refine run_induction (P := (· = w)) (fun v hv => ?_) rfl n
  subst hv
  simp only [step, h]

end Walker

/-- A walk returns one count at most. -/
theorem Buffer.Returns.unique {b : Buffer} {linkOffset : Nat} {first : Option Nat}
    {count other : Word} (h : b.Returns linkOffset first count)
    (h' : b.Returns linkOffset first other) : count = other := by
  obtain ⟨m, hm⟩ := h
  obtain ⟨n, hn⟩ := h'
  -- After as many iterations as both take together, both have returned.
  have hboth : (b.walker first).run linkOffset (m + n) =
      ((b.walker first).run linkOffset m).run linkOffset n := Walker.run_add m n
  rw [Nat.add_comm, Walker.run_add, Walker.run_of_returned hn, Walker.run_of_returned hm] at hboth
  rw [hboth, hm] at hn
  cases hn
  rfl

/-! ### Where a walk may be -/

namespace Buffer

variable {b : Buffer} {linkOffset : Nat} {places : Set Nat}

/-- At each of these places a link can be read, and it leads to another of them or to none. -/
structure Leads (b : Buffer) (linkOffset : Nat) (places : Set Nat) : Prop where
  exists_load : ∀ p ∈ places, ∃ link, b.load? (p + linkOffset) = some link
  next_mem : ∀ p ∈ places, ∀ q ∈ b.next linkOffset p, q ∈ places

/-- What holds at any time of a walk that begins at such a place: the memory is as it was, the walk
stands at such places only, and it has read their links only. -/
structure Treads (b : Buffer) (linkOffset : Nat) (places : Set Nat) (w : Walker) : Prop where
  buffer_eq : w.buffer = b
  ne_astray : w.walk ≠ .astray
  standing : ∀ count p, w.walk = .standing count (some p) → p ∈ places
  reads : ∀ address ∈ w.reads, ∃ p ∈ places, address = p + linkOffset

/-- A walk that begins at one of the places, or nowhere, is on them. -/
theorem treads_walker {start : Option Nat} (hstart : ∀ p ∈ start, p ∈ places) :
    Treads b linkOffset places (b.walker start) := by
  constructor
  case buffer_eq => rfl
  case ne_astray => simp [walker]
  case reads => simp [walker]
  case standing =>
    intro count p hp
    simp only [walker, Walk.standing.injEq] at hp
    exact hstart p hp.2

/-- Where links lead from place to place, a step stays on the places. -/
private theorem Treads.step (h : b.Leads linkOffset places) {w : Walker}
    (hw : Treads b linkOffset places w) : Treads b linkOffset places (w.step linkOffset) := by
  cases hwalk : w.walk with
  | standing count place =>
    cases place with
    | none =>
      simp only [Walker.step, hwalk]
      exact ⟨hw.buffer_eq, by simp, by simp, hw.reads⟩
    | some p =>
      have hp := hw.standing count p hwalk
      obtain ⟨link, hload⟩ := h.exists_load p hp
      simp only [Walker.step, hwalk, hw.buffer_eq, hload]
      cases Word.ofNat? (count.toNat + 1) with
      | none => exact ⟨rfl, by simp, by simp, hw.reads⟩
      | some next =>
        constructor
        case buffer_eq => rfl
        case ne_astray => simp
        case standing =>
          intro count q hq
          simp only [Walk.standing.injEq] at hq
          refine h.next_mem p hp q ?_
          rw [Buffer.next, hload]
          exact hq.2
        -- What is read is the link of the place that the walk stands on.
        case reads =>
          intro address hmem
          cases hmem with
          | head => exact ⟨p, hp, rfl⟩
          | tail _ hmem => exact hw.reads address hmem
  | returned count | panicked p | astray =>
    simp only [Walker.step, hwalk]
    exact hw

/-- Where links lead from place to place, a walk stays on the places. -/
theorem Treads.run (h : b.Leads linkOffset places) {w : Walker}
    (hw : Treads b linkOffset places w) (n : Nat) :
    Treads b linkOffset places (w.run linkOffset n) :=
  Walker.run_induction (fun _ hw => hw.step h) hw n

/-- In another memory with the same links a walk does the same. -/
private theorem Treads.step_onto {b' : Buffer} {w : Walker} (hw : Treads b linkOffset places w)
    (hlinks : ∀ p ∈ places, b'.load? (p + linkOffset) = b.load? (p + linkOffset)) :
    ({ w with buffer := b' } : Walker).step linkOffset =
      { w.step linkOffset with buffer := b' } := by
  cases hwalk : w.walk with
  | standing count place =>
    cases place with
    | none => simp only [Walker.step, hwalk]
    | some p =>
      -- The only word that the step reads is a link.
      have hload := hlinks p (hw.standing count p hwalk)
      simp only [Walker.step, hwalk, hw.buffer_eq, hload]
      cases Word.ofNat? (count.toNat + 1) with
      | none => rfl
      | some next => cases b.load? (p + linkOffset) <;> rfl
  | returned count | panicked p | astray => simp only [Walker.step, hwalk]

/-- A walk over a buffer with the same links at the places is the same. -/
theorem Treads.run_onto (h : b.Leads linkOffset places) {b' : Buffer} {w : Walker}
    (hw : Treads b linkOffset places w)
    (hlinks : ∀ p ∈ places, b'.load? (p + linkOffset) = b.load? (p + linkOffset)) (n : Nat) :
    ({ w with buffer := b' } : Walker).run linkOffset n =
      { w.run linkOffset n with buffer := b' } := by
  induction n generalizing w with
  | zero => rfl
  | succ n ih =>
    rw [Walker.run, hw.step_onto hlinks, ih (hw.step h)]
    rfl

end Buffer

/-! ### Nodes in a buffer -/

namespace NodeTable

variable {t : NodeTable} {b : Buffer}

/-- The successor of a node is what its link says. -/
private theorem next_eq (h : i < t.links.size) : t.next i = t.links[i] := by
  simp [next, h]

/-- A node has a link at least. -/
private theorem nodeWords_pos (t : NodeTable) : 0 < t.nodeWords := by
  unfold nodeWords
  omega

namespace LaidIn

/-- A node lies between the null address and the end of the address space. -/
private theorem addressIn_bounds (h : t.LaidIn b) {i : Nat} (hi : i < t.links.size) :
    0 < t.addressIn b i ∧ t.addressIn b i < UInt64.size := by
  have hpos := h.base_pos
  have hfits := h.fits
  have hwords := nodeWords_pos t
  have hnode : t.nodeWords * i + t.nodeWords ≤ b.words.size := by
    rw [h.size_eq, ← Nat.mul_succ]
    exact Nat.mul_le_mul_left t.nodeWords hi
  unfold addressIn
  omega

/-- There are numbers enough to count the nodes. -/
private theorem size_lt (h : t.LaidIn b) : t.links.size < UInt64.size := by
  have hpos := h.base_pos
  have hfits := h.fits
  have hsize : t.links.size ≤ b.words.size := by
    rw [h.size_eq]
    exact Nat.le_mul_of_pos_left _ (nodeWords_pos t)
  omega

/-- A successor is a node of the table. -/
private theorem next_lt (h : t.LaidIn b) {i j : Nat} (hj : t.next i = some j) :
    j < t.links.size := by
  by_cases hi : i < t.links.size
  · rw [next_eq hi] at hj
    exact h.closed i hi j hj
  · simp [next, hi] at hj

/-- The link to a node leads to its address, and null to none. -/
private theorem ofLink_linkIn (h : t.LaidIn b) {o : Option Nat} (ho : ∀ j ∈ o, j < t.links.size) :
    Buffer.ofLink (t.linkIn b o) = o.map (t.addressIn b) := by
  cases o with
  | none => rfl
  | some j =>
    obtain ⟨hpos, hlt⟩ := h.addressIn_bounds (ho j rfl)
    have hvalue : (UInt64.ofNat (t.addressIn b j)).toNat = t.addressIn b j :=
      UInt64.toNat_ofNat_of_lt hlt
    have hne : UInt64.ofNat (t.addressIn b j) ≠ 0 := by
      intro hzero
      rw [hzero] at hvalue
      simp at hvalue
      omega
    simp [linkIn, Buffer.ofLink, hne, hvalue]

/-- Where a walk that stands on a node reads, there is the link of the node. -/
private theorem load?_link (h : t.LaidIn b) {i : Nat} (hi : i < t.links.size) :
    b.load? (t.addressIn b i + t.linkOffset) = some (t.linkIn b (t.next i)) := by
  have hlink := h.link_eq i hi
  have hdiff : t.addressIn b i + t.linkOffset - b.base = 8 * (t.nodeWords * i + t.leading) := by
    unfold addressIn linkOffset
    omega
  have hbound : b.base ≤ t.addressIn b i + t.linkOffset := by
    unfold addressIn
    omega
  simp only [Buffer.load?, hdiff, hbound, Nat.mul_mod_right, and_self, if_true]
  rw [Nat.mul_div_cancel_left _ (by decide), hlink, next_eq hi]

/-- The link of a node that is laid in a buffer leads to the address of its successor. -/
private theorem next_addressIn (h : t.LaidIn b) {i : Nat} (hi : i < t.links.size) :
    b.next t.linkOffset (t.addressIn b i) = (t.next i).map (t.addressIn b) := by
  rw [Buffer.next, h.load?_link hi]
  exact h.ofLink_linkIn fun j hj => h.next_lt hj

/-! ### A walk over the nodes of a table -/

variable {start : Option Nat} {l : List Nat}

/-- A walk that stands on a node reads its link, counts it, and goes on to its successor. -/
theorem step_standing (h : t.LaidIn b) {w : Walker} (hb : w.buffer = b) {count : Word} {i : Nat}
    (hi : i < t.links.size) (hw : w.walk = .standing count (some (t.addressIn b i))) :
    w.step t.linkOffset =
      match Word.ofNat? (count.toNat + 1) with
      | none => { w with walk := .panicked .addOverflow }
      | some count =>
        { w with
          reads := (t.addressIn b i + t.linkOffset) :: w.reads
          walk := .standing count ((t.next i).map (t.addressIn b)) } := by
  simp only [Walker.step, hw]
  cases Word.ofNat? (count.toNat + 1) with
  | none => rfl
  | some count =>
    -- The word that is read is the link of the node, and stands for the next address.
    simp only [hb, h.load?_link hi]
    rw [h.ofLink_linkIn fun j hj => h.next_lt hj]

/-- A path from a node of the table runs through nodes of the table. -/
private theorem lt_of_path (h : t.LaidIn b) (hl : Links.Path t.next start l)
    (hstart : ∀ i ∈ start, i < t.links.size) : ∀ i ∈ l, i < t.links.size := by
  induction hl with
  | nil => simp
  | @cons a l _ ih =>
    intro i hi
    cases hi with
    | head => exact hstart a rfl
    | tail _ hi => exact ih (fun j hj => h.next_lt hj) i hi

/-- No node is met twice, so a path has no more nodes than the table. -/
private theorem length_le_of_path (h : t.LaidIn b) (hl : Links.Path t.next start l)
    (hstart : ∀ i ∈ start, i < t.links.size) : l.length ≤ t.links.size := by
  have hsub : l ⊆ List.range t.links.size := fun i hi =>
    List.mem_range.2 (h.lt_of_path hl hstart i hi)
  have := hl.nodup.length_le_of_subset hsub
  rwa [List.length_range] at this

/-- A walk along a path that ends counts its nodes and returns. -/
theorem run_of_path (h : t.LaidIn b) (hl : Links.Path t.next start l)
    (hstart : ∀ i ∈ start, i < t.links.size) {w : Walker} (hb : w.buffer = b) {count : Word}
    (hw : w.walk = .standing count (start.map (t.addressIn b)))
    (hroom : count.toNat + l.length < UInt64.size) :
    ∃ total : Word, total.toNat = count.toNat + l.length ∧
      (w.run t.linkOffset (l.length + 1)).walk = .returned total := by
  induction hl generalizing w count with
  | nil =>
    refine ⟨count, rfl, ?_⟩
    show (w.step t.linkOffset).walk = .returned count
    simp only [Walker.step, hw, Option.map_none]
  | @cons i l hl ih =>
    have hi := hstart i rfl
    have hstep := h.step_standing hb hi hw
    rw [List.length_cons] at hroom
    cases hnext : Word.ofNat? (count.toNat + 1) with
    | none =>
      -- The counter is not full as long as there are nodes left to count.
      have := Word.ofNat?_eq_none.1 hnext
      omega
    | some next =>
      have hvalue := Word.ofNat?_eq_some.1 hnext
      rw [hnext] at hstep
      obtain ⟨total, htotal, hreturned⟩ := ih (fun j hj => h.next_lt hj)
        (w := w.step t.linkOffset) (by rw [hstep]; exact hb) (by rw [hstep])
        (by rw [hvalue]; omega)
      refine ⟨total, ?_, hreturned⟩
      rw [htotal, hvalue, List.length_cons]
      omega

end LaidIn

/-! ### Walks that are under way -/

/-- What holds of a walk at any time: the memory is as it was, the walk stands on nodes of the table
only, and it has read their links only. -/
structure Follows (t : NodeTable) (b : Buffer) (w : Walker) : Prop where
  buffer_eq : w.buffer = b
  ne_astray : w.walk ≠ .astray
  standing : ∀ count place, w.walk = .standing count (some place) →
    ∃ i < t.links.size, place = t.addressIn b i
  reads : ∀ address ∈ w.reads, ∃ i < t.links.size, address = t.addressIn b i + t.linkOffset

/-- The places of the nodes of a table. -/
def placesIn (t : NodeTable) (b : Buffer) : Set Nat :=
  {p | ∃ i < t.links.size, p = t.addressIn b i}

/-- The links of a table that is laid in a buffer lead from node to node. -/
private theorem LaidIn.leads (h : t.LaidIn b) : b.Leads t.linkOffset (t.placesIn b) := by
  constructor
  case exists_load =>
    rintro p ⟨i, hi, rfl⟩
    exact ⟨_, h.load?_link hi⟩
  case next_mem =>
    rintro p ⟨i, hi, rfl⟩ q hq
    rw [h.next_addressIn hi] at hq
    obtain ⟨j, hj, rfl⟩ := Option.map_eq_some_iff.1 hq
    exact ⟨j, h.next_lt hj, rfl⟩

/-- A walk on the addresses of the nodes follows the table. -/
private theorem follows_of_treads {w : Walker} (h : b.Treads t.linkOffset (t.placesIn b) w) :
    Follows t b w := by
  refine ⟨h.buffer_eq, h.ne_astray, h.standing, fun address haddress => ?_⟩
  -- What was read is the link of one of the nodes.
  obtain ⟨_, ⟨i, hi, rfl⟩, heq⟩ := h.reads address haddress
  exact ⟨i, hi, heq⟩

/-- What a walk along a chain without an end has come to after `n` iterations: it stands on a
node whose chain has no end either, or there is no number left to count with. -/
def Endless (t : NodeTable) (b : Buffer) (n : Nat) (w : Walker) : Prop :=
  (∃ count : Word, count.toNat = n ∧ ∃ i < t.links.size,
    (¬∃ l, Links.Path t.next (some i) l) ∧ w.walk = .standing count (some (t.addressIn b i))) ∨
  (UInt64.size ≤ n ∧ w.walk = .panicked .addOverflow)

/-- A walk without an end goes on after a step, or the counter is full. -/
private theorem Endless.step (h : t.LaidIn b) {n : Nat} {w : Walker} (hb : w.buffer = b)
    (hw : Endless t b n w) : Endless t b (n + 1) (w.step t.linkOffset) := by
  obtain ⟨count, hcount, i, hi, hpath, hwalk⟩ | ⟨hn, hwalk⟩ := hw
  · rw [h.step_standing hb hi hwalk]
    cases hnext : Word.ofNat? (count.toNat + 1) with
    | none =>
      -- The counter is as high as the number of iterations, so it is full after this many.
      rw [hcount] at hnext
      exact .inr ⟨Word.ofNat?_eq_none.1 hnext, rfl⟩
    | some next =>
      cases hj : t.next i with
      | none =>
        -- Then the chain would end here.
        exact absurd ⟨[i], .cons (hj ▸ .nil)⟩ hpath
      | some j =>
        refine .inl ⟨next, ?_, j, h.next_lt hj, ?_, rfl⟩
        · rw [Word.ofNat?_eq_some.1 hnext, hcount]
        · intro ⟨l, hl⟩
          exact hpath ⟨i :: l, .cons (hj ▸ hl)⟩
  · right
    simp only [Walker.step, hwalk]
    exact ⟨by omega, trivial⟩

namespace LaidIn

variable {start : Option Nat} {l : List Nat}

/-- A walk that starts at a node follows the table. -/
private theorem follows_run (h : t.LaidIn b) (hstart : ∀ i ∈ start, i < t.links.size) (n : Nat) :
    Follows t b ((b.walker (start.map (t.addressIn b))).run t.linkOffset n) := by
  refine follows_of_treads (Buffer.Treads.run h.leads (Buffer.treads_walker fun p hp => ?_) n)
  obtain ⟨i, hi, rfl⟩ := Option.map_eq_some_iff.1 hp
  exact ⟨i, hstart i hi, rfl⟩

/-- A walk from where no path leads on to an end has none. -/
private theorem endless_run (h : t.LaidIn b) (hstart : ∀ i ∈ start, i < t.links.size)
    (hpath : ¬∃ l, Links.Path t.next start l) (n : Nat) :
    Endless t b n ((b.walker (start.map (t.addressIn b))).run t.linkOffset n) := by
  induction n with
  -- By induction on the number of iterations.
  | zero =>
    cases start with
    | none => exact absurd ⟨[], .nil⟩ hpath
    | some i => exact .inl ⟨0, rfl, i, hstart i rfl, hpath, rfl⟩
  | succ n ih =>
    rw [Walker.run_succ]
    exact ih.step h (h.follows_run hstart n).buffer_eq

/-! ### What is returned -/

/-- The loop returns the number of nodes on a path that ends, and nothing else. -/
theorem returns_iff (h : t.LaidIn b) (hstart : ∀ i ∈ start, i < t.links.size) {count : Word} :
    b.Returns t.linkOffset (start.map (t.addressIn b)) count ↔
      ∃ l, Links.Path t.next start l ∧ l.length = count.toNat := by
  -- A path ends, so the walk along it returns, with the number of its nodes.
  have hreturns : ∀ l, Links.Path t.next start l →
      ∃ total : Word, total.toNat = l.length ∧
        b.Returns t.linkOffset (start.map (t.addressIn b)) total := by
    intro l hl
    have hlength := h.length_le_of_path hl hstart
    have hsize := h.size_lt
    obtain ⟨total, htotal, hreturned⟩ := h.run_of_path hl hstart
      (w := b.walker (start.map (t.addressIn b))) rfl rfl (by simp; omega)
    exact ⟨total, by simpa using htotal, _, hreturned⟩
  constructor
  · intro hcount
    by_cases hpath : ∃ l, Links.Path t.next start l
    · obtain ⟨l, hl⟩ := hpath
      obtain ⟨total, htotal, htotals⟩ := hreturns l hl
      exact ⟨l, hl, by rw [← htotal, hcount.unique htotals]⟩
    · obtain ⟨n, hn⟩ := hcount
      obtain ⟨_, _, _, _, _, hwalk⟩ | ⟨_, hwalk⟩ := h.endless_run hstart hpath n
      · -- Without a path the walk has not returned after any number of iterations.
        rw [hwalk] at hn
        cases hn
      · rw [hwalk] at hn
        cases hn
  · intro ⟨l, hl, hlength⟩
    obtain ⟨total, htotal, htotals⟩ := hreturns l hl
    have htotal_eq : total = count := UInt64.toNat.inj (htotal.trans hlength)
    exact htotal_eq ▸ htotals

/-- A path along the links in memory is a path of the table. -/
private theorem path_iff (h : t.LaidIn b) (hstart : ∀ i ∈ start, i < t.links.size) {r : List Nat} :
    Links.Path (b.next t.linkOffset) (start.map (t.addressIn b)) r ↔
      ∃ l, Links.Path t.next start l ∧ l.map (t.addressIn b) = r := by
  constructor
  · intro hr
    -- By induction on the addresses, which are those of a path of the table.
    induction r generalizing start with
    | nil =>
      cases start with
      | none => exact ⟨[], .nil, rfl⟩
      | some i => cases hr
    | cons a r ih =>
      cases start with
      | none => cases hr
      | some i =>
        cases hr with
        | cons hr =>
          rw [h.next_addressIn (hstart i rfl)] at hr
          obtain ⟨l, hl, rfl⟩ := ih (fun j hj => h.next_lt hj) hr
          exact ⟨i :: l, .cons hl, rfl⟩
  · intro ⟨l, hl, hlr⟩
    subst hlr
    -- By induction on the path of the table, whose addresses make the other one.
    induction hl with
    | nil => exact .nil
    | @cons i l _ ih =>
      apply Links.Path.cons
      rw [h.next_addressIn (hstart i rfl)]
      exact ih fun j hj => h.next_lt hj

/-- The bounded walk answers what the loop returns. -/
private theorem countNodes?_eq_some_iff (h : t.LaidIn b) (hstart : ∀ i ∈ start, i < t.links.size)
    {n : Nat} :
    b.countNodes? t.linkOffset (start.map (t.addressIn b)) = some n ↔
      ∃ l, Links.Path t.next start l ∧ l.length = n := by
  -- Each node takes a word at least, so the bound is never too small.
  have hsize : t.links.size ≤ b.words.size := by
    rw [h.size_eq]
    exact Nat.le_mul_of_pos_left _ (nodeWords_pos t)
  rw [Buffer.countNodes?, Links.count?_eq_some_iff]
  constructor
  · intro ⟨r, hr, hn, _⟩
    obtain ⟨l, hl, rfl⟩ := (h.path_iff hstart).1 hr
    exact ⟨l, hl, by rwa [List.length_map] at hn⟩
  · intro ⟨l, hl, hn⟩
    have hlength := h.length_le_of_path hl hstart
    exact ⟨_, (h.path_iff hstart).2 ⟨l, hl, rfl⟩, by rwa [List.length_map], by omega⟩

/-- There is a word for the number of nodes on a path. -/
private theorem toNat_length (h : t.LaidIn b) (hl : Links.Path t.next start l)
    (hstart : ∀ i ∈ start, i < t.links.size) : (UInt64.ofNat l.length).toNat = l.length :=
  UInt64.toNat_ofNat_of_lt (Nat.lt_of_le_of_lt (h.length_le_of_path hl hstart) h.size_lt)

/-- The walk along a path returns the length of the path and nothing else. -/
private theorem returns_iff_of_path (h : t.LaidIn b) (hl : Links.Path t.next start l)
    (hstart : ∀ i ∈ start, i < t.links.size) {count : Word} :
    b.Returns t.linkOffset (start.map (t.addressIn b)) count ↔ count = UInt64.ofNat l.length := by
  rw [h.returns_iff hstart]
  constructor
  · intro ⟨r, hr, hcount⟩
    rw [hl.unique hr, hcount, UInt64.ofNat_toNat]
  · intro hcount
    exact ⟨l, hl, by rw [hcount, h.toNat_length hl hstart]⟩

/-- Wherever the same links lie, the same is counted. -/
private theorem same_of_links_eq (h : t.LaidIn b) (hstart : ∀ i ∈ start, i < t.links.size)
    {t' : NodeTable} {b' : Buffer} (hlinks : t'.links = t.links) (h' : t'.LaidIn b') :
    (∀ count, b'.Returns t'.linkOffset (start.map (t'.addressIn b')) count ↔
      b.Returns t.linkOffset (start.map (t.addressIn b)) count) ∧
    b'.countNodes? t'.linkOffset (start.map (t'.addressIn b')) =
      b.countNodes? t.linkOffset (start.map (t.addressIn b)) := by
  -- Both sides are told by the paths of the table alone.
  have hnext : t'.next = t.next := by
    funext i
    rw [next, next, hlinks]
  have hstart' : ∀ i ∈ start, i < t'.links.size := hlinks ▸ hstart
  constructor
  · intro count
    rw [h.returns_iff hstart, h'.returns_iff hstart', hnext]
  · apply Option.ext
    intro n
    rw [h.countNodes?_eq_some_iff hstart, h'.countNodes?_eq_some_iff hstart', hnext]

end LaidIn

/-! ### A table as it is laid out -/

/-- In a row of equal segments the `i`-th one begins after `i` whole ones. -/
private theorem getElem?_flatMap {α β : Type} {f : α → List β} {m : Nat}
    (hf : ∀ a, (f a).length = m) (l : List α) (i : Nat) {j : Nat} (hj : j < m) :
    (l.flatMap f)[m * i + j]? = l[i]?.bind fun a => (f a)[j]? := by
  induction l generalizing i with
  | nil => simp
  | cons a l ih =>
    rw [List.flatMap_cons]
    -- All parts are of one length, so the index says which part an entry is in.
    cases i with
    | zero =>
      rw [List.getElem?_append_left (by rw [hf]; omega)]
      simp
    | succ i =>
      have hindex : m * (i + 1) + j - (f a).length = m * i + j := by
        rw [hf, Nat.mul_succ]
        omega
      rw [List.getElem?_append_right (by rw [hf, Nat.mul_succ]; omega), hindex, ih i]
      simp

/-- The address of a node is where the buffer has it. -/
private theorem address_eq (t : NodeTable) (i : Nat) : t.address i = t.addressIn t.buffer i := by
  show base + 8 * t.nodeWords * i = base + 8 * (t.nodeWords * i)
  rw [Nat.mul_assoc]

/-- A table whose links stay in it is laid out as its buffer says, if there is room for it. -/
theorem laidIn_buffer (hclosed : ∀ i, (h : i < t.links.size) → ∀ j ∈ t.links[i], j < t.links.size)
    (hfits : base + 8 * (t.nodeWords * t.links.size) ≤ UInt64.size) : t.LaidIn t.buffer := by
  let node (l : Option Nat) : List Word :=
    List.replicate t.leading filler ++ [t.link l] ++ List.replicate t.trailing filler
  have hnode : ∀ l, (node l).length = t.nodeWords := by
    intro l
    simp [node, nodeWords]
    omega
  have hwords : t.buffer.words.toList = t.links.toList.flatMap node := by
    simp [buffer, node, Array.toList_flatMap]
  have hsize : t.buffer.words.size = t.nodeWords * t.links.size := by
    rw [← Array.length_toList, hwords, List.length_flatMap]
    simp [hnode, Nat.mul_comm]
  -- What is written at a link is the address of the node that it leads to.
  have hlink : ∀ o, t.link o = t.linkIn t.buffer o := by
    intro o
    cases o with
    | none => rfl
    | some i => rw [link, linkIn, address_eq]
  constructor
  case base_pos => exact Nat.zero_lt_succ _
  case size_eq => exact hsize
  case fits =>
    rw [hsize]
    exact hfits
  case closed => exact hclosed
  case link_eq =>
    intro i hi
    have hleading : t.leading < t.nodeWords := by
      unfold nodeWords
      omega
    rw [← Array.getElem?_toList, hwords, getElem?_flatMap hnode _ i hleading]
    simp [node, hi, hlink]

/-- Over a buffer that a table is laid out in, a walk counts as the links of the table do. -/
theorem walk?_buffer (h : t.LaidIn t.buffer) {start : Option Nat}
    (hstart : ∀ i ∈ start, i < t.links.size) : t.walk? t.buffer start = t.count? start := by
  apply Option.ext
  intro n
  rw [walk?, funext t.address_eq, h.countNodes?_eq_some_iff hstart, count?,
    Links.count?_eq_some_iff]
  constructor
  · intro ⟨l, hl, hn⟩
    exact ⟨l, hl, hn, hn ▸ h.length_le_of_path hl hstart⟩
  · intro ⟨l, hl, hn, _⟩
    exact ⟨l, hl, hn⟩

/-- A walk over the nodes of a table that lies in memory, from any start.

If the chain from the start comes to an end, the loop returns one count: that of the nodes that
the start reaches, at most as many as there are nodes, and one more than from the successor of the
start. If the chain has no end, the loop never returns, but goes from node to node. The same links
in another memory, with nodes of another size, give the same. Whatever time the walk has had,
memory is as it was, and the links of nodes are all that was read. -/
theorem walk_counts (h : t.LaidIn b) (start : Option Nat)
    (hstart : ∀ i ∈ start, i < t.links.size) :
    (∀ l, Links.Path t.next start l → ∃ count : Word,
      (∀ other, b.Returns t.linkOffset (start.map (t.addressIn b)) other ↔ other = count) ∧
      b.countNodes? t.linkOffset (start.map (t.addressIn b)) = some count.toNat ∧
      count.toNat = {i | ∃ a ∈ start, Links.Reaches t.next a i}.ncard ∧
      count.toNat ≤ t.links.size ∧
      ∀ i ∈ start, ∃ rest : Word, count.toNat = rest.toNat + 1 ∧
        b.Returns t.linkOffset ((t.next i).map (t.addressIn b)) rest) ∧
    ((¬∃ l, Links.Path t.next start l) →
      (∀ count, ¬b.Returns t.linkOffset (start.map (t.addressIn b)) count) ∧
      (∀ n, Endless t b n ((b.walker (start.map (t.addressIn b))).run t.linkOffset n)) ∧
      b.countNodes? t.linkOffset (start.map (t.addressIn b)) = none) ∧
    (∀ (t' : NodeTable) (b' : Buffer), t'.links = t.links → t'.LaidIn b' →
      (∀ count, b'.Returns t'.linkOffset (start.map (t'.addressIn b')) count ↔
        b.Returns t.linkOffset (start.map (t.addressIn b)) count) ∧
      b'.countNodes? t'.linkOffset (start.map (t'.addressIn b')) =
        b.countNodes? t.linkOffset (start.map (t.addressIn b))) ∧
    ∀ n, Follows t b ((b.walker (start.map (t.addressIn b))).run t.linkOffset n) := by
  refine ⟨fun l hl => ?_, fun hpath => ?_,
    fun t' b' hlinks h' => h.same_of_links_eq hstart hlinks h', h.follows_run hstart⟩
  · have hvalue := h.toNat_length hl hstart
    refine ⟨UInt64.ofNat l.length, fun other => h.returns_iff_of_path hl hstart, ?_, ?_, ?_, ?_⟩
    · exact (h.countNodes?_eq_some_iff hstart).2 ⟨l, hl, hvalue.symm⟩
    · rw [hvalue, hl.ncard_reached]
    · rw [hvalue]
      exact h.length_le_of_path hl hstart
    · -- Behind a node that is counted the walk counts one less.
      intro i hi
      cases hi
      cases hl with
      | @cons _ r hr =>
        have hnext : ∀ j ∈ t.next i, j < t.links.size := fun j hj => h.next_lt hj
        have hrest := h.toNat_length hr hnext
        refine ⟨UInt64.ofNat r.length, ?_, (h.returns_iff_of_path hr hnext).2 rfl⟩
        rw [hvalue, hrest, List.length_cons]
  · refine ⟨fun count hcount => ?_, h.endless_run hstart hpath, ?_⟩
    · obtain ⟨l, hl, _⟩ := (h.returns_iff hstart).1 hcount
      exact hpath ⟨l, hl⟩
    · rw [Option.eq_none_iff_forall_ne_some]
      intro n hn
      obtain ⟨l, hl, _⟩ := (h.countNodes?_eq_some_iff hstart).1 hn
      exact hpath ⟨l, hl⟩

/-- Four nodes with a word before and two behind each link. The first two lead to the third, which
is the end, and the last leads to itself. -/
theorem walk_counts_merging :
    let t : NodeTable := ⟨1, 2, #[some 2, some 2, none, some 3]⟩
    t.buffer.Returns 8 (some 4096) 2 ∧ ∀ count, ¬t.buffer.Returns 8 (some 4192) count := by
  intro t
  have hlaid : t.LaidIn t.buffer := laidIn_buffer (by decide) (by decide)
  constructor
  · obtain ⟨count, hreturns, hbounded, _⟩ :=
      (walk_counts hlaid (some 0) (by decide)).1 [0, 2] (.cons (.cons .nil))
    have htwo : t.buffer.countNodes? 8 (some 4096) = some 2 := by decide
    have hcount : count.toNat = 2 := Option.some.inj (hbounded.symm.trans htwo)
    exact (hreturns 2).2 (UInt64.toNat.inj hcount.symm)
  · have hpath : ¬∃ l, Links.Path t.next (some 3) l := by
      intro ⟨l, hl⟩
      -- The path from the last node would be its own rest.
      cases hl with
      | cons hrest => exact absurd (congrArg List.length (hrest.unique (.cons hrest))) (by simp)
    exact ((walk_counts hlaid (some 3) (by decide)).2.1 hpath).1

end NodeTable

end AtomicFifo

import AtomicFifo.Node.Record
import AtomicFifo.Proofs.Node.Walk
import Mathlib.Order.Bounds.Defs

/-!
# Where the link and the item of a node lie

Offsets and sizes are numbers that are rounded up to alignments. As alignments are powers of two,
the stricter of two is a multiple of the other, and what is on a boundary of the stricter is on one
of the other too. So the fields of a record are aligned wherever the record is, and a walk that
knows the offset of the link in a node meets links only, in nodes of any item type.

* `isLeast_roundUp`           what rounding up gives
* `Layout.fields_record`      the fields of any record: aligned, in the record, and apart
* `WellFormed.itemOffset_eq`, `WellFormed.nodeSize_eq`  offset of the item and size of a node
* `WellFormed.spans_node`, `WellFormed.aligned_node`    the bytes of a node at an address
* `HoldsNodes.leads`, `HoldsNodes.linkSpan_apart`       the links of nodes in memory
* `Layout.node_layout`        the layout of nodes, for all item types
-/

namespace AtomicFifo

/-! ### Rounding up -/

section

variable {n k step : Nat}

/-- Rounding up leads to no smaller number. -/
private theorem le_roundUp (n : Nat) (h : 0 < step) : n ≤ roundUp n step := by
  have hdiv := Nat.div_add_mod (n + step - 1) step
  have hmod := Nat.mod_lt (n + step - 1) h
  rw [roundUp, if_neg (Nat.ne_of_gt h), Nat.mul_comm]
  omega

/-- Rounding up leads less than one step on. -/
private theorem roundUp_lt (n : Nat) (h : 0 < step) : roundUp n step < n + step := by
  have hdiv := Nat.div_mul_le_self (n + step - 1) step
  rw [roundUp, if_neg (Nat.ne_of_gt h)]
  omega

/-- Rounding up leads to a multiple of the step. -/
private theorem dvd_roundUp (n : Nat) (h : 0 < step) : step ∣ roundUp n step := by
  rw [roundUp, if_neg (Nat.ne_of_gt h)]
  exact Nat.dvd_mul_left _ _

/-- No multiple of the step that is at least as large is smaller. -/
private theorem roundUp_le (h : 0 < step) (hdvd : step ∣ k) (hle : n ≤ k) : roundUp n step ≤ k := by
  obtain ⟨c, rfl⟩ := hdvd
  obtain ⟨d, hd⟩ := dvd_roundUp n h
  have hlt := roundUp_lt n h
  rw [hd] at hlt ⊢
  -- Another step up would be more than one step above `n`.
  apply Nat.mul_le_mul_left
  by_contra hcd
  have hsucc : step * (c + 1) ≤ step * d := Nat.mul_le_mul_left step (by omega)
  rw [Nat.mul_succ] at hsucc
  omega

/-- Rounding up leads to the least multiple of the step that is at least as large. -/
theorem isLeast_roundUp (n : Nat) (h : 0 < step) :
    IsLeast {k | step ∣ k ∧ n ≤ k} (roundUp n step) :=
  -- It is such a multiple itself, and no other one is smaller.
  ⟨⟨dvd_roundUp n h, le_roundUp n h⟩, fun _ ⟨hdvd, hle⟩ => roundUp_le h hdvd hle⟩

/-- A multiple of the step stays as it is. -/
private theorem roundUp_of_dvd (h : 0 < step) (hdvd : step ∣ n) : roundUp n step = n :=
  Nat.le_antisymm (roundUp_le h hdvd (Nat.le_refl n)) (le_roundUp n h)

end

/-! ### Alignments -/

/-- A power of two divides those that are no smaller. -/
private theorem dvd_of_isPowerOfTwo {a b : Nat} (ha : a.isPowerOfTwo) (hb : b.isPowerOfTwo)
    (hle : a ≤ b) : a ∣ b := by
  obtain ⟨i, rfl⟩ := ha
  obtain ⟨j, rfl⟩ := hb
  exact Nat.pow_dvd_pow 2 ((Nat.pow_le_pow_iff_right (by decide)).1 hle)

/-- The stricter of two alignments is as good as both. -/
private theorem dvd_max_of_isPowerOfTwo {a b : Nat} (ha : a.isPowerOfTwo) (hb : b.isPowerOfTwo) :
    a ∣ max a b ∧ b ∣ max a b ∧ (max a b).isPowerOfTwo := by
  obtain hle | hle := Nat.le_total a b
  · rw [Nat.max_eq_right hle]
    exact ⟨dvd_of_isPowerOfTwo ha hb hle, Nat.dvd_refl b, hb⟩
  · rw [Nat.max_eq_left hle]
    exact ⟨Nat.dvd_refl a, dvd_of_isPowerOfTwo hb ha hle, ha⟩

/-- What lies in stretches that are apart is apart. -/
private theorem Span.Apart.of_within {s s' t t' : Span} (h : s.Apart t) (hs : s'.Within s)
    (ht : t'.Within t) : s'.Apart t' := by
  unfold Apart Within at *
  omega

namespace Layout

variable {item : Layout} {ls : List Layout}

/-- An alignment is not zero. -/
private theorem WellFormed.align_pos (h : item.WellFormed) : 0 < item.align :=
  Nat.pos_of_isPowerOfTwo h.isPowerOfTwo

/-- The layout of a link is well formed. -/
private theorem wellFormed_link : link.WellFormed := ⟨⟨3, rfl⟩, Nat.dvd_refl 8⟩

/-! ### Records -/

/-- What holds of fields that lie behind the first `start` bytes and end before `stop`. -/
structure InOrder (start : Nat) (fs : List Field) (stop : Nat) : Prop where
  aligned : ∀ f ∈ fs, f.layout.align ∣ f.offset
  behind : ∀ f ∈ fs, start ≤ f.offset
  before : ∀ f ∈ fs, f.offset + f.layout.size ≤ stop
  apart : fs.Pairwise fun f g => f.offset + f.layout.size ≤ g.offset
  le : start ≤ stop

/-- Fields are placed in their order, each of them aligned and behind those before it. -/
private theorem inOrder_place (h : ∀ l ∈ ls, 0 < l.align) (start : Nat) :
    InOrder start (place start ls).1 (place start ls).2 := by
  induction ls generalizing start with
  -- By induction on the fields, from any place on.
  | nil => exact ⟨by simp [place], by simp [place], by simp [place], .nil, Nat.le_refl start⟩
  | cons l ls ih =>
    obtain ⟨hl, hls⟩ := List.forall_mem_cons.1 h
    have hrest := ih hls (roundUp start l.align + l.size)
    have hstart := le_roundUp start hl
    simp only [place]
    constructor
    case aligned => exact List.forall_mem_cons.2 ⟨dvd_roundUp start hl, hrest.aligned⟩
    -- The first field ends before the others begin.
    case behind =>
      refine List.forall_mem_cons.2 ⟨hstart, fun f hf => ?_⟩
      have := hrest.behind f hf
      omega
    case before => exact List.forall_mem_cons.2 ⟨hrest.le, hrest.before⟩
    case apart => exact List.pairwise_cons.2 ⟨hrest.behind, hrest.apart⟩
    case le =>
      have := hrest.le
      omega

/-- The alignment of a record is as good as that of each field. -/
private theorem dvd_recordAlign (h : ∀ l ∈ ls, l.WellFormed) :
    (recordAlign ls).isPowerOfTwo ∧ ∀ l ∈ ls, l.align ∣ recordAlign ls := by
  induction ls with
  | nil => exact ⟨Nat.isPowerOfTwo_one, by simp⟩
  | cons l ls ih =>
    obtain ⟨hl, hls⟩ := List.forall_mem_cons.1 h
    obtain ⟨hpower, hdvd⟩ := ih hls
    obtain ⟨hleft, hright, hmax⟩ := dvd_max_of_isPowerOfTwo hl.isPowerOfTwo hpower
    exact ⟨hmax, List.forall_mem_cons.2 ⟨hleft, fun k hk => Nat.dvd_trans (hdvd k hk) hright⟩⟩

/-- A record is a value like any other. -/
private theorem wellFormed_record (h : ∀ l ∈ ls, l.WellFormed) : (record ls).WellFormed := by
  have hpower := (dvd_recordAlign h).1
  exact ⟨hpower, dvd_roundUp _ (Nat.pos_of_isPowerOfTwo hpower)⟩

/-- The fields of a record lie in it, none over another. -/
theorem fields_record (h : ∀ l ∈ ls, l.WellFormed) :
    (∀ f ∈ fields ls, f.layout.align ∣ f.offset) ∧
    (∀ f ∈ fields ls, f.span.Within ⟨0, (record ls).size⟩) ∧
    (fields ls).Pairwise fun f g => f.span.Apart g.span := by
  have hplace := inOrder_place (fun l hl => (h l hl).align_pos) 0
  have halign := Nat.pos_of_isPowerOfTwo (dvd_recordAlign h).1
  refine ⟨hplace.aligned, fun f hf => ⟨Nat.zero_le _, ?_⟩, hplace.apart.imp fun hle => .inl hle⟩
  have hsize := le_roundUp (place 0 ls).2 halign
  have hbefore := hplace.before f hf
  show f.offset + f.layout.size ≤ 0 + roundUp (place 0 ls).2 (recordAlign ls)
  omega

/-! ### Nodes -/

/-- The fields of a node are its link and its item. -/
private theorem fields_node (item : Layout) :
    fields [link, item] = [⟨linkOffset, link⟩, ⟨item.itemOffset, item⟩] := rfl

/-- A node is aligned as the stricter one of its link and its item. -/
private theorem recordAlign_node (item : Layout) : recordAlign [link, item] = item.nodeAlign := by
  show max 8 (max item.align 1) = max 8 item.align
  omega

/-- A node has the size and the alignment of the record of its fields. -/
private theorem node_eq (item : Layout) : item.node = ⟨item.nodeSize, item.nodeAlign⟩ := by
  show Layout.mk (roundUp (place 0 [link, item]).2 (recordAlign [link, item])) _ = _
  rw [recordAlign_node]
  rfl

namespace WellFormed

variable (h : item.WellFormed)

include h

/-- Both fields of a node have well-formed layouts. -/
private theorem forall_fields : ∀ l ∈ [link, item], l.WellFormed := by
  simp [wellFormed_link, h]

/-- On a boundary of nodes both fields are aligned. -/
private theorem dvd_nodeAlign : link.align ∣ item.nodeAlign ∧ item.align ∣ item.nodeAlign := by
  have hdvd := (dvd_recordAlign h.forall_fields).2
  rw [recordAlign_node] at hdvd
  exact ⟨hdvd link (by simp), hdvd item (by simp)⟩

/-- The alignment of a node is not zero. -/
private theorem nodeAlign_pos : 0 < item.nodeAlign :=
  Nat.lt_of_lt_of_le h.align_pos (Nat.le_max_right _ _)

/-- An item of a weak alignment lies right behind the link, and one of a stricter alignment at the
first boundary of its own. -/
theorem itemOffset_eq : item.itemOffset = item.nodeAlign := by
  show roundUp link.align item.align = max link.align item.align
  obtain hle | hle := Nat.le_total item.align link.align
  · rw [Nat.max_eq_left hle]
    exact roundUp_of_dvd h.align_pos
      (dvd_of_isPowerOfTwo h.isPowerOfTwo wellFormed_link.isPowerOfTwo hle)
  · rw [Nat.max_eq_right hle]
    apply Nat.le_antisymm (roundUp_le h.align_pos (Nat.dvd_refl item.align) hle)
    -- The link takes bytes, so the item is not at the first boundary.
    have hpos : 0 < roundUp link.align item.align :=
      Nat.lt_of_lt_of_le (by decide) (le_roundUp link.align h.align_pos)
    exact Nat.le_of_dvd hpos (dvd_roundUp link.align h.align_pos)

/-- The size of a node is that of its item behind one alignment, rounded up. -/
theorem nodeSize_eq : item.nodeSize = roundUp (item.nodeAlign + item.size) item.nodeAlign := by
  rw [nodeSize, h.itemOffset_eq]

/-- The item lies within the node. -/
private theorem le_nodeSize : item.nodeAlign + item.size ≤ item.nodeSize := by
  rw [h.nodeSize_eq]
  exact le_roundUp _ h.nodeAlign_pos

/-- The node is less than one alignment larger than it has to be. -/
private theorem nodeSize_lt : item.nodeSize < item.nodeAlign + item.size + item.nodeAlign := by
  rw [h.nodeSize_eq]
  exact roundUp_lt _ h.nodeAlign_pos

/-- A node has a size, so it may be allocated. -/
private theorem nodeSize_pos : 0 < item.nodeSize :=
  Nat.lt_of_lt_of_le h.nodeAlign_pos (Nat.le_trans (Nat.le_add_right _ _) h.le_nodeSize)

/-- Memory for a node is memory of some bytes. -/
private theorem allocate_node (allocator : Layout → Option Nat) :
    allocate allocator item.node = .ok (allocator item.node) := by
  rw [node_eq]
  exact if_pos h.nodeSize_pos

/-- The link and the item of a node share no byte, and no byte of them is outside of the node. -/
theorem spans_node (p : Nat) :
    (linkSpan p).Apart (item.itemSpan p) ∧ (linkSpan p).Within (item.nodeSpan p) ∧
      (item.itemSpan p).Within (item.nodeSpan p) := by
  obtain ⟨-, hwithin, hapart⟩ := fields_record h.forall_fields
  have hsize : (record [link, item]).size = item.nodeSize := congrArg size (node_eq item)
  rw [fields_node] at hwithin hapart
  simp only [List.forall_mem_cons, List.pairwise_cons, hsize, Field.span, Span.Within,
    Span.Apart] at hwithin hapart
  simp only [Span.Apart, Span.Within, linkSpan, itemSpan, nodeSpan]
  omega

/-- In a node that is aligned, so are its link and its item. -/
theorem aligned_node {p : Nat} (hp : item.nodeAlign ∣ p) :
    link.align ∣ (linkSpan p).start ∧ item.align ∣ (item.itemSpan p).start := by
  obtain ⟨hlink, hitem⟩ := h.dvd_nodeAlign
  have haligned := (fields_record h.forall_fields).1
  rw [fields_node] at haligned
  constructor
  · exact Nat.dvd_add (Nat.dvd_trans hlink hp) (haligned ⟨linkOffset, link⟩ (by simp))
  · exact Nat.dvd_add (Nat.dvd_trans hitem hp) (haligned ⟨item.itemOffset, item⟩ (by simp))

end WellFormed

end Layout

/-- The layout of an item type is that of a value. -/
private theorem ItemType.wellFormed_layout (t : ItemType) : t.layout.WellFormed := by
  cases t with
  | integers log count => exact ⟨⟨log.val, Nat.one_shiftLeft log.val⟩, Nat.dvd_mul_right _ _⟩
  | aligned32 bytes => exact ⟨⟨5, rfl⟩, dvd_roundUp bytes (show 0 < 32 by decide)⟩
  | aligned64 bytes => exact ⟨⟨6, rfl⟩, dvd_roundUp bytes (show 0 < 64 by decide)⟩
  | bool => exact ⟨⟨0, rfl⟩, by decide⟩
  | char => exact ⟨⟨2, rfl⟩, by decide⟩
  | text | slice | handle | optionalWord | optionalHandle | address => exact ⟨⟨3, rfl⟩, by decide⟩

/-! ### A walk over nodes in memory -/

namespace Buffer.HoldsNodes

variable {b : Buffer} {item : Layout} {nodes : Set Nat} (hb : b.HoldsNodes item nodes)
  (h : item.WellFormed)

include hb h

/-- The link of a node is one word of the buffer. -/
private theorem exists_load {p : Nat} (hp : p ∈ nodes) :
    ∃ link, b.load? (p + Layout.linkOffset) = some link := by
  obtain ⟨i, hi⟩ : 8 ∣ b.base := hb.base_aligned
  obtain ⟨j, hj⟩ : 8 ∣ p := Nat.dvd_trans h.dvd_nodeAlign.1 (hb.aligned p hp)
  obtain ⟨hbase, hstop⟩ := hb.within p hp
  have hlink : p + 8 ≤ p + item.nodeSize := (h.spans_node p).2.1.2
  simp only [span, Layout.nodeSpan] at hbase hstop
  have hword : (p - b.base) / 8 < b.words.size := by omega
  refine ⟨b.words[(p - b.base) / 8], ?_⟩
  show b.load? p = _
  rw [load?, if_pos ⟨hbase, by omega⟩, Array.getElem?_eq_getElem hword]

/-- Links of nodes lead to nodes. -/
theorem leads : b.Leads Layout.linkOffset nodes :=
  ⟨fun _ hp => hb.exists_load h hp, hb.linked⟩

/-- No byte of an item is a byte of a link, be it in the same node or in different ones. -/
theorem linkSpan_apart {p q : Nat} (hp : p ∈ nodes) (hq : q ∈ nodes) :
    (Layout.linkSpan p).Apart (item.itemSpan q) := by
  by_cases heq : p = q
  · subst heq
    exact (h.spans_node p).1
  · exact (hb.apart hp hq heq).of_within (h.spans_node p).2.1 (h.spans_node q).2.2

/-- In a memory that differs in the items only, every link is the same. -/
private theorem load?_onto {b' : Buffer}
    (hb' : ∀ address, (∀ q ∈ nodes, Span.Apart ⟨address, Layout.link.size⟩ (item.itemSpan q)) →
      b'.load? address = b.load? address) {p : Nat} (hp : p ∈ nodes) :
    b'.load? (p + Layout.linkOffset) = b.load? (p + Layout.linkOffset) :=
  hb' _ fun _ hq => hb.linkSpan_apart h hp hq

end Buffer.HoldsNodes

namespace Layout

variable {item : Layout}

/-- How the nodes of an item type are laid out, and why a walk over them needs no more than the
offset of the link.

The link comes first, and the item at the stricter alignment of both. No smaller size that keeps
nodes aligned has room for them, and less than two boundaries are lost to padding. In a node at an
address of its alignment, the link and the item share no byte, are both inside of the node and both
aligned. Memory of no bytes is never asked for. A walk over nodes, wherever they lie, reads their
links and no byte of any item; so it does the same whatever the items are. All nodes with items of
one word are of one shape, those of handles and of addresses among them. -/
theorem node_layout (h : item.WellFormed) :
    let m := max 8 item.align
    (item.nodeShape.linkOffset = 0 ∧
      fields [link, item] = [⟨item.nodeShape.linkOffset.toNat, link⟩, ⟨m, item⟩] ∧
      item.node = ⟨item.nodeSize, m⟩ ∧ item.node.WellFormed ∧
      (item.nodeSize < 2 ^ 64 → item.nodeShape.size.toNat = item.nodeSize) ∧
      IsLeast {n | m ∣ n ∧ m + item.size ≤ n} item.nodeSize ∧
      item.nodeSize - item.size < 2 * m) ∧
    (∀ p, m ∣ p →
      (linkSpan p).Apart (item.itemSpan p) ∧
      (linkSpan p).Within (item.nodeSpan p) ∧ (item.itemSpan p).Within (item.nodeSpan p) ∧
      link.align ∣ (linkSpan p).start ∧ item.align ∣ (item.itemSpan p).start) ∧
    (0 < item.nodeSize ∧
      ∀ allocator, allocate allocator item.node = .ok (allocator item.node)) ∧
    (∀ (b : Buffer) (nodes : Set Nat) (start : Option Nat), b.HoldsNodes item nodes →
      (∀ p ∈ start, p ∈ nodes) → ∀ n,
        let w := (b.walker start).run item.nodeShape.linkOffset.toNat n
        w.walk ≠ .astray ∧
        (∀ address ∈ w.reads, (∃ p ∈ nodes, address = (linkSpan p).start) ∧
          ∀ q ∈ nodes, Span.Apart ⟨address, link.size⟩ (item.itemSpan q)) ∧
        ∀ b' : Buffer,
          (∀ address, (∀ q ∈ nodes, Span.Apart ⟨address, link.size⟩ (item.itemSpan q)) →
            b'.load? address = b.load? address) →
          let w' := (b'.walker start).run item.nodeShape.linkOffset.toNat n
          w'.walk = w.walk ∧ w'.reads = w.reads) ∧
    (item.size = 8 → item.align = 8 → item.nodeShape = ⟨16, 0⟩) ∧
    ItemType.handle.layout.nodeShape = ⟨16, 0⟩ ∧ ItemType.address.layout.nodeShape = ⟨16, 0⟩ := by
  refine ⟨⟨rfl, ?_, node_eq item, wellFormed_record h.forall_fields,
      UInt64.toNat_ofNat_of_lt', ?_, ?_⟩, fun p hp => ?_, ⟨h.nodeSize_pos, h.allocate_node⟩,
    fun b nodes start hb hstart n => ?_, ?_, rfl, rfl⟩
  · rw [fields_node, h.itemOffset_eq]
    rfl
  · rw [h.nodeSize_eq]
    exact isLeast_roundUp _ h.nodeAlign_pos
  · have hlt : item.nodeSize < max 8 item.align + item.size + max 8 item.align := h.nodeSize_lt
    omega
  · obtain ⟨hapart, hlink, hitem⟩ := h.spans_node p
    exact ⟨hapart, hlink, hitem, h.aligned_node hp⟩
  · -- A walk that starts at a node treads on nodes only.
    have hwalker : b.Treads linkOffset nodes (b.walker start) := Buffer.treads_walker hstart
    have hw := hwalker.run (hb.leads h) n
    refine ⟨hw.ne_astray, fun address haddress => ?_, fun b' hb' => ?_⟩
    · obtain ⟨p, hp, heq⟩ := hw.reads address haddress
      rw [heq]
      exact ⟨⟨p, hp, rfl⟩, fun q hq => hb.linkSpan_apart h hp hq⟩
    · -- A buffer with the same links makes the walk take the same steps.
      have hsame : (b'.walker start).run linkOffset n =
          { (b.walker start).run linkOffset n with buffer := b' } :=
        hwalker.run_onto (hb.leads h) (fun _ hp => hb.load?_onto h hb' hp) n
      exact ⟨(congrArg Walker.walk hsame :), (congrArg Walker.reads hsame :)⟩
  · intro hsize halign
    obtain ⟨size, align⟩ := item
    subst hsize halign
    rfl

/-- A record of one byte that is aligned to 32, in two nodes that are linked. -/
theorem node_layout_overaligned :
    let item := (ItemType.aligned32 1).layout
    let b : Buffer := ⟨128, #[192, 7, 7, 7, 7, 7, 7, 7, 0, 7, 7, 7, 7, 7, 7, 7]⟩
    fields [link, item] = [⟨0, link⟩, ⟨32, item⟩] ∧ item.node = ⟨64, 32⟩ ∧
    ∀ n, ∀ address ∈ ((b.walker (some 128)).run 0 n).reads, ∀ q ∈ ({128, 192} : Set Nat),
      Span.Apart ⟨address, 8⟩ (item.itemSpan q) := by
  intro item b
  obtain ⟨⟨-, hfields, hnode, -⟩, -, -, hwalk, -⟩ :=
    node_layout (ItemType.aligned32 1).wellFormed_layout
  -- Two nodes of 64 bytes, the first one linked to the second.
  have hnodes : b.HoldsNodes item {128, 192} := by
    constructor
    case base_aligned => decide
    case aligned => rintro p (rfl | rfl) <;> decide
    case within => rintro p (rfl | rfl) <;> decide
    case apart =>
      rintro p (rfl | rfl) q (rfl | rfl) hne
      · exact absurd rfl hne
      · decide
      · decide
      · exact absurd rfl hne
    case linked =>
      have hfirst : b.next linkOffset 128 = some 192 := by decide
      have hlast : b.next linkOffset 192 = none := by decide
      rintro p (rfl | rfl) q hq
      · rw [hfirst] at hq
        cases hq
        exact .inr rfl
      · rw [hlast] at hq
        cases hq
  refine ⟨hfields, hnode, fun n address haddress q hq => ?_⟩
  have hstart : ∀ p ∈ some 128, p ∈ ({128, 192} : Set Nat) := by simp
  exact ((hwalk b {128, 192} (some 128) hnodes hstart n).2.1 address haddress).2 q hq

/-- Four integers of eight bytes lie right behind the link. -/
example : (ItemType.integers 3 4).layout.node = ⟨40, 8⟩ := by decide

end Layout

end AtomicFifo

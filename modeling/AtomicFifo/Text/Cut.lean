import AtomicFifo.Text.Quoted

/-!
# Cuts at byte positions

A text is cut at positions that count the bytes of its encoding, so a position can lie within
a character. No piece begins or ends there: the cut is refused, and the refusal names the
character.

* `Text.partAt`   parts a text at one position
* `Text.cut`      the piece between two positions

`cut_append` says that a part of a text is cut out at the positions of its ends.
-/

namespace AtomicFifo.Text

/-- The number of bytes of a text. -/
def byteLength (cs : List Char) : Nat := cs.foldr (fun c bytes => c.utf8Size + bytes) 0

/-- The ends of a piece. -/
inductive Edge
  | start
  | stop
  deriving DecidableEq, Repr

/-- A refused cut: the position of an end of the piece lies within a character. -/
structure PartedChar where
  edge : Edge
  position : Nat
  char : Char
  /-- The position of the first byte of the character. -/
  first : Nat
  deriving DecidableEq, Repr

namespace PartedChar

/-- The text of a refused cut. -/
def message (p : PartedChar) : String :=
  let edge := match p.edge with
    | .start => "start"
    | .stop => "end"
  edge ++ " byte index " ++ toString p.position ++ " is not a char boundary; it is inside "
    ++ quoted p.char ++ " (bytes " ++ toString p.first ++ ".."
    ++ toString (p.first + p.char.utf8Size) ++ " of string)"

end PartedChar

/-- Parts a text at a position. A position within a character is answered with this character
and how many of its bytes lie in front. -/
def partAt : (position : Nat) → List Char → Except (Char × Nat) (List Char × List Char)
  | 0, cs => .ok ([], cs)
  | _ + 1, [] => .ok ([], [])
  | n + 1, c :: cs =>
    if c.utf8Size ≤ n + 1 then
      match partAt (n + 1 - c.utf8Size) cs with
      | .ok parts => .ok (c :: parts.1, parts.2)
      | .error e => .error e
    -- The position is beyond the first byte of this character, and not beyond its last.
    else .error (c, n + 1)

/-- The piece of a text from one position to another, or to the end. -/
def cut (text : List Char) (start : Nat) (stop : Option Nat) : Except PartedChar (List Char) :=
  match partAt start text with
  | .error (c, inside) => .error ⟨.start, start, c, start - inside⟩
  | .ok (_, rest) =>
    match stop with
    | none => .ok rest
    | some stop =>
      match partAt (stop - start) rest with
      | .error (c, inside) => .error ⟨.stop, stop, c, stop - inside⟩
      | .ok (piece, _) => .ok piece

/-- The parts of a text make up the text. -/
theorem append_of_partAt {n : Nat} {cs l r : List Char} (h : partAt n cs = .ok (l, r)) :
    l ++ r = cs := by
  -- By induction along the parting, character by character.
  fun_induction partAt n cs generalizing l r with
  | case1 => simp_all
  | case2 => simp_all
  | case3 n c cs hc parts hp ih =>
    simp only [Except.ok.injEq, Prod.mk.injEq] at h
    rw [← h.1, ← h.2, List.cons_append, ih hp]
  | case4 => simp at h
  | case5 => simp at h

/-- A text is parted at the length of what stands in front. -/
theorem partAt_byteLength (l r : List Char) : partAt (byteLength l) (l ++ r) = .ok (l, r) := by
  induction l with
  | nil => simp [byteLength, partAt]
  -- A whole character is taken off the front, and the position goes back by its bytes.
  | cons c l ih =>
    have hc := c.utf8Size_pos
    obtain ⟨n, hn⟩ : ∃ n, byteLength (c :: l) = n + 1 :=
      ⟨byteLength (c :: l) - 1, by simp [byteLength]; omega⟩
    have hl : n + 1 - c.utf8Size = byteLength l := by
      rw [← hn]; simp [byteLength]
    have hle : c.utf8Size ≤ n + 1 := by
      rw [← hn]; simp [byteLength]
    rw [hn, List.cons_append, partAt, if_pos hle, hl, ih]

/-- The piece between the ends of a part of a text is this part. -/
theorem cut_append (l m r : List Char) :
    cut (l ++ (m ++ r)) (byteLength l) (some (byteLength l + byteLength m)) = .ok m := by
  simp only [cut, partAt_byteLength, Nat.add_sub_cancel_left]

end AtomicFifo.Text

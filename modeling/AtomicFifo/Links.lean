/-!
# Chains of links

A chain is followed from a start by a successor function until there is no successor. What it
runs through is given by the relation `Path`; `path?` and `count?` follow it with a bound on
the number of links, since a chain that runs into a circle has no end.

* `Path.unique`           a start has at most one path
* `Path.nodup`            no path meets a node twice
* `path?_eq_some_iff`     `path?` answers the path if its length is within the bound
* `count?_eq_map_path?`   `count?` answers the length of what `path?` answers
-/

namespace AtomicFifo.Links

universe u

variable {ι : Type u} {next : ι → Option ι}

/-- The nodes that a chain runs through, from its start to the node without successor. -/
inductive Path (next : ι → Option ι) : Option ι → List ι → Prop
  | nil : Path next none []
  | cons {a : ι} {l : List ι} : Path next (next a) l → Path next (some a) (a :: l)

/-- The nodes on the chain, if there are at most `bound` of them. -/
def path? (next : ι → Option ι) : Nat → Option ι → Option (List ι)
  | _, none => some []
  | 0, some _ => none
  | bound + 1, some a => (path? next bound (next a)).map (a :: ·)

/-- The number `count` and that of the nodes on the chain together, if the chain has at most
`bound` nodes. -/
def countOnto? (next : ι → Option ι) : Nat → Nat → Option ι → Option Nat
  | _, count, none => some count
  | 0, _, some _ => none
  | bound + 1, count, some a => countOnto? next bound (count + 1) (next a)

/-- The number of nodes on the chain, if there are at most `bound` of them. -/
def count? (next : ι → Option ι) (bound : Nat) (start : Option ι) : Option Nat :=
  countOnto? next bound 0 start

/-- A start has at most one path. -/
theorem Path.unique {start : Option ι} {l l' : List ι} (h : Path next start l)
    (h' : Path next start l') : l = l' := by
  induction h generalizing l' with
  | nil => cases h'; rfl
  | cons _ ih =>
    cases h' with
    | cons h' => rw [ih h']

/-- The rest of a path is the path from the node that it starts with. -/
theorem Path.suffix {start : Option ι} {l r : List ι} {a : ι} (h : Path next start (l ++ a :: r)) :
    Path next (some a) (a :: r) := by
  induction l generalizing start with
  | nil =>
    cases h with
    | cons h => exact .cons h
  | cons b l ih =>
    cases h with
    | cons h => exact ih h

/-- No path meets a node twice. -/
theorem Path.nodup {start : Option ι} {l : List ι} (h : Path next start l) : l.Nodup := by
  induction h with
  | nil => exact List.nodup_nil
  | @cons a l h ih =>
    -- If the path met `a` again, it would be its own proper suffix.
    refine List.nodup_cons.2 ⟨fun hmem => ?_, ih⟩
    obtain ⟨l₁, l₂, rfl⟩ := List.append_of_mem hmem
    have := (h.suffix).unique (.cons h)
    have := congrArg List.length this
    simp at this
    omega

/-- The path is answered exactly if it is no longer than the bound. -/
theorem path?_eq_some_iff {bound : Nat} {start : Option ι} {l : List ι} :
    path? next bound start = some l ↔ Path next start l ∧ l.length ≤ bound := by
  induction bound generalizing start l with
  -- By induction on the bound, which goes down by one with each link that is followed.
  | zero =>
    cases start with
    | none =>
      constructor
      · rintro ⟨⟩
        exact ⟨.nil, Nat.le_refl _⟩
      · rintro ⟨⟨⟩, -⟩
        rfl
    | some a =>
      constructor
      · rintro ⟨⟩
      · rintro ⟨⟨⟩, h⟩
        simp at h
  | succ bound ih =>
    cases start with
    | none =>
      constructor
      · rintro ⟨⟩
        exact ⟨.nil, Nat.zero_le _⟩
      · rintro ⟨⟨⟩, -⟩
        rfl
    | some a =>
      simp only [path?, Option.map_eq_some_iff, ih]
      constructor
      · rintro ⟨l, ⟨h, hl⟩, rfl⟩
        exact ⟨.cons h, by simpa using hl⟩
      · rintro ⟨h, hl⟩
        cases h with
        | cons h => exact ⟨_, ⟨h, by simpa using hl⟩, rfl⟩

/-- Counting onto a number adds the length of the path to it. -/
theorem countOnto?_eq_map_path? (bound count : Nat) (start : Option ι) :
    countOnto? next bound count start =
      (path? next bound start).map fun l => count + l.length := by
  induction bound generalizing count start with
  | zero => cases start <;> rfl
  | succ bound ih =>
    cases start with
    | none => rfl
    | some a =>
      simp only [countOnto?, path?, ih, Option.map_map]
      -- Both follow the same links; only the counts made on the way differ in form.
      congr 1
      funext l
      simp
      omega

/-- A count is the length of the path that is answered with the same bound. -/
theorem count?_eq_map_path? (bound : Nat) (start : Option ι) :
    count? next bound start = (path? next bound start).map List.length := by
  simp [count?, countOnto?_eq_map_path?]

/-- A chain has a count exactly if it has a path within the bound, which is that long. -/
theorem count?_eq_some_iff {bound : Nat} {start : Option ι} {n : Nat} :
    count? next bound start = some n ↔ ∃ l, Path next start l ∧ l.length = n ∧ n ≤ bound := by
  simp only [count?_eq_map_path?, Option.map_eq_some_iff, path?_eq_some_iff]
  constructor
  · rintro ⟨l, ⟨h, hl⟩, rfl⟩
    exact ⟨l, h, rfl, hl⟩
  · rintro ⟨l, h, rfl, hl⟩
    exact ⟨l, ⟨h, hl⟩, rfl⟩

end AtomicFifo.Links

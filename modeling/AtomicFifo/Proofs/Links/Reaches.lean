import AtomicFifo.Links
import Mathlib.Logic.Relation

/-!
# Reaching a node along links

`Reaches next a b` says that the links lead from `a` to `b` in any number of steps, none
included. It says what a thread still knows of a node that it has read the name of a while ago:
links are only ever added, so what was reached once is reached for good.

* `Path.mem_iff_reaches`  a path runs through the nodes that its start reaches, and no others
* `Reaches.eq_of_none`    a node without a link reaches only itself
* `Reaches.of_next`       the way to another node leads over the first link
* `Path.antisymm`         on a path that ends, two nodes that reach each other are the same
-/

namespace AtomicFifo.Links

universe u

variable {ι : Type u} {next next' : ι → Option ι}

/-- The links lead from one node to another. -/
abbrev Reaches (next : ι → Option ι) : ι → ι → Prop :=
  Relation.ReflTransGen fun a b => next a = some b

/-- More links reach no less. -/
theorem Reaches.mono {a b : ι} (h : Reaches next a b)
    (hadd : ∀ n m, next n = some m → next' n = some m) : Reaches next' a b :=
  Relation.ReflTransGen.mono hadd a b h

/-- A node without a link reaches only itself. -/
theorem Reaches.eq_of_none {a b : ι} (h : Reaches next a b) (ha : next a = none) : b = a := by
  rcases Relation.ReflTransGen.cases_head h with rfl | ⟨c, hc, -⟩
  · rfl
  · rw [ha] at hc
    cases hc

/-- The way to another node leads over the first link. -/
theorem Reaches.of_next {a b c : ι} (h : Reaches next a c) (ha : next a = some b) (hne : a ≠ c) :
    Reaches next b c := by
  rcases Relation.ReflTransGen.cases_head h with heq | ⟨d, hd, hdc⟩
  · exact absurd heq hne
  · rw [ha] at hd
    cases hd
    exact hdc

/-- A path runs through the nodes that its start reaches, and no others. -/
theorem Path.mem_iff_reaches {a b : ι} {l : List ι} (h : Path next (some a) l) :
    b ∈ l ↔ Reaches next a b := by
  generalize hstart : some a = start at h
  -- By induction on the path, whose start is the node or nothing.
  induction h generalizing a with
  | nil => cases hstart
  | @cons a l hl ih =>
    cases hstart
    cases hn : next a with
    | none =>
      -- The path ends here, so it is the single node `a`.
      rw [hn] at hl
      cases hl
      rw [List.mem_singleton]
      exact ⟨fun h => h ▸ .refl, fun h => h.eq_of_none hn⟩
    | some d =>
      rw [List.mem_cons, ih hn.symm]
      constructor
      · rintro (rfl | h)
        · exact .refl
        · exact .head hn h
      · intro h
        -- Either the way ends here or it leads over the first link.
        by_cases hab : b = a
        · exact .inl hab
        · exact .inr (h.of_next hn (Ne.symm hab))

/-- A path that ends has no circle. -/
theorem Path.antisymm {a b : ι} {l : List ι} (h : Path next (some a) l) (hab : Reaches next a b)
    (hba : Reaches next b a) : a = b := by
  -- The path from `b` is a suffix of the path from `a`, and `a` stands on it.
  obtain ⟨l₁, l₂, rfl⟩ := List.append_of_mem (h.mem_iff_reaches.2 hab)
  have ha : a ∈ b :: l₂ := h.suffix.mem_iff_reaches.2 hba
  have hnodup := h.nodup
  cases h' : l₁ with
  | nil =>
    subst h'
    cases h
    rfl
  | cons c l₁ =>
    -- Here `a` would stand on the path twice.
    subst h'
    cases h
    simp only [List.cons_append, List.nodup_cons, List.mem_append, not_or] at hnodup
    exact absurd ha hnodup.1.2

end AtomicFifo.Links

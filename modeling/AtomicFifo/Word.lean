/-!
# Machine words

Counters, tags and addresses are 64-bit words. Arithmetic that must not wrap is *checked*: it
answers `none` where the exact result does not fit. A checked result is the exact one.

* `Word.mul?_eq_some`      `mul? a b = some c` only for `c.toNat = a.toNat * b.toNat`
* `Word.mul?_eq_none`      `mul? a b = none` only where the product needs more than 64 bits
* `Word.mulAdd?_eq_some`   `mulAdd? a b c = some d` only for `d.toNat = a.toNat * b.toNat + c.toNat`
* `Word.toNat_succ`        a count below another one goes on by one
-/

namespace AtomicFifo

/-- A machine word of 64 bits. -/
abbrev Word := UInt64

namespace Word

/-- The word with this value, unless it needs more than 64 bits. -/
def ofNat? (n : Nat) : Option Word :=
  if n < UInt64.size then some (UInt64.ofNat n) else none

/-- The exact product, unless it needs more than 64 bits. -/
def mul? (a b : Word) : Option Word :=
  ofNat? (a.toNat * b.toNat)

/-- The exact value of `a * b + c`, unless it needs more than 64 bits. -/
def mulAdd? (a b c : Word) : Option Word :=
  ofNat? (a.toNat * b.toNat + c.toNat)

/-- A value fits a word if it is that of one. -/
theorem ofNat?_eq_some {n : Nat} {w : Word} : ofNat? n = some w ↔ w.toNat = n := by
  unfold ofNat?
  constructor
  · intro h
    split at h
    · rename_i hn
      cases h
      exact UInt64.toNat_ofNat_of_lt hn
    · cases h
  · rintro rfl
    rw [if_pos w.toNat_lt, UInt64.ofNat_toNat]

/-- What fits no word is beyond 64 bits. -/
theorem ofNat?_eq_none {n : Nat} : ofNat? n = none ↔ UInt64.size ≤ n := by
  unfold ofNat?
  split <;> simp <;> omega

/-- A product that is computed is the exact one. -/
theorem mul?_eq_some {a b c : Word} : mul? a b = some c ↔ c.toNat = a.toNat * b.toNat :=
  ofNat?_eq_some

/-- A product that fits a word is computed. -/
theorem exists_mul?_eq_some {a b : Word} (h : a.toNat * b.toNat < UInt64.size) :
    ∃ c, mul? a b = some c ∧ c.toNat = a.toNat * b.toNat := by
  cases hmul : mul? a b with
  | some c => exact ⟨c, rfl, mul?_eq_some.1 hmul⟩
  | none => exact absurd (ofNat?_eq_none.1 hmul) (Nat.not_le.2 h)

/-- A product is not computed exactly if it needs more than 64 bits. -/
theorem mul?_eq_none {a b : Word} : mul? a b = none ↔ UInt64.size ≤ a.toNat * b.toNat :=
  ofNat?_eq_none

/-- A product and sum that is computed is the exact one. -/
theorem mulAdd?_eq_some {a b c d : Word} :
    mulAdd? a b c = some d ↔ d.toNat = a.toNat * b.toNat + c.toNat :=
  ofNat?_eq_some

/-- A count below another one goes on by one without wrapping. -/
theorem toNat_succ {n m : Word} (h : n.toNat < m.toNat) : (n + 1).toNat = n.toNat + 1 := by
  have := m.toNat_lt
  rw [UInt64.toNat_add]
  -- The limit is a word itself, so one more than a smaller count is no more than it.
  exact Nat.mod_eq_of_lt (by simp; omega)

/-- A count within a limit that it has not reached is below it. -/
theorem toNat_lt_of_ne {n m : Word} (hle : n.toNat ≤ m.toNat) (hne : n ≠ m) : n.toNat < m.toNat :=
  Nat.lt_of_le_of_ne hle fun heq => hne (UInt64.toNat.inj heq)

end Word

end AtomicFifo

import AtomicFifo.Word.Decimal

/-!
# Which texts are words

Digits are read one by one, with a check at each of them that the value so far fits a word. What is
accepted in the end are the texts that `Word.Numeral` describes, which stand for a number at once.

* `readDigits_eq_ok_iff`   what is read from digits onto a value
* `ofDecimal_eq_ok_iff`    a text is read as a word if it is a numeral for the word's value
* `numeral_toDecimal`      a word in decimal is a numeral for its value
-/

namespace AtomicFifo.Word

/-- A text that stands for a number: one or more decimal digits, which a plus sign may precede. -/
def Numeral (text : String) (n : Nat) : Prop :=
  ∃ digits : List Char, digits ≠ [] ∧ (∀ c ∈ digits, c.isDigit) ∧
    (text.toList = digits ∨ text.toList = '+' :: digits) ∧ Nat.ofDigitChars 10 digits 0 = n

/-- A decimal digit has its distance from zero as its value. -/
private theorem digit?_of_isDigit {c : Char} (h : c.isDigit) :
    digit? c = some (c.toNat - '0'.toNat) :=
  if_pos h

/-- No other character has a value. -/
private theorem digit?_of_not_isDigit {c : Char} (h : ¬c.isDigit) : digit? c = none :=
  if_neg h

/-- The number of a character fits a word. -/
private theorem toNat_ofNat_sub (c : Char) (n : Nat) :
    (UInt64.ofNat (c.toNat - n)).toNat = c.toNat - n := by
  have hlt : c.toNat < 2 ^ 32 := c.val.toNat_lt
  have hword : c.toNat < UInt64.size := Nat.lt_trans hlt (by decide)
  exact UInt64.toNat_ofNat_of_lt' (Nat.lt_of_le_of_lt (Nat.sub_le _ _) hword)

/-- Digits that follow make a number no smaller. -/
private theorem le_ofDigitChars (cs : List Char) (n : Nat) : n ≤ Nat.ofDigitChars 10 cs n := by
  induction cs generalizing n with
  | nil => exact Nat.le_refl n
  | cons c cs ih =>
    rw [Nat.ofDigitChars_cons]
    exact Nat.le_trans (by omega) (ih _)

/-- Digits are read onto a value exactly if they are digits and the number that they make with it is
the word that is read. -/
theorem readDigits_eq_ok_iff {acc w : Word} {cs : List Char} :
    readDigits acc cs = .ok w ↔
      (∀ c ∈ cs, c.isDigit) ∧ Nat.ofDigitChars 10 cs acc.toNat = w.toNat := by
  induction cs generalizing acc with
  -- By induction on the digits, with any value read before them.
  | nil => simp [readDigits, UInt64.toNat_inj]
  | cons c cs ih =>
    by_cases hc : c.isDigit
    · rw [Nat.ofDigitChars_cons]
      simp only [readDigits, digit?_of_isDigit hc]
      cases hnext : mulAdd? acc 10 (UInt64.ofNat (c.toNat - '0'.toNat)) with
      | none =>
        -- The value is too large already, so it is with the digits that follow.
        have hlarge : UInt64.size ≤ _ := ofNat?_eq_none.1 hnext
        have hle := le_ofDigitChars cs (10 * acc.toNat + (c.toNat - '0'.toNat))
        have hlt := w.toNat_lt_size
        rw [toNat_ofNat_sub, show (10 : Word).toNat = 10 from rfl] at hlarge
        simp only [reduceCtorEq, false_iff, not_and]
        intro _ heq
        omega
      | some next =>
        have hvalue : next.toNat = 10 * acc.toNat + (c.toNat - '0'.toNat) := by
          rw [mulAdd?_eq_some.1 hnext, toNat_ofNat_sub, Nat.mul_comm]
          rfl
        simp only [ih, hvalue, List.forall_mem_cons, hc, true_and]
    · simp [readDigits, digit?_of_not_isDigit hc, hc]

variable {text : String} {cs : List Char} {n : Nat}

/-- A text with a plus sign in front is a numeral if the rest is digits. -/
private theorem numeral_of_plus (h : text.toList = '+' :: cs) :
    Numeral text n ↔ cs ≠ [] ∧ (∀ c ∈ cs, c.isDigit) ∧ Nat.ofDigitChars 10 cs 0 = n := by
  constructor
  · rintro ⟨digits, hne, hdigits, hlist | hlist, hvalue⟩
    · -- A plus sign is no digit.
      have hplus : '+' ∈ digits := by rw [← hlist, h]; exact List.mem_cons_self
      exact absurd (hdigits '+' hplus) (by decide)
    · rw [h] at hlist
      cases hlist
      exact ⟨hne, hdigits, hvalue⟩
  · rintro ⟨hne, hdigits, hvalue⟩
    exact ⟨cs, hne, hdigits, .inr h, hvalue⟩

/-- A text without a plus sign in front is a numeral if it is digits itself. -/
private theorem numeral_of_ne_plus (h : text.toList = cs) (hplus : ∀ ds, cs ≠ '+' :: ds) :
    Numeral text n ↔ cs ≠ [] ∧ (∀ c ∈ cs, c.isDigit) ∧ Nat.ofDigitChars 10 cs 0 = n := by
  constructor
  · rintro ⟨digits, hne, hdigits, hlist | hlist, hvalue⟩
    · rw [h] at hlist
      cases hlist
      exact ⟨hne, hdigits, hvalue⟩
    · exact absurd (h.symm.trans hlist) (hplus digits)
  · rintro ⟨hne, hdigits, hvalue⟩
    exact ⟨cs, hne, hdigits, .inl h, hvalue⟩

/-- A text is read as a word if it is a numeral for the value of the word. In particular a numeral
for a number beyond 64 bits is not read. -/
theorem ofDecimal_eq_ok_iff {w : Word} : ofDecimal text = .ok w ↔ Numeral text w.toNat := by
  unfold ofDecimal
  -- The cases are those of the reading: no text, a lone sign, a sign and digits, digits.
  split
  case h_1 h => simp [numeral_of_ne_plus h]
  case h_2 h => simp [numeral_of_plus h]
  case h_3 cs hcs h =>
    have hne : cs ≠ [] := hcs
    rw [numeral_of_plus h, readDigits_eq_ok_iff]
    simp [hne]
  case h_4 cs hcs _ hplus =>
    have hne : text.toList ≠ [] := hcs
    rw [numeral_of_ne_plus rfl hplus, readDigits_eq_ok_iff]
    simp only [ne_eq, hne, not_false_eq_true, true_and]
    rfl

/-- A word in decimal is a numeral for its value. -/
theorem numeral_toDecimal (w : Word) : Numeral w.toDecimal w.toNat := by
  refine ⟨Nat.toDigits 10 w.toNat, Nat.toDigits_ne_nil, fun c hc => ?_, .inl ?_, ?_⟩
  · exact Nat.isDigit_of_mem_toDigits (by decide) (by decide) hc
  · exact String.toList_ofList
  · exact Nat.ofDigitChars_ten_toDigits

end AtomicFifo.Word

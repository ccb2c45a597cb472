/-!
# Flavors of items

A stress round runs on a queue of counted handles or on one of bare addresses.
-/

namespace AtomicFifo

/-- The kind of item that a stress round sends through the queue. -/
inductive Flavor
  /-- Counted handles. -/
  | ref
  /-- Bare addresses. -/
  | ptr
  deriving DecidableEq, Repr

namespace Flavor

/-- The word that selects a flavor. -/
def word : Flavor → String
  | .ref => "ref"
  | .ptr => "ptr"

/-- The flavor that a word selects; the word has to be exact. -/
def ofWord? (text : String) : Option Flavor :=
  if text = word .ref then some .ref else if text = word .ptr then some .ptr else none

/-- The name of a flavor in reports. -/
def name : Flavor → String
  | .ref => "Ref"
  | .ptr => "Ptr"

/-- The error for any other word. -/
def unknown : String := "invalid flavor"

/-- A flavor is selected by its own word and by no other text. -/
theorem ofWord?_eq_some_iff {text : String} {f : Flavor} :
    ofWord? text = some f ↔ text = f.word := by
  unfold ofWord?
  -- The words of the two flavors differ.
  split
  · cases f <;> simp_all [word]
  · split <;> cases f <;> simp_all [word]

end Flavor

end AtomicFifo

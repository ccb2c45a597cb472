import AtomicFifo.Word.Decimal

/-!
# Verifying what was taken

After a stress round with `total` tags the queue should be empty, and every tag below `total`
should have been taken exactly once. The verification asks for the size in both ways, compares
the number of tags taken with the total, and enters each tag in a table; it names the first
violation that it meets.
-/

namespace AtomicFifo

/-- What is wrong after a round. -/
inductive Violation
  /-- The counter says that there are items left. -/
  | countLeft (count : Word)
  /-- There are nodes left behind the sentinel. -/
  | nodesLeft (nodes : Nat)
  /-- Not as many tags were taken as there are. -/
  | wrongNumber (taken : Nat) (total : Word)
  /-- A tag was taken that nobody enqueued. -/
  | unknownTag (tag : Word)
  /-- A tag was taken more than once. -/
  | repeatedTag (tag : Word)
  deriving DecidableEq, Repr

namespace Violation

/-- The wording of a violation. -/
def message : Violation → String
  | .countLeft count => "count is " ++ count.toDecimal ++ " after drain"
  | .nodesLeft nodes => toString nodes ++ " nodes are still linked after drain"
  | .wrongNumber taken total =>
    "dequeued " ++ toString taken ++ " of " ++ total.toDecimal ++ " items"
  | .unknownTag tag => "dequeued unknown item " ++ tag.toDecimal
  | .repeatedTag tag => "dequeued item " ++ tag.toDecimal ++ " twice"

end Violation

namespace Verification

/-- Enters tags in a table with one place for each tag below the total. -/
def checkTags (seen : Array Bool) : List Word → Except Violation Unit
  | [] => .ok ()
  | tag :: tags =>
    match seen[tag.toNat]? with
    | none => .error (.unknownTag tag)
    | some true => .error (.repeatedTag tag)
    | some false => checkTags (seen.setIfInBounds tag.toNat true) tags

/-- The verification of the tags that were taken, in their order, from a queue that answers
these two sizes. -/
def check (count : Word) (nodes : Nat) (taken : List Word) (total : Word) :
    Except Violation Unit :=
  if count ≠ 0 then .error (.countLeft count)
  else if nodes ≠ 0 then .error (.nodesLeft nodes)
  else if taken.length ≠ total.toNat then .error (.wrongNumber taken.length total)
  else checkTags (Array.replicate total.toNat false) taken

end Verification

end AtomicFifo

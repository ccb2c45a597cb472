import AtomicFifo.Session

/-!
# Sessions on plain values

Plain values belong to whoever holds them. The books list the values that a queue dropped, so
that every value can be accounted for: it is in a queue, it came back to the user, or it is in
this list.
-/

namespace AtomicFifo

universe u

/-- The values dropped since the books were last closed, the latest first. -/
structure Dropped (ι : Type u) where
  latest : List ι

namespace Dropped

variable {ι : Type u}

/-- Books without an entry. -/
def none : Dropped ι := ⟨[]⟩

/-- The values dropped, in the order of dropping. -/
def toList (d : Dropped ι) : List ι := d.latest.reverse

/-- Plain values are asked for by giving them, if they are given at all. -/
def custody (ofWord : Word → ι) : Custody (Dropped ι) (Option ι) ι where
  fetch books item := item.map (·, books)
  generate books n := some (ofWord n, books)
  release books _ := books
  keep books _ := books
  drop books i := ⟨i :: books.latest⟩

end Dropped

end AtomicFifo

import AtomicFifo.Word.Decimal

/-!
# Sizes of memory for people

A size below 1024 is written in bytes. A larger one is written in the largest unit that it
reaches, with one place behind the point. The quotient is that of the size as a floating-point
number of 53 significant bits; a half goes to the even neighbour.
-/

namespace AtomicFifo.ByteSize

/-- The quotient `n / d` rounded to the nearest whole number, a half to the even one. -/
def divToNearest (n d : Nat) : Nat :=
  let q := n / d
  let r := 2 * (n % d)
  if r < d then q else if d < r then q + 1 else if q % 2 = 0 then q else q + 1

/-- A number rounded to its 53 leading bits. -/
def toSignificant (n : Nat) : Nat :=
  let unit := 1 <<< (n.log2 + 1 - 53)
  divToNearest n unit * unit

/-- The units: the least size that is written in it, its value and its letter. The logarithm
that selects the unit cannot tell sizes just below the two largest units from the unit. -/
def units : List (Nat × Nat × String) :=
  [((1 <<< 60) - 6208, 1 <<< 60, "E"), ((1 <<< 50) - 3, 1 <<< 50, "P"),
    (1 <<< 40, 1 <<< 40, "T"), (1 <<< 30, 1 <<< 30, "G"), (1 <<< 20, 1 <<< 20, "M"),
    (1 <<< 10, 1 <<< 10, "K")]

/-- The short form of a size, such as `640B` or `6.2K`. -/
def short (size : Word) : String :=
  match units.find? fun (least, _, _) => least ≤ size.toNat with
  | none => size.toDecimal ++ "B"
  | some (_, unit, letter) =>
    -- In tenths of the unit, so that one rounding gives the place behind the point.
    let tenths := divToNearest (10 * toSignificant size.toNat) unit
    toString (tenths / 10) ++ "." ++ toString (tenths % 10) ++ letter

end AtomicFifo.ByteSize

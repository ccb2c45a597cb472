import AtomicFifo.Word

/-!
# Words in hexadecimal

Addresses are written with a leading `0x` and lower-case digits, either as short as possible
or padded with zeros to the full sixteen digits. They are read with digits of either case.
-/

namespace AtomicFifo.Word

/-- The value of a hexadecimal digit of either case. -/
def hexDigit? (c : Char) : Option Nat :=
  if c.isDigit then some (c.toNat - '0'.toNat)
  else if 'a' ≤ c ∧ c ≤ 'f' then some (c.toNat - 'a'.toNat + 10)
  else if 'A' ≤ c ∧ c ≤ 'F' then some (c.toNat - 'A'.toNat + 10)
  else none

/-- Reads hexadecimal digits onto the value `acc` of the digits before them. -/
def readHexDigits (acc : Word) : List Char → Option Word
  | [] => some acc
  | c :: cs => do
    let d ← hexDigit? c
    let acc ← mulAdd? acc 16 (UInt64.ofNat d)
    readHexDigits acc cs

/-- Reads `0x` and one or more digits whose value fits a word. -/
def ofHex? (text : String) : Option Word :=
  match text.toList with
  | '0' :: 'x' :: c :: cs => readHexDigits 0 (c :: cs)
  | _ => none

/-- The shortest hexadecimal form, such as `0xff`. -/
def toHex (w : Word) : String :=
  String.ofList ('0' :: 'x' :: Nat.toDigits 16 w.toNat)

/-- All sixteen digits, such as `0x00000000000000ff`. -/
def toFullHex (w : Word) : String :=
  let digits := Nat.toDigits 16 w.toNat
  String.ofList ('0' :: 'x' :: (List.replicate (16 - digits.length) '0' ++ digits))

end AtomicFifo.Word

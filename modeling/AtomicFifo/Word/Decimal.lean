import AtomicFifo.Word

/-!
# Words in decimal

A word is written with its decimal digits. It is read with an optional leading plus sign,
digit by digit: the first character that is no digit, or the first digit that takes the value
beyond 64 bits, decides how the reading fails.
-/

namespace AtomicFifo

/-- Why a text is not a word in decimal. -/
inductive NumberError
  /-- There is no text at all. -/
  | empty
  /-- A character is no digit, or a sign stands alone. -/
  | invalidDigit
  /-- The value needs more than 64 bits. -/
  | tooLarge
  deriving DecidableEq, Repr

/-- The wording of a number error. -/
def NumberError.message : NumberError → String
  | .empty => "cannot parse integer from empty string"
  | .invalidDigit => "invalid digit found in string"
  | .tooLarge => "number too large to fit in target type"

namespace Word

/-- The value of a decimal digit. -/
def digit? (c : Char) : Option Nat :=
  if c.isDigit then some (c.toNat - '0'.toNat) else none

/-- Reads digits onto the value `acc` of the digits before them. -/
def readDigits (acc : Word) : List Char → Except NumberError Word
  | [] => .ok acc
  | c :: cs =>
    match digit? c with
    | none => .error .invalidDigit
    | some d =>
      match mulAdd? acc 10 (UInt64.ofNat d) with
      | none => .error .tooLarge
      | some acc => readDigits acc cs

/-- Reads a word: an optional plus sign, then one or more digits. -/
def ofDecimal (text : String) : Except NumberError Word :=
  match text.toList with
  | [] => .error .empty
  | ['+'] => .error .invalidDigit
  | '+' :: cs => readDigits 0 cs
  | cs => readDigits 0 cs

/-- The decimal digits of a word. -/
def toDecimal (w : Word) : String :=
  String.ofList (Nat.toDigits 10 w.toNat)

end Word

end AtomicFifo

/-
Fractional numbers as they are written in text: an optional sign, digits
with an optional point among them or at either end, and an optional
exponent; or one of the words for infinity and "not a number" in any
case. The value is the nearest double.
-/
import DiskAtlas.Decimal.Nearest
import DiskAtlas.Text.Blank
import DiskAtlas.Text.Number

namespace DiskAtlas.Decimal

open Text

/-- The digits at the start of a text, and what follows them. -/
def spanDigits (cs : List Char) : List Char × List Char :=
  (cs.takeWhile Char.isDigit, cs.dropWhile Char.isDigit)

/-- The exponent after the letter, which must be there. -/
def readExponent : List Char → Option Int
  | [] => some 0
  | c :: cs => if c = 'e' ∨ c = 'E' then readSigned cs else none

/-- Digits, a point and digits, of which one side may be empty, and an
exponent. -/
def readUnsignedDecimal (cs : List Char) : Option Float := do
  let (whole, rest) := spanDigits cs
  let (fraction, rest) :=
    match rest with
    | '.' :: tail => spanDigits tail
    | other => ([], other)
  let digits ← readDigits 10 (whole ++ fraction)
  let exponent ← readExponent rest
  some (nearest digits (exponent - fraction.length))

/-- The bits of a double that is no number. -/
def nanBits : UInt64 := 0x7ff8000000000000

/-- The words for the numbers that have no digits. -/
def readWord (cs : List Char) : Option Float :=
  match asciiLower (String.ofList cs) with
  | "inf" => some (Float.ofBits 0x7ff0000000000000)
  | "infinity" => some (Float.ofBits 0x7ff0000000000000)
  | "nan" => some (Float.ofBits nanBits)
  | _ => none

def readMagnitude (cs : List Char) : Option Float :=
  (readUnsignedDecimal cs).orElse fun _ => readWord cs

/-- A fractional number with an optional sign. -/
def read : List Char → Option Float
  | '-' :: cs => (readMagnitude cs).map fun x => -x
  | '+' :: cs => readMagnitude cs
  | cs => readMagnitude cs

end DiskAtlas.Decimal

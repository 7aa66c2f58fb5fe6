/-
Integers as they are written in text: an optional sign, then digits and
nothing else. A plus is always allowed, a minus only where negative
numbers are, and the number must fit the word it is read into. Neither
blanks nor digit separators belong to a number.
-/

namespace DiskAtlas.Text

/-- The value of a digit in base sixteen, capital or small. -/
def digitValue (c : Char) : Option Nat :=
  if c.isDigit then some (c.toNat - '0'.toNat)
  else if 'a' ≤ c ∧ c ≤ 'f' then some (c.toNat - 'a'.toNat + 10)
  else if 'A' ≤ c ∧ c ≤ 'F' then some (c.toNat - 'A'.toNat + 10)
  else none

/-- The number that the digits `cs` continue, in base `base`, after the
digits of `acc`. -/
def digitsFrom (base acc : Nat) : List Char → Option Nat
  | [] => some acc
  | c :: cs => do
    let d ← digitValue c
    if d < base then digitsFrom base (acc * base + d) cs else none

/-- A non-empty run of digits in base `base`. -/
def readDigits (base : Nat) (cs : List Char) : Option Nat :=
  if cs.isEmpty then none else digitsFrom base 0 cs

/-- Digits with an optional plus in front. -/
def readUnsigned (base : Nat) : List Char → Option Nat
  | '+' :: cs => readDigits base cs
  | cs => readDigits base cs

/-- Decimal digits with an optional sign in front. -/
def readSigned : List Char → Option Int
  | '-' :: cs => (readDigits 10 cs).map fun n => -(n : Int)
  | cs => (readUnsigned 10 cs).map Int.ofNat

/-- An unsigned 64-bit number in decimal. -/
def readU64 (cs : List Char) : Option UInt64 := do
  let n ← readUnsigned 10 cs
  if n < UInt64.size then some (UInt64.ofNat n) else none

/-- An unsigned 32-bit number in base sixteen. -/
def readHex32 (cs : List Char) : Option UInt32 := do
  let n ← readUnsigned 16 cs
  if n < UInt32.size then some (UInt32.ofNat n) else none

/-- A signed 64-bit number in decimal. -/
def readI64 (cs : List Char) : Option Int64 := do
  let n ← readSigned cs
  if Int64.minValue.toInt ≤ n ∧ n ≤ Int64.maxValue.toInt then
    some (Int64.ofInt n)
  else none

end DiskAtlas.Text

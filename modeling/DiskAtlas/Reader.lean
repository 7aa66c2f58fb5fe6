/-
Reading values from the start of some bytes. A reader takes what it needs
and leaves the rest for the next one, or it fails and takes nothing.
-/

namespace DiskAtlas

/-- Reads a value from the start of some bytes, or fails. -/
abbrev Reader := StateT (List UInt8) Option

/-- The low `width` bytes of a number, the lowest first. -/
def littleEndian : (width value : Nat) → List UInt8
  | 0, _ => []
  | width + 1, value =>
    UInt8.ofNat value :: littleEndian width (value / 256)

/-- The number of some bytes, the lowest first. -/
def ofLittleEndian : List UInt8 → Nat
  | [] => 0
  | b :: rest => b.toNat + 256 * ofLittleEndian rest

def readByte : Reader UInt8
  | [] => none
  | b :: rest => some (b, rest)

def readBytes (n : Nat) : Reader (List UInt8) := fun bytes =>
  if n ≤ bytes.length then some (bytes.take n, bytes.drop n) else none

/-- Reads a number of `width` bytes, the lowest first. -/
def readNumber (width : Nat) : Reader Nat :=
  return ofLittleEndian (← readBytes width)

end DiskAtlas

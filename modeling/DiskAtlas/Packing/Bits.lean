/-
Bytes as bits. The bits of a byte are numbered from its lowest one, and
those of many bytes go on from one to the next. Most streams of bits are
read from their end: the highest set bit of the last byte only marks where
the stream ends, and numbers are taken from below it, their highest bit
first.
-/

namespace DiskAtlas.Packing

/-- A bit of some bytes; there are only zeros behind them. -/
def bitAt (bytes : Array UInt8) (i : Nat) : Nat :=
  ((bytes[i / 8]?.getD 0).toNat >>> (i % 8)) % 2

/-- The number that `count` bits from `start` on stand for. -/
def bitsAt (bytes : Array UInt8) (start count : Nat) : Nat :=
  (List.range count).foldr (fun i n => bitAt bytes (start + i) + 2 * n) 0

/-- A stream of bits that is read from its end. -/
structure BitStream where
  bytes : Array UInt8
  /-- The bits that were not read. -/
  left : Nat

namespace BitStream

/-- The stream in some bytes, if its end is marked. -/
def ofBytes? (bytes : List UInt8) : Option BitStream :=
  let bytes := bytes.toArray
  match bytes.back? with
  | none => none
  | some last =>
    if last = 0 then none
    else some ⟨bytes, 8 * (bytes.size - 1) + last.toNat.log2⟩

/-- The next `count` bits, with zeros behind the last one. -/
def peek (s : BitStream) (count : Nat) : Nat :=
  if count ≤ s.left then bitsAt s.bytes (s.left - count) count
  else bitsAt s.bytes 0 s.left <<< (count - s.left)

/-- The stream without its next `count` bits, if it has so many. -/
def skip (s : BitStream) (count : Nat) : Option BitStream :=
  if count ≤ s.left then some { s with left := s.left - count } else none

end BitStream

/-- Reads from the end of a stream of bits. -/
abbrev BitReader := StateT BitStream Option

def readBits (count : Nat) : BitReader Nat := fun s =>
  (s.skip count).map fun rest => (s.peek count, rest)

end DiskAtlas.Packing

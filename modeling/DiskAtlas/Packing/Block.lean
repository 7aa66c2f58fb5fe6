/-
Packed blocks. A block holds fresh bytes and instructions that put them
together with what was unpacked before. What one block has written out,
such as the meaning of codewords, may be used again by the next.
-/
import DiskAtlas.Packing.CodeTable
import DiskAtlas.Packing.Sequences

namespace DiskAtlas.Packing

/-- The three distances that were used last, the latest first. -/
structure Distances where
  first : Nat := 1
  second : Nat := 4
  third : Nat := 8

/-- What has been unpacked so far, and what may be used again. -/
structure Progress where
  bytes : Array UInt8 := #[]
  codes : Option CodeTable := none
  machines : Option Machines := none
  distances : Distances := {}

-- ========================================================== fresh bytes

/-- How many fresh bytes are unpacked from how many. -/
structure FreshSize where
  count : Nat
  packed : Nat
  /-- Are they packed in four parts? -/
  inFour : Bool

/-- Reads the size of fresh bytes that are not packed. -/
def readPlainSize (b : UInt8) : Reader Nat := do
  match b.toNat / 4 % 4 with
  | 1 => return b.toNat / 16 + 16 * (← readNumber 1)
  | 3 => return b.toNat / 16 + 16 * (← readNumber 2)
  | _ => return b.toNat / 8

/-- Reads the size of fresh bytes that are packed. -/
def readFreshSize (b : UInt8) : Reader FreshSize := do
  let form := b.toNat / 4 % 4
  let width := if form < 2 then 2 else form + 1
  let bits := if form < 2 then 10 else 4 * form + 6
  let n := b.toNat / 16 + 16 * (← readNumber width)
  return { count := n % (1 <<< bits), packed := n >>> bits,
           inFour := form ≠ 0 }

/-- Unpacks fresh bytes that are packed in four parts. The first six bytes
say how long the first three parts are. -/
def unpackFour (t : CodeTable) (count : Nat) (bytes : List UInt8) :
    Option (Array UInt8) := do
  let (one, rest) ← (readNumber 2).run bytes
  let (two, rest) ← (readNumber 2).run rest
  let (three, rest) ← (readNumber 2).run rest
  let part := (count + 3) / 4
  let (a, rest) ← (readBytes one).run rest
  let (b, rest) ← (readBytes two).run rest
  let (c, rest) ← (readBytes three).run rest
  if count < 3 * part then none
  else
    let out ← t.unpack part a #[]
    let out ← t.unpack part b out
    let out ← t.unpack part c out
    t.unpack (count - 3 * part) rest out

/-- Reads the fresh bytes of a block, and the codewords to use again. -/
def readFresh (before : Option CodeTable) :
    Reader (Array UInt8 × Option CodeTable) := do
  let b ← readByte
  match b.toNat % 4 with
  | 0 => return ((← readBytes (← readPlainSize b)).toArray, before)
  | 1 =>
    let count ← readPlainSize b
    return (Array.replicate count (← readByte), before)
  | kind =>
    let size ← readFreshSize b
    let bytes ← readBytes size.packed
    let read : Option (CodeTable × List UInt8) :=
      if kind = 2 then CodeTable.read.run bytes
      else before.map (·, bytes)
    let (codes, bytes) ← read
    let out ←
      if size.inFour then unpackFour codes size.count bytes
      else codes.unpack size.count bytes #[]
    return (out, some codes)

-- ========================================================= instructions

/-- The distance that an instruction means, and those used last after it.
The numbers 1 to 3 stand for the distances that were used last. Without
fresh bytes the latest makes no sense, so they stand for the others, and 3
for one less than the latest. -/
def Distances.use (d : Distances) (s : Sequence) : Nat × Distances :=
  let turn (n : Nat) : Nat × Distances := (n, ⟨n, d.first, d.second⟩)
  if 3 < s.distance then turn (s.distance - 3)
  else
    match s.distance - (if s.fresh = 0 then 0 else 1) with
    | 0 => (d.first, d)
    | 1 => (d.second, ⟨d.second, d.first, d.third⟩)
    | 2 => turn d.third
    | _ => turn (d.first - 1)

/-- Repeats `count` bytes from `distance` back; what is written can be
repeated at once. -/
def repeatBack (distance : Nat) : (count : Nat) → Array UInt8 → Array UInt8
  | 0, out => out
  | count + 1, out =>
    repeatBack distance count
      (out.push (out[out.size - distance]?.getD 0))

/-- Follows instructions; `used` fresh bytes have been taken. What is left
of them comes at the end. -/
def follow (fresh : Array UInt8) :
    List Sequence → (used : Nat) → Distances → Array UInt8 →
      Option (Array UInt8 × Distances)
  | [], used, d, out => some (out ++ fresh.extract used fresh.size, d)
  | s :: rest, used, d, out =>
    let (distance, d) := d.use s
    let out := out ++ fresh.extract used (used + s.fresh)
    if fresh.size < used + s.fresh || distance = 0 || out.size < distance
    then none
    else
      follow fresh rest (used + s.fresh) d (repeatBack distance s.copied out)

def Progress.unpack (p : Progress) (block : List UInt8) :
    Option Progress := do
  let ((fresh, codes), rest) ← (readFresh p.codes).run block
  let (sequences, machines) ← readSequences p.machines rest
  let (bytes, distances) ← follow fresh sequences 0 p.distances p.bytes
  some { bytes, codes, machines, distances }

end DiskAtlas.Packing

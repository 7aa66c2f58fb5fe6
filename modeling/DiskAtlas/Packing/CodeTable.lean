/-
Bytes as codewords. Every byte that occurs has a weight: a heavier byte
has a shorter codeword, and each further bit halves the share of the space
of codewords. The codewords of one weight follow those of the lesser
weights, in the order of their bytes, so the weights alone say what every
codeword means.
-/
import DiskAtlas.Packing.StateTable

namespace DiskAtlas.Packing

/-- What the bits ahead begin with: a byte and the length of its
codeword. -/
structure Codeword where
  byte : UInt8
  length : Nat
  deriving Repr, Inhabited

/-- The meaning of every number of `longest` bits. -/
structure CodeTable where
  longest : Nat
  words : Array Codeword
  deriving Repr

namespace CodeTable

-- ============================================================== weights

/-- The longest codeword that is allowed. -/
def longestAllowed : Nat := 12

def share (weight : Nat) : Nat := if weight = 0 then 0 else 1 <<< (weight - 1)

/-- The weights with that of the last byte, which is not written: it fills
what is left of the space of codewords. -/
def complete? (weights : List Nat) : Option (Nat × List Nat) :=
  let total := (weights.map share).foldl (· + ·) 0
  let longest := total.log2 + 1
  let left := (1 <<< longest) - total
  let last := left.log2 + 1
  let weights := weights ++ [last]
  let lightest := weights.count 1
  if total = 0 || longest > longestAllowed || share last ≠ left
      || lightest < 2 || lightest % 2 = 1 then none
  else some (longest, weights)

def ofWeights? (weights : List Nat) : Option CodeTable :=
  (complete? weights).map fun (longest, weights) =>
    let wordsOf (weight : Nat) : List Codeword :=
      weights.zipIdx.flatMap fun (w, byte) =>
        if w = weight then
          List.replicate (share w) ⟨UInt8.ofNat byte, longest + 1 - w⟩
        else []
    ⟨longest, ((List.range longest).flatMap (wordsOf <| · + 1)).toArray⟩

/-- Reads weights that are written in half a byte each. -/
def halves (count : Nat) (bytes : List UInt8) : List Nat :=
  (bytes.flatMap fun b => [b.toNat / 16, b.toNat % 16]).take count

/-- Reads weights from two machines that take turns, until a step would
take more bits than there are; the other machine then has one more. -/
def runTurns (t : StateTable) :
    (fuel : Nat) → (now other : State) → BitStream → Option (List Nat)
  | 0, _, _, _ => none
  | fuel + 1, now, other, s =>
    match (t.step now).run s with
    | none => some [now.symbol, other.symbol]
    | some (next, s) =>
      (runTurns t fuel other next s).map (now.symbol :: ·)

/-- The most weights that are written; the last one is left out. -/
def mostWeights : Nat := 255

/-- Weights that are written as steps of a machine. -/
def steppedWeights (bytes : List UInt8) : Option (List Nat) := do
  let (t, rest) ← (StateTable.read 256 6).run bytes
  let s ← BitStream.ofBytes? rest
  let (one, s) ← t.start.run s
  let (two, s) ← t.start.run s
  let weights ← runTurns t mostWeights one two s
  if weights.length > mostWeights then none else weights

def read : Reader CodeTable := do
  let size := (← readByte).toNat
  if size < 128 then
    let weights ← steppedWeights (← readBytes size)
    ofWeights? weights
  else
    let count := size - 127
    let bytes ← readBytes ((count + 1) / 2)
    ofWeights? (halves count bytes)

-- ============================================================== reading

/-- Reads codewords of `count` bytes, which must be all that there is. -/
def readWords (t : CodeTable) :
    (count : Nat) → BitStream → Array UInt8 → Option (Array UInt8)
  | 0, s, out => if s.left = 0 then some out else none
  | count + 1, s, out =>
    match t.words[s.peek t.longest]? with
    | none => none
    | some word =>
      match s.skip word.length with
      | none => none
      | some s => readWords t count s (out.push word.byte)

/-- The `count` bytes in a stream of codewords. -/
def unpack (t : CodeTable) (count : Nat) (bytes : List UInt8)
    (out : Array UInt8) : Option (Array UInt8) := do
  t.readWords count (← BitStream.ofBytes? bytes) out

end CodeTable

end DiskAtlas.Packing

/-
The instructions of a packed block. Each says how many fresh bytes to
take, and how many bytes to repeat from how far back. The three numbers
are written as a symbol, for a range of numbers, and the bits that choose
one of the range; the symbols are steps of three machines that run side by
side.
-/
import DiskAtlas.Packing.StateTable

namespace DiskAtlas.Packing

/-- An instruction. The distance is written either as itself or as one of
those that were used last, so its meaning depends on what came before. -/
structure Sequence where
  /-- How many fresh bytes are taken. -/
  fresh : Nat
  /-- How many bytes are repeated. -/
  copied : Nat
  /-- What is written of the distance. -/
  distance : Nat
  deriving Repr

-- =============================================================== ranges

/-- How many bits choose a number of fresh bytes, by the symbol. -/
def freshBits : List Nat :=
  List.replicate 16 0 ++ [1, 1, 1, 1, 2, 2, 3, 3, 4, 6] ++
    [7, 8, 9, 10, 11, 12, 13, 14, 15, 16]

/-- How many bits choose a number of bytes to repeat, by the symbol. -/
def copiedBits : List Nat :=
  List.replicate 32 0 ++ [1, 1, 1, 1, 2, 2, 3, 3, 4, 4, 5] ++
    [7, 8, 9, 10, 11, 12, 13, 14, 15, 16]

def fewestCopied : Nat := 3

/-- The ranges of numbers, one behind the other from `first` on, by how
many bits choose from them: the first number of each and the bits. -/
def ranges (first : Nat) : List Nat → List (Nat × Nat)
  | [] => []
  | bits :: rest => (first, bits) :: ranges (first + (1 <<< bits)) rest

/-- The ranges of numbers of fresh bytes. -/
def freshRanges : Array (Nat × Nat) := (ranges 0 freshBits).toArray

/-- The ranges of numbers of bytes to repeat. -/
def copiedRanges : Array (Nat × Nat) :=
  (ranges fewestCopied copiedBits).toArray

/-- Reads a number of the range of a symbol. -/
def readInRange (ranges : Array (Nat × Nat)) (symbol : Nat) :
    BitReader Nat := do
  let (first, bits) ← ranges[symbol]?
  return first + (← readBits bits)

-- =============================================================== tables

/-- The three machines. -/
structure Machines where
  fresh : StateTable
  distance : StateTable
  copied : StateTable

/-- What is fixed about one of the machines. -/
structure MachineLimits where
  /-- How many symbols there are. -/
  symbols : Nat
  mostLog : Nat
  /-- The machine that needs not be written. -/
  usual : StateTable

/-- The limits for numbers of fresh bytes. -/
def freshLimits : MachineLimits where
  symbols := 36
  mostLog := 9
  usual := .ofShares 6 <|
    [4, 3] ++ List.replicate 11 2 ++ [1, 1, 1] ++ List.replicate 9 2 ++
      [3, 2, 1, 1, 1, 1, 1, -1, -1, -1, -1]

def distanceLimits : MachineLimits where
  symbols := 32
  mostLog := 8
  usual := .ofShares 5 <|
    [1, 1, 1, 1, 1, 1, 2, 2, 2] ++ List.replicate 15 1 ++
      List.replicate 5 (-1)

/-- The limits for numbers of bytes to repeat. -/
def copiedLimits : MachineLimits where
  symbols := 53
  mostLog := 9
  usual := .ofShares 6 <|
    [1, 4, 3, 2, 2, 2, 2, 2, 2] ++ List.replicate 37 1 ++
      List.replicate 7 (-1)

/-- Reads a machine: the usual one, one of a single symbol, one that is
written out, or the one before. -/
def readMachine (limits : MachineLimits) (before : Option StateTable)
    (mode : Nat) : Reader StateTable := do
  match mode with
  | 0 => return limits.usual
  | 1 =>
    let symbol := (← readByte).toNat
    if symbol < limits.symbols then return .ofSymbol symbol else failure
  | 2 => StateTable.read limits.symbols limits.mostLog
  | _ => before

def readCount : Reader Nat := do
  let a := (← readByte).toNat
  if a < 128 then return a
  let b := (← readByte).toNat
  if a < 255 then return (a - 128) * 256 + b
  let c := (← readByte).toNat
  return b + c * 256 + 0x7F00

def readMachines (before : Option Machines) : Reader Machines := do
  let modes := (← readByte).toNat
  if modes % 4 ≠ 0 then failure
  let fresh ← readMachine freshLimits (before.map (·.fresh)) (modes / 64)
  let distance ←
    readMachine distanceLimits (before.map (·.distance)) (modes / 16 % 4)
  let copied ←
    readMachine copiedLimits (before.map (·.copied)) (modes / 4 % 4)
  return { fresh, distance, copied }

-- ============================================================== running

/-- The states of the three machines. -/
structure MachineStates where
  fresh : State
  distance : State
  copied : State

/-- Reads the states that the machines start in. -/
def Machines.start (m : Machines) : BitReader MachineStates := do
  let fresh ← m.fresh.start
  let distance ← m.distance.start
  let copied ← m.copied.start
  return { fresh, distance, copied }

def Machines.step (m : Machines) (s : MachineStates) :
    BitReader MachineStates := do
  let fresh ← m.fresh.step s.fresh
  let copied ← m.copied.step s.copied
  let distance ← m.distance.step s.distance
  return { fresh, distance, copied }

def readSequence (s : MachineStates) : BitReader Sequence := do
  let distance ← readBits s.distance.symbol
  let copied ← readInRange copiedRanges s.copied.symbol
  let fresh ← readInRange freshRanges s.fresh.symbol
  return { fresh, copied, distance := (1 <<< s.distance.symbol) + distance }

/-- Reads instructions from some states on. After the last one the
machines stop. -/
def Machines.run (m : Machines) :
    (count : Nat) → MachineStates → BitReader (List Sequence)
  | 0, _ => return []
  | 1, s => return [← readSequence s]
  | count + 2, s => do
    let first ← readSequence s
    let rest ← m.run (count + 1) (← m.step s)
    return first :: rest

/-- The instructions in what is left of a block, which must hold nothing
else, and the machines to use again. -/
def readSequences (before : Option Machines) (bytes : List UInt8) :
    Option (List Sequence × Option Machines) := do
  let (count, rest) ← readCount.run bytes
  if count = 0 then
    if rest.isEmpty then some ([], before) else none
  else
    let (machines, rest) ← (readMachines before).run rest
    let s ← BitStream.ofBytes? rest
    let (states, s) ← machines.start.run s
    let (sequences, s) ← (machines.run count states).run s
    if s.left = 0 then some (sequences, some machines) else none

end DiskAtlas.Packing

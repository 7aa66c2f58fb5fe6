/-
Symbols as steps of a machine. A state of the machine stands for a symbol
and says how many bits must be read to find the next state. Every symbol
has a share of the states; the larger it is, the fewer bits the symbol
costs. A table is known by the shares alone, and that is how it is
written.
-/
import DiskAtlas.Packing.Bits
import DiskAtlas.Reader

namespace DiskAtlas.Packing

/-- A state: its symbol, and where to go from it. -/
structure State where
  symbol : Nat
  /-- How many bits are read to find the next state. -/
  bits : Nat
  /-- The first of the states that may be next. -/
  base : Nat
  deriving Repr, Inhabited

/-- The states of a machine; there are two to the power `log` of them. -/
structure StateTable where
  log : Nat
  states : Array State
  deriving Repr

namespace StateTable

-- =============================================================== shares

/-- The table of a single symbol, which costs nothing. -/
def ofSymbol (symbol : Nat) : StateTable := ⟨0, #[⟨symbol, 0, 0⟩]⟩

/-- The order in which states are dealt out to symbols. -/
def dealing (log : Nat) : List Nat :=
  let size := 1 <<< log
  let step := size / 2 + size / 8 + 3
  (List.range size).map fun i => i * step % size

/-- The symbols of the states. A share below zero is a single state at the
end of the table; all others are dealt out below those. -/
def symbolsOf (log : Nat) (shares : List Int) : Array Nat :=
  let size := 1 <<< log
  let all := shares.zipIdx
  let rare := all.filterMap fun (n, s) => if n < 0 then some s else none
  let common := all.flatMap fun (n, s) => List.replicate n.toNat s
  let top := size - rare.length
  let low := ((dealing log).filter (· < top)).zip common
  let high := rare.zipIdx.map fun (s, i) => (size - 1 - i, s)
  (low ++ high).foldl (fun t (i, s) => t.setIfInBounds i s)
    (Array.replicate size 0)

/-- The table in which every symbol has its share of the states. The n-th
state of a symbol is the n-th that is met from the first on. -/
def ofShares (log : Nat) (shares : List Int) : StateTable :=
  let visit (t : Array State × Array Nat) (symbol : Nat) :=
    let next := t.2[symbol]?.getD 1
    let bits := log - next.log2
    let state : State := ⟨symbol, bits, (next <<< bits) - (1 <<< log)⟩
    (t.1.push state, t.2.setIfInBounds symbol (next + 1))
  let first := (shares.map fun n => if n < 0 then 1 else n.toNat).toArray
  ⟨log, ((symbolsOf log shares).foldl visit (#[], first)).1⟩

-- ============================================================== reading

/-- Reads how many more symbols have no share, two bits at a time; the
second number is where it ends. -/
def readGap (bytes : Array UInt8) : (fuel start : Nat) → Nat × Nat
  | 0, start => (0, start)
  | fuel + 1, start =>
    let n := bitsAt bytes start 2
    if n = 3 then
      let (more, last) := readGap bytes fuel (start + 2)
      (more + 3, last)
    else (n, start + 2)

/-- Reads a number from zero to `most`: those for which a bit can be saved
are written without it. The second number is how many bits it takes. -/
def readBounded (bytes : Array UInt8) (start most : Nat) : Nat × Nat :=
  let width := most.log2 + 1
  let value := bitsAt bytes start width
  let half := 1 <<< (width - 1)
  let short := 2 * half - 1 - most
  if value % half < short then (value % half, width - 1)
  else if half ≤ value then (value - short, width)
  else (value, width)

/-- Reads the shares of at most `symbols` symbols, which together are
`left` states; the number is where they end. -/
def readShares (bytes : Array UInt8) :
    (symbols start left : Nat) → Option (List Int × Nat)
  | _, start, 0 => some ([], start)
  | 0, _, _ + 1 => none
  | symbols + 1, start, left =>
    let (value, width) := readBounded bytes start (left + 1)
    let start := start + width
    let share : Int := (value : Int) - 1
    if share.natAbs > left then none
    else if share = 0 then
      let (gap, start) := readGap bytes symbols start
      if gap > symbols then none
      else
        (readShares bytes (symbols - gap) start left).map fun (rest, last) =>
          (0 :: (List.replicate gap 0 ++ rest), last)
    else
      (readShares bytes symbols start (left - share.natAbs)).map
        fun (rest, last) => (share :: rest, last)
termination_by symbols => symbols
decreasing_by
  · exact Nat.lt_succ_of_le (Nat.sub_le _ _)
  · exact Nat.lt_succ_self _

/-- Reads a table of at most `symbols` symbols and at most two to the
power `mostLog` states. -/
def read (symbols mostLog : Nat) : Reader StateTable := fun bytes =>
  let all := bytes.toArray
  let log := bitsAt all 0 4 + 5
  if log > mostLog then none
  else
    match readShares all symbols 4 (1 <<< log) with
    | none => none
    | some (shares, last) =>
      let size := (last + 7) / 8
      if size > bytes.length then none
      else some (ofShares log shares, bytes.drop size)

-- ============================================================== running

/-- Reads the state that a machine starts in. -/
def start (t : StateTable) : BitReader State := do
  let i ← readBits t.log
  t.states[i]?

def step (t : StateTable) (s : State) : BitReader State := do
  let i ← readBits s.bits
  t.states[s.base + i]?

end StateTable

end DiskAtlas.Packing

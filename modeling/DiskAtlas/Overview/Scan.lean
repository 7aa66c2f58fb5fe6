/-
Overviews of a store. An overview is counted over the extents in their
order in the table, some at a time, and kept with the computed values
under its number of cells; asked for again, it is given from there.
Extents past the end of the device touch no cell.
-/
import DiskAtlas.Store.Basic
import DiskAtlas.Overview.Cell

namespace DiskAtlas

namespace Overview

/-- Counts an extent in the cells from `first` to `last`. -/
def addToCells (kind : ExtentKind) (first last : Nat)
    (cells : Array Cell) : Array Cell :=
  (List.range' first (last + 1 - first)).foldl
    (fun cells i => cells.modify i (·.add kind)) cells

def addExtent (resolution total : UInt64) (cells : Array Cell)
    (e : Extent) : Array Cell :=
  if total ≤ e.physical then cells
  else
    addToCells e.kind (cellOf e.physical resolution total).toNat
      (cellOf e.physicalEnd resolution total).toNat cells

/-- An overview that is being counted. -/
structure Scan where
  resolution : UInt64
  total : UInt64
  cells : Array Cell
  /-- The number of extents counted. -/
  next : Nat
  deriving Repr, DecidableEq

namespace Scan

/-- An overview before the first extent is counted. -/
def start (resolution total : UInt64) : Scan :=
  ⟨resolution, total, Array.replicate resolution.toNat .empty, 0⟩

/-- Counts the next `batch` extents, at least one. -/
def step (scan : Scan) (extents : Array Extent) (batch : Nat) : Scan :=
  let stop := min (scan.next + max batch 1) extents.size
  let block := (extents.extract scan.next stop).toList
  { scan with
    cells := block.foldl (addExtent scan.resolution scan.total) scan.cells
    next := stop }

def isDone (scan : Scan) (extents : Array Extent) : Bool :=
  extents.size ≤ scan.next

/-- Extents that are counted at a time where nobody asks otherwise. -/
def batchSize : Nat := 0x10000

/-- Counts in batches as long as `called off` does not say to stop, which
it is asked before every batch. There are never more batches than extents
left, and one. -/
def runFrom (calledOff : Nat → Bool) (extents : Array Extent) :
    (batches : Nat) → (done : Nat) → Scan → Option Scan
  | 0, _, scan => some scan
  | batches + 1, done, scan =>
    if calledOff done then none
    else
      let scan := scan.step extents batchSize
      if scan.isDone extents then some scan
      else runFrom calledOff extents batches (done + 1) scan

def complete (scan : Scan) (extents : Array Extent) : Scan :=
  (runFrom (fun _ => false) extents (extents.size - scan.next + 1) 0 scan).getD
    scan

end Scan

end Overview

open Overview

namespace Store

variable {β : Type}

/-- Begins to count an overview of a finished scan. -/
def overviewScan (s : Store β) (resolution : UInt64) :
    Except Error Scan := do
  let summary ← s.ensureReady
  checkResolution resolution summary.totalBytes
  return .start resolution summary.totalBytes

/-- Counts what is left of an overview and keeps it. -/
def finishOverview (s : Store β) (scan : Scan) :
    Array Cell × Store β :=
  let cells := (scan.complete s.tables.extents).cells
  let kept := s.calculated.overviews.insert scan.resolution cells
  (cells, { s with
    calculated := { s.calculated with overviews := kept }, dirty := true })

/-- The overview at a resolution, from the ones that are kept unless
`force` asks for a fresh count. Counting can be called off; then there is
no answer. -/
def overviewUnless (s : Store β) (calledOff : Nat → Bool)
    (resolution : UInt64) (force : Bool) :
    Except Error (Option (Array Cell)) × Store β :=
  match s.overviewScan resolution with
  | .error e => (.error e, s)
  | .ok scan =>
    let kept := s.calculated.overviews.get? resolution
    match force, kept with
    | false, some cells => (.ok (some cells), s)
    | _, _ =>
      let extents := s.tables.extents
      match scan.runFrom calledOff extents (extents.size + 1) 0 with
      | none => (.ok none, s)
      | some scan =>
        let (cells, s) := s.finishOverview scan
        (.ok (some cells), s)

def overview (s : Store β) (resolution : UInt64) (force : Bool) :
    Except Error (Array Cell) × Store β :=
  match s.overviewUnless (fun _ => false) resolution force with
  | (.ok (some cells), s) => (.ok cells, s)
  | (.ok none, s) => (.error (.input .overviewCancelled), s)
  | (.error e, s) => (.error e, s)

end Store

end DiskAtlas

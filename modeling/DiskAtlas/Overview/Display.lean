/-
What is shown of an overview: a number of cells, and the byte ranges that
are highlighted. Highlights are kept as bytes, so that another number of
cells maps them anew. The mask of lit cells is found by one sweep over
marks that are set where a range begins and ends.
-/
import DiskAtlas.Overview.Scan

namespace DiskAtlas.Overview

/-- A display of a device. -/
structure Display where
  resolution : UInt64
  total : UInt64
  highlights : List (Span UInt64) := []
  deriving Repr, DecidableEq

namespace Display

def make (resolution total : UInt64) : Except Error Display := do
  checkResolution resolution total
  return { resolution, total }

/-- A display of the device of a finished scan. -/
def ofStore {β : Type} (s : Store β) (resolution : UInt64) :
    Except Error Display := do
  let summary ← s.ensureReady
  make resolution summary.totalBytes

/-- Cuts the device into another number of cells, if it can be. -/
def setResolution (d : Display) (resolution : UInt64) :
    Except Error Unit × Display :=
  match checkResolution resolution d.total with
  | .error e => (.error e, d)
  | .ok () => (.ok (), { d with resolution })

def cellOf (d : Display) (offset : UInt64) : UInt64 :=
  Overview.cellOf offset d.resolution d.total

def cellRange (d : Display) (cell : UInt64) : Except Error (Span UInt64) :=
  if cell < d.resolution then
    .ok ⟨cellStart cell.toNat d.resolution d.total,
      cellStart (cell.toNat + 1) d.resolution d.total - 1⟩
  else .error (.range (.beyondOverview cell d.resolution))

-- ==================================================== ranges of bytes

/-- Joins ranges that touch, in a list sorted by first values. `held` is
the range that may still grow. -/
def mergeFrom (held : Span UInt64) : List (Span UInt64) →
    List (Span UInt64)
  | [] => [held]
  | r :: rest =>
    if r.first ≤ satAdd held.last 1 then
      mergeFrom ⟨held.first, max held.last r.last⟩ rest
    else held :: mergeFrom r rest

def merge (ranges : List (Span UInt64)) : List (Span UInt64) :=
  match ranges.mergeSort fun a b => decide (a.first ≤ b.first) with
  | [] => []
  | r :: rest => mergeFrom r rest

/-- The bytes of a range of cells. -/
def cellsRange (d : Display) (cells : Span UInt64) :
    Except Error (Span UInt64) := do
  let first ← d.cellRange cells.first
  let last ← d.cellRange cells.last
  return .ofBounds first.first last.last

/-- The bytes of ranges of cells, with neighbours joined. -/
def cellsToRanges (d : Display) (cells : List (Span UInt64)) :
    Except Error (List (Span UInt64)) := do
  let ranges ← cells.mapM d.cellsRange
  return merge ranges

-- ========================================================= highlights

def highlight (d : Display) (ranges : List (Span UInt64)) : Display :=
  { d with highlights := ranges }

/-- Highlights where extents lie on the device. -/
def highlightExtents (d : Display) (extents : List Extent) : Display :=
  d.highlight (extents.map fun e => .ofBounds e.physical e.physicalEnd)

def clear (d : Display) : Display := d.highlight []

/-- Marks where a range begins and behind where it ends. A range past the
device has no marks. -/
def mark (d : Display) (marks : Array Int) (r : Span UInt64) : Array Int :=
  if d.total ≤ r.first then marks
  else
    let first := (d.cellOf r.first).toNat
    let last := (d.cellOf (min r.last (d.total - 1))).toNat
    (marks.modify first (· + 1)).modify (last + 1) (· - 1)

/-- Whether more ranges have begun than ended, at each mark. -/
def sweep (depth : Int) : List Int → List Bool
  | [] => []
  | m :: rest => decide (0 < depth + m) :: sweep (depth + m) rest

/-- Which cells have a highlighted byte. Memory is taken to be without
bound: there is one mark more than cells, and a list of all of them,
however many cells the display was given. -/
def mask (d : Display) : List Bool :=
  let cells := d.resolution.toNat
  let marks := d.highlights.foldl d.mark (Array.replicate (cells + 1) 0)
  sweep 0 (marks.toList.take cells)

def render (cells : List Cell) (shown : KindSet) : String :=
  String.ofList (cells.map (·.symbol shown))

end Display

end DiskAtlas.Overview

/-
Cells of the overview. The device is cut into a number of cells of almost
equal size, and a cell counts, for each kind, the extents that touch it.
Byte `o` of a device of `total` bytes lies in cell `⌊o * cells / total⌋`,
so cell `c` begins at byte `⌈c * total / cells⌉`. A cell is shown by the
symbol of its commonest kind, in small letters if it has others too.
-/
import DiskAtlas.Kind
import DiskAtlas.Span
import DiskAtlas.Error

namespace DiskAtlas.Overview

/-- How many extents of each kind touch a cell. -/
structure Cell where
  counts : Vector UInt64 7
  deriving Repr, DecidableEq

namespace Cell

def empty : Cell := ⟨Vector.replicate 7 0⟩

instance : Inhabited Cell := ⟨empty⟩

def count (c : Cell) (kind : ExtentKind) : UInt64 :=
  c.counts.get ⟨kind.index, kind.index_lt⟩

/-- The cell with one more extent of a kind. -/
def add (c : Cell) (kind : ExtentKind) : Cell :=
  ⟨c.counts.set kind.index (c.count kind + 1) kind.index_lt⟩

/-- The number of extents of the kinds that are shown. -/
def total (c : Cell) (shown : KindSet) : Nat :=
  shown.kinds.foldl (fun n kind => n + (c.count kind).toNat) 0

/-- The commonest kind among some, the first of several; `best` is what
was found before them. -/
def commonest (c : Cell) (best : Option ExtentKind) :
    List ExtentKind → Option ExtentKind
  | [] => best
  | kind :: rest =>
    if best.elim 0 c.count < c.count kind then c.commonest (some kind) rest
    else c.commonest best rest

/-- The commonest kind that is shown, and whether it is the only one in
the cell. -/
def dominant (c : Cell) (shown : KindSet) : Option (ExtentKind × Bool) :=
  (c.commonest none shown.kinds).map fun kind =>
    (kind, (c.count kind).toNat == c.total shown)

def emptySymbol : Char := '.'

def symbol (c : Cell) (shown : KindSet) : Char :=
  match c.dominant shown with
  | none => emptySymbol
  | some (kind, true) => kind.symbol
  | some (kind, false) => kind.symbol.toLower

end Cell

-- ======================================================= cells and bytes

/-- The cell of an offset. Offsets past the device are in the last
cell. -/
def cellOf (offset cells total : UInt64) : UInt64 :=
  UInt64.ofNat (min (offset.toNat * cells.toNat / total.toNat)
    (cells.toNat - 1))

/-- The first byte of a cell, or the size of the device behind the last
cell. -/
def cellStart (cell : Nat) (cells total : UInt64) : UInt64 :=
  UInt64.ofNat
    ((cell * total.toNat + cells.toNat - 1) / cells.toNat)

/-- A device can be cut into as many cells as it has bytes, and not into
none. -/
def checkResolution (cells total : UInt64) : Except Error Unit :=
  if cells = 0 ∨ total < cells then
    .error (.range (.resolution cells total))
  else .ok ()

end DiskAtlas.Overview

/-
What is computed from the tables to find rows fast. Extents are known by
their place in the extent table, their number; `order` lists the numbers
by inode, then offset in the inode (none first), then place on the device,
then number. In that order the extents of one inode stand next to each
other.

Where the last extent ends on the device is not kept: a scan asks the table
for it once, when it is finished, and nothing asks an index.
-/
import DiskAtlas.Store.IntervalIndex
import DiskAtlas.Store.Tables

namespace DiskAtlas

/-- Comparison of offsets that may be missing; a missing one is first. -/
def compareOffset : Option UInt64 → Option UInt64 → Ordering
  | none, none => .eq
  | none, some _ => .lt
  | some _, none => .gt
  | some a, some b => compare a b

/-- An extent with its number. -/
abbrev NumberedExtent := Extent × Nat

/-- The order of the answers to queries. -/
def compareExtents (a b : NumberedExtent) : Ordering :=
  (compare a.1.ino b.1.ino)
    |>.then (compareOffset a.1.logical b.1.logical)
    |>.then (compare a.1.physical b.1.physical)
    |>.then (compare a.2 b.2)

/-- The stretches of equal inodes in a list, each with the places where it
begins and ends. `start` is where the current stretch began and `place`
where the list does. -/
def stretches (start place : Nat) :
    List Int64 → List (Int64 × Nat × Nat)
  | [] => []
  | ino :: rest =>
    if rest.head? = some ino then stretches start (place + 1) rest
    else (ino, start, place + 1) :: stretches (place + 1) (place + 1) rest

/-- The indexes of some tables. -/
structure StoreIndex where
  /-- The numbers of all extents, in the order of answers. -/
  order : Array Nat
  /-- The place of each number in `order`. -/
  rank : Array Nat
  /-- Where the extents of each inode begin and end in `order`. -/
  stretch : SortedMap Int64 (Nat × Nat)
  physical : IntervalIndex
  logical : IntervalIndex
  /-- The paths of each inode, in ascending order. -/
  pathsByInode : SortedMap Int64 (List String)
  /-- How many extents of each kind there are. -/
  kindCounts : Overview.Cell

namespace StoreIndex

def empty : StoreIndex :=
  ⟨#[], #[], .empty, .build [], .build [], .empty, .empty⟩

instance : Inhabited StoreIndex := ⟨empty⟩

def numbered (extents : Array Extent) : List NumberedExtent :=
  extents.toList.zipIdx

/-- The place of each number in an ordering of all numbers. -/
def ranks (order : List Nat) : Array Nat :=
  order.zipIdx.foldl (fun ranks (id, place) => ranks.setIfInBounds id place)
    (Array.replicate order.length 0)

/-- The interval that an extent covers on the device. -/
def physicalInterval (e : NumberedExtent) : Interval :=
  ⟨e.1.physical, e.1.physicalEnd, e.2⟩

/-- The interval that an extent covers in its inode, if it has a place
there. -/
def logicalInterval (e : NumberedExtent) : Option Interval :=
  match e.1.logical, e.1.logicalEnd with
  | some first, some last => some ⟨first, last, e.2⟩
  | _, _ => none

/-- Adds a path to the paths of its inode. -/
def addPath (paths : SortedMap Int64 (List String))
    (entry : String × Int64) : SortedMap Int64 (List String) :=
  paths.insert entry.2 ((paths.get? entry.2).getD [] ++ [entry.1])

def build (tables : Tables) : StoreIndex :=
  let rows := numbered tables.extents
  let sorted := rows.mergeSort fun a b => (compareExtents a b).isLE
  let order := sorted.map (·.2)
  { order := order.toArray
    rank := ranks order
    stretch := .ofList (stretches 0 0 (sorted.map (·.1.ino)))
    physical := .build (rows.map physicalInterval)
    logical := .build (rows.filterMap logicalInterval)
    pathsByInode := tables.paths.entries.foldl addPath .empty
    kindCounts := rows.foldl (fun c e => c.add e.1.kind) .empty }

/-- The numbers between two places of the order. -/
def between (index : StoreIndex) (ends : Nat × Nat) : List Nat :=
  (index.order.extract ends.1 ends.2).toList

/-- The numbers of the extents of an inode, in the order of answers. -/
def extentsOf (index : StoreIndex) (ino : Int64) : List Nat :=
  match index.stretch.get? ino with
  | some ends => index.between ends
  | none => []

/-- The paths of an inode, in ascending order. -/
def pathsOf (index : StoreIndex) (ino : Int64) : List String :=
  (index.pathsByInode.get? ino).getD []

end StoreIndex

end DiskAtlas

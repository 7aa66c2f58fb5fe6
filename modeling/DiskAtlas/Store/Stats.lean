/-
How scattered an inode lies. Its own extents are read in the order of the
file. The way on the device and the way in the file both grow by the
length of each extent and by the gap to the extent before it; their
quotient is the travel score, which is one for a file without gaps.
-/
import DiskAtlas.Store.Basic

namespace DiskAtlas

/-- The ways travelled so far. -/
structure Travel where
  count : UInt64 := 0
  physical : Float := 0
  logical : Float := 0
  previous : Option Extent := none

namespace Travel

/-- The gap between the end of one stretch and the start of another, in
either direction. -/
def gap (lastByte start : UInt64) : Float :=
  (distance start (satAdd lastByte 1)).toFloat

/-- The gap in the file between two extents, if both have a place there. -/
def logicalGap (previous next : Extent) : Option Float :=
  match next.logical, previous.logicalEnd with
  | some start, some last => some (gap last start)
  | _, _ => none

/-- Travels on to the next extent and through it. -/
def step (t : Travel) (e : Extent) : Travel :=
  let physical := t.physical + e.length.toFloat
  let logical := t.logical + e.length.toFloat
  match t.previous with
  | none => ⟨t.count + 1, physical, logical, some e⟩
  | some p =>
    let physical := physical + gap p.physicalEnd e.physical
    let logical :=
      match logicalGap p e with
      | some way => logical + way
      | none => logical
    ⟨t.count + 1, physical, logical, some e⟩

end Travel

/-- The statistics of extents in the order of their file. -/
def travelStats (extents : List Extent) : InodeStats :=
  let t := extents.foldl Travel.step {}
  let score := if 0 < t.logical then t.physical / t.logical else 0
  ⟨t.count, score.toBits⟩

namespace Store

variable {β : Type}

/-- The statistics of an inode as they follow from the tables. -/
def freshStats (s : Store β) (inode : Inode) : InodeStats :=
  travelStats
    ((s.extentsOf inode.ino).filter fun e => e.kind == inode.kind.primary)

/-- The statistics of an inode, computed at most once. -/
def statsFor (s : Store β) (inode : Inode) : InodeStats × Store β :=
  match s.calculated.inodeStats.get? inode.ino with
  | some stats => (stats, s)
  | none =>
    let stats := s.freshStats inode
    let kept := s.calculated.inodeStats.insert inode.ino stats
    (stats, { s with
      calculated := { s.calculated with inodeStats := kept }
      dirty := true })

/-- The statistics of the inode with a number. -/
def inodeStats (s : Store β) (ino : Int64) :
    Except Error InodeStats × Store β :=
  match s.ensureReady, s.inode ino with
  | .error e, _ => (.error e, s)
  | .ok _, none => (.error (.input (.noInode ino)), s)
  | .ok _, some inode =>
    let (stats, s) := s.statsFor inode
    (.ok stats, s)

end Store

end DiskAtlas

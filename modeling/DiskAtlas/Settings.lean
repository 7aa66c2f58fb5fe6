/-
What can be chosen when a store is opened and when a scan is run, with the
values that hold where nothing is chosen.
-/

namespace DiskAtlas

/-- How a store is opened. -/
inductive Access where
  | readOnly
  | readWrite
  deriving Repr, DecidableEq

/-- Choices for a scan. -/
structure ScanSettings where
  /-- Records asked for at once when a file is mapped. -/
  fileBatch : Nat := 512
  /-- Records asked for at once when the device is mapped. -/
  deviceBatch : Nat := 10000
  /-- The most blocks that are joined when a file is mapped by blocks. -/
  maxRunBlocks : UInt64 := 32768
  /-- Map every file by blocks. -/
  forceBlocks : Bool := false
  /-- Have the kernel write out a file before it is mapped. -/
  syncFirst : Bool := false
  /-- Map the whole device after the walk. -/
  mapFreeSpace : Bool := true
  /-- Save the unfinished tables each time this many objects were seen. -/
  checkpointInterval : Option UInt64 := none
  deriving Repr, DecidableEq

namespace ScanSettings

/-- A run joins at least one block. -/
def withMaxRunBlocks (s : ScanSettings) (blocks : UInt64) : ScanSettings :=
  { s with maxRunBlocks := max blocks 1 }

/-- An interval of zero objects means no checkpoints. -/
def withCheckpointInterval (s : ScanSettings) (inodes : UInt64) :
    ScanSettings :=
  { s with checkpointInterval := if inodes = 0 then none else some inodes }

/-- Set in this way, an interval is never one of no objects. -/
theorem withCheckpointInterval_ne (s : ScanSettings) (inodes : UInt64) :
    (s.withCheckpointInterval inodes).checkpointInterval ≠ some 0 := by
  unfold withCheckpointInterval
  dsimp only
  split
  · nofun
  · next hinodes => exact fun h => hinodes (Option.some.inj h)

end ScanSettings

end DiskAtlas

/-
The tables of a store. One scan fills them: the facts about the file
system, the inodes, the paths that name them, the entries of directories
and the extents. What is computed from them afterwards is kept beside them
and can be dropped at any time.
-/
import DiskAtlas.Extent
import DiskAtlas.Inode
import DiskAtlas.SortedMap
import DiskAtlas.Filter.Basic
import DiskAtlas.Overview.Cell
import DiskAtlas.Store.Summary

namespace DiskAtlas

/-- Everything that a scan produces. -/
structure Tables where
  summary : Option Summary
  inodes : SortedMap Int64 Inode
  /-- Paths from the scanned root, which is the empty path. -/
  paths : SortedMap String Int64
  /-- The entries of each directory, by name. -/
  directories : SortedMap Int64 (SortedMap String Int64)
  extents : Array Extent
  deriving DecidableEq

namespace Tables

def empty : Tables := ⟨none, .empty, .empty, .empty, #[]⟩

instance : Inhabited Tables := ⟨empty⟩

end Tables

/-- What was computed from the tables. -/
structure Calculated where
  inodeStats : SortedMap Int64 InodeStats
  /-- Overviews by their number of cells. -/
  overviews : SortedMap UInt64 (Array Overview.Cell)
  deriving DecidableEq

namespace Calculated

def empty : Calculated := ⟨.empty, .empty⟩

instance : Inhabited Calculated := ⟨empty⟩

end Calculated

/-- What is kept between runs of the program. -/
structure Persisted where
  tables : Tables
  calculated : Calculated
  deriving DecidableEq

instance : Inhabited Persisted := ⟨⟨.empty, .empty⟩⟩

end DiskAtlas

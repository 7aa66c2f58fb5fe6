/-
Filters. A filter is a conjunction of dimensions and each dimension a
disjunction of values; a dimension without values restricts nothing. The
dimensions of an `ExtentFilter` look at one extent at a time, apart from
the path dimension, which needs the path table. An `InodeFilter` adds what
can be asked of an inode's row and of its statistics.
-/
import DiskAtlas.Span
import DiskAtlas.Extent
import DiskAtlas.Inode
import DiskAtlas.Path.Pattern

namespace DiskAtlas

/-- How an inode's own extents lie on the device. The score is kept by
its bits, so that what was saved comes back unchanged. -/
structure InodeStats where
  /-- The number of extents. -/
  extents : UInt64
  travelBits : UInt64
  deriving Repr, DecidableEq, Inhabited

/-- Bytes travelled on the device for each byte of the file. -/
def InodeStats.travel (stats : InodeStats) : Float :=
  Float.ofBits stats.travelBits

/-- Dimensions of a single extent. -/
structure ExtentFilter where
  physical : List (Span UInt64) := []
  logical : List (Span UInt64) := []
  inodes : List (Span Int64) := []
  lengths : List (Span UInt64) := []
  paths : PathFilter := .none
  kinds : Option KindSet := none
  flags : List FlagMatch := []

namespace ExtentFilter

/-- The filter that also lets through the kinds of `kinds`. -/
def addKinds (f : ExtentFilter) (kinds : KindSet) : ExtentFilter :=
  { f with kinds := some ((f.kinds.map (·.union kinds)).getD kinds) }

/-- Does a dimension other than the inode number and the path restrict
which extents match? -/
def restrictsExtents (f : ExtentFilter) : Bool :=
  !f.physical.isEmpty || !f.logical.isEmpty || !f.lengths.isEmpty
    || f.kinds.isSome || !f.flags.isEmpty

/-- Does the logical dimension let an extent through? An extent without a
logical offset passes only if the dimension is empty. -/
def acceptsLogical (f : ExtentFilter) (e : Extent) : Bool :=
  match e.logical, e.logicalEnd with
  | some first, some last => Span.anyOverlaps f.logical first last
  | _, _ => f.logical.isEmpty

/-- Does an extent satisfy every dimension but the path? -/
def accepts (f : ExtentFilter) (e : Extent) : Bool :=
  Span.anyContains f.inodes e.ino
    && Span.anyOverlaps f.physical e.physical e.physicalEnd
    && f.acceptsLogical e
    && Span.anyContains f.lengths e.length
    && f.kinds.all (·.has e.kind)
    && (f.flags.isEmpty || f.flags.any (·.accepts e.flags))

end ExtentFilter

-- ====================================================== inode filters

/-- Dimensions of an inode: some extent of it satisfies `extent`, its row
the sizes and times, and its statistics the rest. -/
structure InodeFilter where
  extent : ExtentFilter := {}
  travel : List (Span Float) := []
  extentCounts : List (Span UInt64) := []
  sizes : List (Span UInt64) := []
  atimes : List (Span Int64) := []
  crtimes : List (Span Int64) := []
  ctimes : List (Span Int64) := []
  mtimes : List (Span Int64) := []

namespace InodeFilter

def needsStats (f : InodeFilter) : Bool :=
  !f.travel.isEmpty || !f.extentCounts.isEmpty

/-- Does the row of an inode satisfy its dimensions? -/
def acceptsRow (f : InodeFilter) (inode : Inode) : Bool :=
  Span.anyContains f.extent.inodes inode.ino
    && Span.anyContainsOpt f.sizes inode.size
    && Span.anyContainsOpt f.atimes inode.times.atime
    && Span.anyContainsOpt f.crtimes inode.times.crtime
    && Span.anyContainsOpt f.ctimes inode.times.ctime
    && Span.anyContainsOpt f.mtimes inode.times.mtime

/-- Do the statistics of an inode satisfy their dimensions? -/
def acceptsStats (f : InodeFilter) (stats : InodeStats) : Bool :=
  Span.anyContains f.travel stats.travel
    && Span.anyContains f.extentCounts stats.extents

end InodeFilter

end DiskAtlas

/-
Which rows a query looks at. A plan picks the narrowest way to candidates
that the filter offers: the extents that overlap a physical range, else
those that overlap a logical range, else those of the inodes whose paths
match, else those of the inodes asked for, else all of them. Whatever the
way, candidates come in the order of answers and each comes once, and
every candidate is checked against the whole filter.

A glob is looked for only among the paths that begin with its stem, which
stand next to each other in the sorted table.

Spans of inode numbers are looked up as ranges of sorted keys. The spans of
a filter that was read, and those of `Span.ofBounds` and `Span.single`, run
forwards. A span that was put together by hand with its last number before
its first holds no number, so it is answered here with no rows; the program
stops when such a range of keys is asked for (`idsOfSpan`,
`inodeCandidates`).
-/
import DiskAtlas.Query.Context
import DiskAtlas.Store.Stats

namespace DiskAtlas.Query

variable {β : Type}

-- ============================================================== paths

/-- The entries whose paths begin with a stem. -/
def withStem (stem : String) (entries : List (String × Int64)) :
    List (String × Int64) :=
  (entries.dropWhile fun e => compare e.1 stem == .lt).takeWhile
    fun e => stem.toList.isPrefixOf e.1.toList

/-- The inodes that are named by a path that matches a pattern. -/
def inodesOfPattern (paths : SortedMap String Int64) :
    PathPattern → List Int64
  | .exact path => (paths.get? path).toList
  | .glob text tokens stem =>
    ((withStem stem paths.entries).filter fun e =>
      (PathPattern.glob text tokens stem).accepts e.1).map (·.2)

/-- The inodes that are named by a path that matches some pattern. -/
def inodesOfPaths (s : Store β) (paths : PathFilter) : List Int64 :=
  paths.values.flatMap (inodesOfPattern s.tables.paths)

/-- The inodes that the path dimension lets through, if it restricts
anything. -/
def pathInodes (s : Store β) (paths : PathFilter) : Option (List Int64) :=
  if paths.isActive then some (inodesOfPaths s paths) else none

-- ========================================================= candidates

/-- Numbers of extents in the order of answers, each once. -/
def inOrder (s : Store β) (ids : List Nat) : List Nat :=
  let rank (id : Nat) := (s.index.rank[id]?).getD 0
  (ids.mergeSort fun a b => decide (rank a ≤ rank b)).eraseReps

/-- The numbers of the extents of the inodes in a span. A span that runs
backwards has none. -/
def idsOfSpan (s : Store β) (span : Span Int64) : List Nat :=
  (s.index.stretch.entries.filter fun e => span.contains e.1).flatMap
    fun e => s.index.between e.2

/-- The numbers of the extents that a query looks at. -/
def candidates (s : Store β) (filter : ExtentFilter)
    (inodes : Option (List Int64)) : List Nat :=
  if !filter.physical.isEmpty then
    inOrder s <| filter.physical.flatMap fun r =>
      s.index.physical.overlapping r.first r.last
  else if !filter.logical.isEmpty then
    inOrder s <| filter.logical.flatMap fun r =>
      s.index.logical.overlapping r.first r.last
  else
    match inodes with
    | some inodes => inOrder s (inodes.flatMap s.index.extentsOf)
    | none =>
      if !filter.inodes.isEmpty then
        inOrder s (filter.inodes.flatMap (idsOfSpan s))
      else s.index.order.toList

/-- Does an extent belong to the answer? -/
def acceptsExtent (context : QueryContext) (filter : ExtentFilter)
    (inodes : Option (List Int64)) (e : Extent) : Bool :=
  context.isVisible e.kind && filter.accepts e
    && inodes.all (·.contains e.ino)

/-- The extents that belong to the answer. -/
def matchingExtents (s : Store β) (context : QueryContext)
    (filter : ExtentFilter) : List Extent :=
  let inodes := pathInodes s filter.paths
  (s.extentsAt (candidates s filter inodes)).filter
    (acceptsExtent context filter inodes)

/-- A physical range must begin on the device. -/
def checkPhysical (summary : Summary) (filter : ExtentFilter) :
    Except Error Unit :=
  match filter.physical.find? fun r => summary.totalBytes ≤ r.first with
  | some r => .error (.range (.beyondDevice r.first summary.totalBytes))
  | none => .ok ()

/-- Ascending inode numbers, each once. -/
def ascending (inodes : List Int64) : List Int64 :=
  (inodes.mergeSort fun a b => decide (a ≤ b)).eraseReps

/-- The inodes that a query looks at. If the filter restricts extents, or
some kind is hidden, these are the owners of matching extents; otherwise
inodes without extents count too. A span of numbers that runs backwards has
no inodes. -/
def inodeCandidates (s : Store β) (context : QueryContext)
    (filter : InodeFilter) : List Int64 :=
  let f := filter.extent
  if f.restrictsExtents || context.hidesKinds then
    ascending ((matchingExtents s context f).map (·.ino))
  else if f.paths.isActive then ascending (inodesOfPaths s f.paths)
  else if !f.inodes.isEmpty then
    ascending <| f.inodes.flatMap fun span =>
      s.tables.inodes.keys.filter span.contains
  else s.tables.inodes.keys

end DiskAtlas.Query

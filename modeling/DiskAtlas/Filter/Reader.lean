/-
Filters as text. Each term adds values to the dimension that its key
names; repeating a key adds further values to the same dimension, except
that the values of `path` are never split at commas. Keys about inodes
have no meaning for extents and are refused there.
-/
import DiskAtlas.Filter.Term
import DiskAtlas.Filter.Value

namespace DiskAtlas

open Calendar FilterValue

/-- The dimensions that a key can name. -/
inductive FilterField where
  | physical
  | logical
  | length
  | inode
  | path
  | kind
  | flags (mode : FlagMode)
  | size
  | travel
  | extents
  | atime
  | crtime
  | ctime
  | mtime
  deriving Repr, DecidableEq

namespace FilterField

def keys : List (String × FilterField) := [
  ("phys", physical), ("p", physical), ("log", logical), ("l", logical),
  ("len", length), ("size", size), ("ino", inode), ("i", inode),
  ("path", path), ("type", kind), ("flags", flags .exact),
  ("anyflags", flags .any), ("allflags", flags .all), ("travel", travel),
  ("extents", extents), ("atime", atime), ("crtime", crtime),
  ("ctime", ctime), ("mtime", mtime)]

def ofKey? (key : String) : Option FilterField := keys.lookup key

/-- Is the dimension one of inodes and not of extents? -/
def isInodesOnly : FilterField → Bool
  | size | travel | extents | atime | crtime | ctime | mtime => true
  | _ => false

end FilterField

namespace InodeFilter

/-- Adds the items of one value to the dimension of a field. -/
def addValue (zone : Zone) (s : Summary) (f : InodeFilter) (value : String) :
    FilterField → Except FilterError InodeFilter
  | .physical => do
    let spans ← (items value).mapM (readOffsetSpan s)
    return { f with extent.physical := f.extent.physical ++ spans }
  | .logical => do
    let spans ← (items value).mapM (readOffsetSpan s)
    return { f with extent.logical := f.extent.logical ++ spans }
  | .length => do
    let spans ← (items value).mapM (readOffsetSpan s)
    return { f with extent.lengths := f.extent.lengths ++ spans }
  | .inode => do
    let spans ← (items value).mapM readInodeSpan
    return { f with extent.inodes := f.extent.inodes ++ spans }
  | .path =>
    match f.extent.paths.add value s.separator with
    | .ok paths => .ok { f with extent.paths := paths }
    | .error e => .error (.badGlob value e)
  | .kind => do
    let sets ← (items value).mapM readKinds
    let kinds := sets.foldl KindSet.union .empty
    return { f with extent := f.extent.addKinds kinds }
  | .flags mode => do
    let masks ← (items value).mapM readMask
    let matchers := masks.map fun mask => ⟨mode, mask⟩
    return { f with extent.flags := f.extent.flags ++ matchers }
  | .size => do
    let spans ← (items value).mapM (readOffsetSpan s)
    return { f with sizes := f.sizes ++ spans }
  | .travel => do
    let spans ← (items value).mapM readScoreSpan
    return { f with travel := f.travel ++ spans }
  | .extents => do
    let spans ← (items value).mapM readCountSpan
    return { f with extentCounts := f.extentCounts ++ spans }
  | .atime => do
    let spans ← (items value).mapM (readTimeSpan zone)
    return { f with atimes := f.atimes ++ spans }
  | .crtime => do
    let spans ← (items value).mapM (readTimeSpan zone)
    return { f with crtimes := f.crtimes ++ spans }
  | .ctime => do
    let spans ← (items value).mapM (readTimeSpan zone)
    return { f with ctimes := f.ctimes ++ spans }
  | .mtime => do
    let spans ← (items value).mapM (readTimeSpan zone)
    return { f with mtimes := f.mtimes ++ spans }

/-- Adds one term. A missing value is reported before an unknown key. -/
def addTerm (zone : Zone) (s : Summary) (f : InodeFilter)
    (term : FilterTerm) : Except FilterError InodeFilter :=
  if term.value.isEmpty then .error (.missingValue term.key)
  else
    match FilterField.ofKey? term.key with
    | none => .error (.unknownKey term.key term.position)
    | some field => f.addValue zone s term.value field

/-- The inode filter that a text means, with the units of `s` and the days of
a time zone. -/
def read (zone : Zone) (s : Summary) (text : String) :
    Except FilterError InodeFilter := do
  let terms ← FilterTerm.read text
  terms.foldlM (addTerm zone s) {}

end InodeFilter

namespace ExtentFilter

/-- Adds one term that must make sense for extents. -/
def addTerm (zone : Zone) (s : Summary) (f : InodeFilter)
    (term : FilterTerm) : Except FilterError InodeFilter :=
  if (FilterField.ofKey? term.key).any (·.isInodesOnly) then
    .error (.inodesOnly term.key term.position)
  else f.addTerm zone s term

/-- The extent filter that a text means, with the units of `s` and the days
of a time zone. -/
def read (zone : Zone) (s : Summary) (text : String) :
    Except FilterError ExtentFilter := do
  let terms ← FilterTerm.read text
  let filter ← terms.foldlM (addTerm zone s) {}
  return filter.extent

end ExtentFilter

end DiskAtlas

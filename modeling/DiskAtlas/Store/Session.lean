/-
Filling a store. A scan begins by dropping everything the store holds and
saving the empty, unfinished tables; then rows are put in one by one, and
only at the end are the indexes built and the scan marked as finished. A
scan that is given up leaves what was put in, but no index over it.

Extents without a place on the device yet, empty ones and those that reach
past the largest offset are left out and counted. At the end the size of
the device is raised to hold every extent.
-/
import DiskAtlas.Store.Basic

namespace DiskAtlas

/-- A scan that is being put into a store. -/
structure Session (β : Type) where
  store : Store β
  /-- Extents that were left out. -/
  discarded : Nat := 0

-- =========================================================== beginning

namespace Store

variable {β : Type} [Backend β]

/-- The store without rows, about a file system whose scan has begun. -/
def cleared (s : Store β) (summary : Summary) : Store β :=
  let summary := { summary with path := s.fsPath, finished := false }
  { s with tables := { Tables.empty with summary := some summary }
           index := .empty, calculated := .empty }

/-- Begins a scan with given facts. If the empty tables cannot be saved,
the rows are dropped all the same. -/
def beginScanWith (s : Store β) (summary : Summary) :
    Except Error Unit × Store β :=
  match s.ensureWritable with
  | .error e => (.error e, s)
  | .ok () => (s.cleared summary).persist

/-- Begins a scan with the facts that the system tells about the store's
file system. -/
def beginScan (s : Store β) (facts : String → Except Error Summary) :
    Except Error Unit × Store β :=
  match s.ensureWritable with
  | .error e => (.error e, s)
  | .ok () =>
    match facts s.fsPath with
    | .error e => (.error e, s)
    | .ok summary => s.beginScanWith summary

end Store

namespace Session

variable {β : Type}

def summary (x : Session β) : Option Summary := x.store.tables.summary

def separator (x : Session β) : Char :=
  (x.summary.map (·.separator)).getD '/'

def withTables (x : Session β) (tables : Tables) : Session β :=
  { x with store := { x.store with tables } }

-- ========================================================== namespace

/-- Adds names to a directory; a name that is there already is given its
new meaning. -/
def insertDirectory (x : Session β) (parent : Int64)
    (names : List (String × Int64)) : Session β :=
  let t := x.store.tables
  let before := (t.directories.get? parent).getD .empty
  let after := before.insertMany names
  x.withTables { t with directories := t.directories.insert parent after }

/-- Why a path cannot name an inode. -/
def pathError? (separator : Char) (path : String) : Option PathError :=
  match path.toList with
  | [] => none
  | c :: rest =>
    if c = separator then
      if rest.isEmpty then some (.reserved path) else none
    else some (.notRooted path separator)

/-- Puts an inode in, or in place of one with its number, and lets a path
name it that is known to be a good one. -/
def putInode (x : Session β) (inode : Inode) (path : String) : Session β :=
  let t := x.store.tables
  x.withTables
    { t with inodes := t.inodes.insert inode.ino inode
             paths := t.paths.insert path inode.ino }

/-- Puts an inode in under a path, unless no inode can have that path. -/
def insertInode (x : Session β) (inode : Inode) (path : String) :
    Except Error Unit × Session β :=
  match pathError? x.separator path with
  | some e => (.error (.path e), x)
  | none => (.ok (), x.putInode inode path)

/-- Is there an inode with a number? -/
def containsInode (x : Session β) (ino : Int64) : Bool :=
  x.store.tables.inodes.contains ino

/-- Puts an inode in of which nothing but the kind is known, unless there
is one with its number. -/
def ensureInode (x : Session β) (ino : Int64) (kind : InodeKind)
    (path : String) : Session β :=
  if x.containsInode ino then x else x.putInode (.bare ino kind) path

def lookupPath (x : Session β) (path : String) : Option Int64 :=
  x.store.tables.paths.get? path

-- ============================================================= extents

/-- Does a stretch end within the largest offset? -/
def fits (length start : UInt64) : Bool := (checkedAdd start length).isSome

/-- Puts a row into the extent table, unless it is empty or reaches past
the largest offset; with whether it was put in. -/
def pushExtent (x : Session β) (e : Extent) : Bool × Session β :=
  if e.length != 0 && fits e.length e.physical
      && e.logical.all (fits e.length) then
    let t := x.store.tables
    (true, x.withTables { t with extents := t.extents.push e })
  else (false, { x with discarded := x.discarded + 1 })

/-- The row for a record of an inode. Attributes are a kind of their own,
and metadata and free space have no place in a file. -/
def extentOf (inode : Inode) (raw : RawExtent) (isXattr : Bool) : Extent :=
  let kind := if isXattr then .xattr else inode.kind.primary
  let logical :=
    match kind with
    | .metadata | .freeSpace => none
    | _ => some raw.logical
  ⟨inode.ino, raw.physical, logical, raw.length,
    raw.flags.without .last, kind⟩

/-- Puts a record of an inode in, unless it has no place on the device
yet; with whether it was put in. -/
def insertExtent (x : Session β) (inode : Inode) (raw : RawExtent)
    (isXattr : Bool) : Bool × Session β :=
  if raw.flags.intersects .uncommitted then
    (false, { x with discarded := x.discarded + 1 })
  else x.pushExtent (extentOf inode raw isXattr)

def extentCount (x : Session β) : Nat := x.store.tables.extents.size

def inodeCount (x : Session β) : Nat := x.store.tables.inodes.size

-- ================================================================= end

/-- The last byte that an extent holds. -/
def maxEnd (extents : Array Extent) : Option UInt64 :=
  (extents.toList.map (·.physicalEnd)).max?

/-- The facts with a device that holds all extents. -/
def raiseTotal (summary : Summary) (extents : Array Extent) : Summary :=
  match maxEnd extents with
  | none => summary
  | some last =>
    if summary.totalBytes ≤ last then
      { summary with totalBytes := satAdd last 1 }
    else summary

/-- The store with a finished scan and its indexes. -/
def finishedStore (x : Session β) (summary : Summary) : Store β :=
  let t := x.store.tables
  let summary := { raiseTotal summary t.extents with finished := true }
  let tables := { t with summary := some summary }
  { x.store with tables, index := .build tables }

variable [Backend β]

/-- Saves what was put in so far; the scan stays unfinished. -/
def checkpoint (x : Session β) : Except Error Unit × Session β :=
  let (result, store) := x.store.persist
  (result, { x with store })

/-- Ends the scan: builds the indexes, marks the scan as finished and
saves. If the save fails, the scan stays finished in memory. -/
def finish (x : Session β) : Except Error SummaryReport × Store β :=
  match x.summary with
  | none => (.error .noScan, x.store)
  | some summary =>
    match (x.finishedStore summary).persist with
    | (.error e, store) => (.error e, store)
    | (.ok (), store) => (store.report, store)

end Session

end DiskAtlas

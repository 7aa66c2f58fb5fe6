/-
A store: the tables, the indexes over them, what was computed from them,
and the backend they are saved to. Computed values are added while queries
run, so every query answers with the store after it; `dirty` says that
something was computed or dropped since the last save. A store that can be
written saves itself when it is closed, one for reading never does.
-/
import DiskAtlas.Store.Backend
import DiskAtlas.Store.Index

namespace DiskAtlas

/-- A store on a backend. -/
structure Store (β : Type) where
  backend : β
  /-- The file system that the store is about. -/
  fsPath : String
  tables : Tables
  index : StoreIndex
  calculated : Calculated
  dirty : Bool

/-- A finished scan in numbers. -/
structure SummaryReport where
  summary : Summary
  extents : Nat
  inodesWithExtents : Nat
  deriving Repr, DecidableEq

namespace Store

variable {β : Type}

-- =============================================================== state

/-- Is there no finished scan of the store's own file system? -/
def isStale (s : Store β) : Bool :=
  match s.tables.summary with
  | none => true
  | some summary => !summary.finished || summary.path != s.fsPath

/-- The facts of a finished scan, or why there are none. -/
def ensureReady (s : Store β) : Except Error Summary :=
  match s.tables.summary with
  | none => .error .noScan
  | some summary =>
    if summary.finished then .ok summary else .error .unfinishedScan

def report (s : Store β) : Except Error SummaryReport := do
  let summary ← s.ensureReady
  return ⟨summary, s.tables.extents.size, s.index.stretch.size⟩

-- ================================================================ rows

def inode (s : Store β) (ino : Int64) : Option Inode :=
  s.tables.inodes.get? ino

def inodes (s : Store β) : List Inode := s.tables.inodes.values

def lookupPath (s : Store β) (path : String) : Option Int64 :=
  s.tables.paths.get? path

/-- The paths of an inode, in ascending order. -/
def pathsOf (s : Store β) (ino : Int64) : List String := s.index.pathsOf ino

/-- The names in a directory and the inodes they stand for. -/
def listDirectory (s : Store β) (ino : Int64) : List (String × Int64) :=
  ((s.tables.directories.get? ino).map (·.entries)).getD []

def extentsAt (s : Store β) (ids : List Nat) : List Extent :=
  ids.filterMap fun id => s.tables.extents[id]?

/-- The extents of an inode, in the order of answers. -/
def extentsOf (s : Store β) (ino : Int64) : List Extent :=
  s.extentsAt (s.index.extentsOf ino)

variable [Backend β]

-- ============================================================= opening

/-- Opens a store on what its backend holds. -/
def opened (backend : β) (fsPath : String) : Except Error (Store β) := do
  let state := (← Backend.load backend).getD default
  return { backend, fsPath, tables := state.tables,
           index := .build state.tables, calculated := state.calculated,
           dirty := false }

def isWritable (s : Store β) : Bool := Backend.isWritable s.backend

/-- The refusal of a store that cannot be written. -/
def ensureWritable (s : Store β) : Except Error Unit :=
  if s.isWritable then .ok ()
  else .error (.notWritable (Backend.location s.backend))

-- ============================================================== saving

/-- Saves tables and computed values. Nothing is left to save unless it
fails. -/
def persist (s : Store β) : Except Error Unit × Store β :=
  match Backend.save ⟨s.tables, s.calculated⟩ s.backend with
  | (.ok (), backend) => (.ok (), { s with backend, dirty := false })
  | (.error e, backend) => (.error e, { s with backend })

/-- Saves if there is something to save and it can be. -/
def flush (s : Store β) : Except Error Unit × Store β :=
  if s.dirty && s.isWritable then s.persist else (.ok (), s)

/-- Closes the store and gives its backend back. Closing saves what was
computed; if that fails, it is lost. -/
def close (s : Store β) : β := s.flush.2.backend

/-- Drops computed values of a store that can be written, and saves. -/
def dropCalculated (s : Store β) (keep : Calculated → Calculated) :
    Except Error Unit × Store β :=
  match s.ensureWritable with
  | .error e => (.error e, s)
  | .ok () =>
    { s with calculated := keep s.calculated, dirty := true }.flush

def clearCalculated (s : Store β) : Except Error Unit × Store β :=
  s.dropCalculated fun _ => .empty

def clearOverviews (s : Store β) : Except Error Unit × Store β :=
  s.dropCalculated fun c => { c with overviews := .empty }

end Store

end DiskAtlas

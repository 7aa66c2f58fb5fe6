/-
The layout of a snapshot: the fields of every record in the order in which
they are written. The time of the save comes first and is passed over when
a snapshot is read.
-/
import DiskAtlas.Snapshot.Codec
import DiskAtlas.Store.Tables

namespace DiskAtlas.Snapshot

open Overview

namespace Codec

-- ============================================================== records

def summary : Codec Summary where
  write s :=
    text.write s.path
      ++ word.write s.blockSize ++ word.write s.fragSize
      ++ word.write s.totalBytes ++ word.write s.freeBytes
      ++ word.write s.availBytes
      ++ word.write s.totalInodes ++ word.write s.freeInodes
      ++ word.write s.availInodes
      ++ word.write s.maxNameLength
      ++ signed.write s.timestamp
      ++ bool.write s.finished
      ++ char.write s.separator
      ++ text.write s.fsType
  read := do
    let path ← text.read
    let blockSize ← word.read
    let fragSize ← word.read
    let totalBytes ← word.read
    let freeBytes ← word.read
    let availBytes ← word.read
    let totalInodes ← word.read
    let freeInodes ← word.read
    let availInodes ← word.read
    let maxNameLength ← word.read
    let timestamp ← signed.read
    let finished ← bool.read
    let separator ← char.read
    let fsType ← text.read
    return { path, blockSize, fragSize, totalBytes, freeBytes, availBytes,
             totalInodes, freeInodes, availInodes, maxNameLength, timestamp,
             finished, separator, fsType }

def times : Codec InodeTimes where
  write t :=
    (option signed).write t.atime ++ (option signed).write t.crtime
      ++ (option signed).write t.ctime ++ (option signed).write t.mtime
  read := do
    let atime ← (option signed).read
    let crtime ← (option signed).read
    let ctime ← (option signed).read
    let mtime ← (option signed).read
    return { atime, crtime, ctime, mtime }

def inodeKind : Codec InodeKind := choice InodeKind.index InodeKind.ofIndex?

def extentKind : Codec ExtentKind :=
  choice ExtentKind.index ExtentKind.ofIndex?

def inode : Codec Inode where
  write i :=
    signed.write i.ino ++ inodeKind.write i.kind
      ++ (option word).write i.size ++ times.write i.times
  read := do
    let ino ← signed.read
    let kind ← inodeKind.read
    let size ← (option word).read
    let times ← times.read
    return { ino, kind, size, times }

def extent : Codec Extent where
  write e :=
    signed.write e.ino ++ word.write e.physical
      ++ (option word).write e.logical ++ word.write e.length
      ++ half.write e.flags.bits ++ extentKind.write e.kind
  read := do
    let ino ← signed.read
    let physical ← word.read
    let logical ← (option word).read
    let length ← word.read
    let bits ← half.read
    let kind ← extentKind.read
    return { ino, physical, logical, length, flags := ⟨bits⟩, kind }

def stats : Codec InodeStats where
  write s := word.write s.extents ++ floatBits.write s.travelBits
  read := return ⟨← word.read, ← floatBits.read⟩

def cell : Codec Cell where
  write c := (vector 7 word).write c.counts
  read := return ⟨← (vector 7 word).read⟩

-- =============================================================== tables

def tables : Codec Tables where
  write t :=
    (option summary).write t.summary
      ++ (map signed inode).write t.inodes
      ++ (map text signed).write t.paths
      ++ (map signed (map text signed)).write t.directories
      ++ (array extent).write t.extents
  read := do
    let summary ← (option summary).read
    let inodes ← (map signed inode).read
    let paths ← (map text signed).read
    let directories ← (map signed (map text signed)).read
    let extents ← (array extent).read
    return { summary, inodes, paths, directories, extents }

def calculated : Codec Calculated where
  write c :=
    (map signed stats).write c.inodeStats
      ++ (map word (array cell)).write c.overviews
  read := return ⟨← (map signed stats).read, ← (map word (array cell)).read⟩

end Codec

/-- A state with the time of its save. -/
def encode (savedAt : Int64) (state : Persisted) : List UInt8 :=
  Codec.signed.write savedAt ++ Codec.tables.write state.tables
    ++ Codec.calculated.write state.calculated

/-- The state that some bytes begin with. -/
def readState : Reader Persisted := do
  let _ ← Codec.signed.read
  let tables ← Codec.tables.read
  let calculated ← Codec.calculated.read
  return { tables, calculated }

/-- The state of a snapshot. What follows it is passed over. -/
def decode (bytes : List UInt8) : Option Persisted :=
  (readState.run bytes).map (·.1)

end DiskAtlas.Snapshot

/-
The facts about a file system that a scan writes down when it starts, and
what follows from them.
-/
import DiskAtlas.Word
import DiskAtlas.Calendar

namespace DiskAtlas

/-- Facts about one file system. A scan that has not ended, or never
ended, is not `finished`. -/
structure Summary where
  path : String
  blockSize : UInt64
  fragSize : UInt64
  totalBytes : UInt64
  freeBytes : UInt64
  availBytes : UInt64
  totalInodes : UInt64
  freeInodes : UInt64
  availInodes : UInt64
  maxNameLength : UInt64
  /-- When the scan started, in seconds from 1970. -/
  timestamp : Int64
  finished : Bool
  separator : Char
  fsType : String
  deriving Repr, DecidableEq

namespace Summary

/-- A file system of which nothing is known. -/
def blank (path : String) : Summary :=
  { path, blockSize := 0, fragSize := 0, totalBytes := 0, freeBytes := 0,
    availBytes := 0, totalInodes := 0, freeInodes := 0, availInodes := 0,
    maxNameLength := 0, timestamp := 0, finished := false, separator := '/',
    fsType := "" }

/-- Bytes in use; a file system may report more free bytes than it has. -/
def usedBytes (s : Summary) : UInt64 := satSub s.totalBytes s.freeBytes

def usedInodes (s : Summary) : UInt64 := satSub s.totalInodes s.freeInodes

/-- The start of the scan as date and time of day. -/
def scannedAt (s : Summary) : Option String :=
  Calendar.instantText s.timestamp.toInt

end Summary

-- ================================================ file system types

/-- The file systems that are known by the number they report. -/
def fsTypes : List (UInt64 × String) := [
  (0xEF53, "ext2/ext3/ext4"), (0x58465342, "xfs"), (0x9123683E, "btrfs"),
  (0x4d44, "vfat"), (0x2011BAB0, "exfat"), (0x5346544E, "ntfs"),
  (0x01021994, "tmpfs"), (0x794C7630, "overlayfs"), (0xF2F52010, "f2fs"),
  (0x2FC12FC1, "zfs"), (0x6969, "nfs"), (0x3153464A, "jfs"),
  (0x52654973, "reiserfs"), (0x9FA0, "proc")]

/-- The name of the type with a number. -/
def fsTypeLabel (magic : UInt64) : String :=
  (fsTypes.lookup magic).getD "unknown"

end DiskAtlas

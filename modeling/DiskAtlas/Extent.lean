/-
Extents: stretches of the device that hold a stretch of an inode. A
`RawExtent` is what a mapping interface reports of a file; an `Extent` is
the row kept for it, with the inode that owns it and what it is used for.
-/
import DiskAtlas.Word
import DiskAtlas.Flags
import DiskAtlas.Kind

namespace DiskAtlas

/-- One extent as an interface reports it, in bytes. -/
structure RawExtent where
  logical : UInt64
  physical : UInt64
  length : UInt64
  flags : Flags
  deriving Repr, DecidableEq, Inhabited

namespace RawExtent

def physicalEnd (e : RawExtent) : UInt64 := e.physical + satSub e.length 1

/-- The offset in the file where the next extent would continue. -/
def nextLogical (e : RawExtent) : UInt64 := satAdd e.logical e.length

/-- The extent with the flag `last` taken away. -/
def clearLast (e : RawExtent) : RawExtent :=
  { e with flags := e.flags.without .last }

/-- Is this the final extent of its file? -/
def isLast (e : RawExtent) : Bool := e.flags.containsAll .last

end RawExtent

-- ======================================================= stored extents

/-- A row of the extent table. Metadata and free space have no offset
within their owner. -/
structure Extent where
  ino : Int64
  physical : UInt64
  logical : Option UInt64
  length : UInt64
  flags : Flags
  kind : ExtentKind
  deriving Repr, DecidableEq, Inhabited

namespace Extent

/-- The last byte of a stretch of `length` bytes from `start` on. Nothing
wraps: a stretch past the largest offset ends there. -/
def lastByte (start length : UInt64) : UInt64 :=
  satSub (satAdd start length) 1

def physicalEnd (e : Extent) : UInt64 := lastByte e.physical e.length

def logicalEnd (e : Extent) : Option UInt64 :=
  e.logical.map (lastByte · e.length)

end Extent

end DiskAtlas

/-
The request for the extents of a file, as the kernel takes and answers it:
a header of 32 bytes and behind it room for a number of extents of 56
bytes each. The kernel writes the extents it found into the same bytes and
their count into the header; the count is not trusted beyond the room
there is.
-/
import DiskAtlas.Word.Bytes
import DiskAtlas.Extent
import DiskAtlas.Error

namespace DiskAtlas.Mapping

/-- The stretch of a file that is asked for. -/
structure FileRequest where
  start : UInt64
  length : UInt64
  flags : UInt32
  deriving Repr, DecidableEq

namespace FileRequest

/-- Request flag: write the file out before it is mapped. -/
def syncFlag : UInt32 := 0x1

/-- Request flag: map the extended attributes. -/
def xattrFlag : UInt32 := 0x2

/-- The bytes of a request without its extents. -/
def headerSize : Nat := 32

def extentSize : Nat := 56

end FileRequest

open FileRequest Bytes

/-- A request with room for `capacity` extents. -/
structure FileBuffer (capacity : Nat) where
  bytes : Vector UInt8 (headerSize + extentSize * capacity)
  deriving Repr, DecidableEq

namespace FileBuffer

variable {capacity : Nat}

/-- Where the extent in a slot begins. -/
def slotOffset (slot : Nat) : Nat := headerSize + extentSize * slot

/-- A field of an extent lies inside the buffer. -/
theorem field_le (slot : Fin capacity) {field width : Nat}
    (h : field + width ≤ extentSize) :
    slotOffset slot + field + width
      ≤ headerSize + extentSize * capacity := by
  have := slot.isLt
  simp only [slotOffset, headerSize, extentSize] at *
  omega

def blank (capacity : Nat) : FileBuffer capacity :=
  ⟨Vector.replicate _ 0⟩

/-- A fresh request: everything is zero but the request and the room for
the answer. -/
def prepare (capacity : Nat) (r : FileRequest) : FileBuffer capacity :=
  let bytes := (blank capacity).bytes
  let bytes := putU64 bytes 0 r.start (by simp [headerSize]; omega)
  let bytes := putU64 bytes 8 r.length (by simp [headerSize]; omega)
  let bytes := putU32 bytes 16 r.flags (by simp [headerSize]; omega)
  ⟨putU32 bytes 24 (UInt32.ofNat capacity) (by simp [headerSize]; omega)⟩

def request (b : FileBuffer capacity) : FileRequest where
  start := getU64 b.bytes 0 (by simp [headerSize]; omega)
  length := getU64 b.bytes 8 (by simp [headerSize]; omega)
  flags := getU32 b.bytes 16 (by simp [headerSize]; omega)

/-- The number of extents that the answer claims to hold. -/
def claimed (b : FileBuffer capacity) : UInt32 :=
  getU32 b.bytes 20 (by simp [headerSize]; omega)

def setClaimed (b : FileBuffer capacity) (count : UInt32) :
    FileBuffer capacity :=
  ⟨putU32 b.bytes 20 count (by simp [headerSize]; omega)⟩

def extent (b : FileBuffer capacity) (slot : Fin capacity) : RawExtent where
  logical := getU64 b.bytes (slotOffset slot + 0) (field_le slot (by decide))
  physical := getU64 b.bytes (slotOffset slot + 8) (field_le slot (by decide))
  length := getU64 b.bytes (slotOffset slot + 16) (field_le slot (by decide))
  flags :=
    ⟨getU32 b.bytes (slotOffset slot + 40) (field_le slot (by decide))⟩

def setExtent (b : FileBuffer capacity) (slot : Fin capacity)
    (e : RawExtent) : FileBuffer capacity :=
  let at64 (field : Nat) (h : field + 8 ≤ extentSize) bytes value :=
    putU64 bytes (slotOffset slot + field) value (field_le slot h)
  let bytes := at64 0 (by decide) b.bytes e.logical
  let bytes := at64 8 (by decide) bytes e.physical
  let bytes := at64 16 (by decide) bytes e.length
  ⟨putU32 bytes (slotOffset slot + 40) e.flags.bits
    (field_le slot (by decide))⟩

/-- Writes one byte; outside the buffer nothing is written. -/
def setByte (b : FileBuffer capacity) (offset : Nat) (value : UInt8) :
    FileBuffer capacity :=
  ⟨b.bytes.setIfInBounds offset value⟩

def extents (b : FileBuffer capacity) : List RawExtent :=
  List.ofFn fun slot => b.extent slot

/-- The extents of the answer: as many as it claims, and no more than
there is room for. -/
def answered (b : FileBuffer capacity) : List RawExtent :=
  b.extents.take b.claimed.toNat

/-- Writes extents into the slots from `slot` on, as many as fit. -/
def fill (b : FileBuffer capacity) (slot : Nat) :
    List RawExtent → FileBuffer capacity
  | [] => b
  | e :: rest =>
    if h : slot < capacity then (b.setExtent ⟨slot, h⟩ e).fill (slot + 1) rest
    else b

end FileBuffer

end DiskAtlas.Mapping

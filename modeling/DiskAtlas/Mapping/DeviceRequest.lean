/-
The request for the owners of a device, as the kernel takes and answers
it: a head of 192 bytes with two keys in it, and behind it room for a
number of records of 64 bytes each. A key is a record; the answer begins
behind the low key.
-/
import DiskAtlas.Word.Bytes
import DiskAtlas.Mapping.DeviceRecord

namespace DiskAtlas.Mapping

open Bytes

namespace DeviceRequest

def recordSize : Nat := 64

/-- The bytes of a request without its records. -/
def headSize : Nat := 64 + 2 * recordSize

/-- Answer flag: the devices of the records are encoded device numbers. -/
def encodedDevices : UInt32 := 0x1

def keysOffset : Nat := 64

end DeviceRequest

open DeviceRequest

-- ========================================================= one record

/-- The record that begins at an offset. -/
def getRecord {n : Nat} (bytes : Vector UInt8 n) (offset : Nat)
    (h : offset + recordSize ≤ n) : DeviceRecord :=
  have h : offset + 64 ≤ n := h
  { device := getU32 bytes (offset + 0) (by omega)
    flags := ⟨getU32 bytes (offset + 4) (by omega)⟩
    physical := getU64 bytes (offset + 8) (by omega)
    ownerWord := getU64 bytes (offset + 16) (by omega)
    offset := getU64 bytes (offset + 24) (by omega)
    length := getU64 bytes (offset + 32) (by omega) }

/-- Writes the record that begins at an offset. -/
def putRecord {n : Nat} (bytes : Vector UInt8 n) (offset : Nat)
    (r : DeviceRecord) (h : offset + recordSize ≤ n) : Vector UInt8 n :=
  have h : offset + 64 ≤ n := h
  let bytes := putU32 bytes (offset + 0) r.device (by omega)
  let bytes := putU32 bytes (offset + 4) r.flags.bits (by omega)
  let bytes := putU64 bytes (offset + 8) r.physical (by omega)
  let bytes := putU64 bytes (offset + 16) r.ownerWord (by omega)
  let bytes := putU64 bytes (offset + 24) r.offset (by omega)
  putU64 bytes (offset + 32) r.length (by omega)

-- ============================================================= buffer

/-- A request with room for `capacity` records. -/
structure DeviceBuffer (capacity : Nat) where
  bytes : Vector UInt8 (headSize + recordSize * capacity)
  deriving Repr, DecidableEq

namespace DeviceBuffer

variable {capacity : Nat}

/-- Where the record in a slot begins. -/
def slotOffset (slot : Nat) : Nat := headSize + recordSize * slot

theorem slot_le (slot : Fin capacity) :
    slotOffset slot + recordSize ≤ headSize + recordSize * capacity := by
  have := slot.isLt
  simp only [slotOffset, headSize, recordSize] at *
  omega

/-- A field of the head lies inside the buffer. -/
theorem head_le {offset width : Nat} (h : offset + width ≤ headSize) :
    offset + width ≤ headSize + recordSize * capacity :=
  Nat.le_trans h (Nat.le_add_right _ _)

def blank (capacity : Nat) : DeviceBuffer capacity :=
  ⟨Vector.replicate _ 0⟩

/-- A fresh request for what lies between two keys. -/
def prepare (capacity : Nat) (low high : DeviceRecord) :
    DeviceBuffer capacity :=
  let bytes := (blank capacity).bytes
  let bytes := putU32 bytes 8 (UInt32.ofNat capacity) (head_le (by decide))
  let bytes := putRecord bytes keysOffset low (head_le (by decide))
  ⟨putRecord bytes (keysOffset + recordSize) high (head_le (by decide))⟩

/-- The key behind which the answer begins. -/
def lowKey (b : DeviceBuffer capacity) : DeviceRecord :=
  getRecord b.bytes keysOffset (head_le (by decide))

def answerFlags (b : DeviceBuffer capacity) : UInt32 :=
  getU32 b.bytes 4 (head_le (by decide))

def setAnswerFlags (b : DeviceBuffer capacity) (flags : UInt32) :
    DeviceBuffer capacity :=
  ⟨putU32 b.bytes 4 flags (head_le (by decide))⟩

/-- The number of records that the answer claims to hold. -/
def claimed (b : DeviceBuffer capacity) : UInt32 :=
  getU32 b.bytes 12 (head_le (by decide))

def setClaimed (b : DeviceBuffer capacity) (count : UInt32) :
    DeviceBuffer capacity :=
  ⟨putU32 b.bytes 12 count (head_le (by decide))⟩

def record (b : DeviceBuffer capacity) (slot : Fin capacity) :
    DeviceRecord :=
  getRecord b.bytes (slotOffset slot) (slot_le slot)

def setRecord (b : DeviceBuffer capacity) (slot : Fin capacity)
    (r : DeviceRecord) : DeviceBuffer capacity :=
  ⟨putRecord b.bytes (slotOffset slot) r (slot_le slot)⟩

/-- Writes one byte; outside the buffer nothing is written. -/
def setByte (b : DeviceBuffer capacity) (offset : Nat) (value : UInt8) :
    DeviceBuffer capacity :=
  ⟨b.bytes.setIfInBounds offset value⟩

def records (b : DeviceBuffer capacity) : List DeviceRecord :=
  List.ofFn fun slot => b.record slot

/-- The records of the answer: as many as it claims, and no more than
there is room for. -/
def answered (b : DeviceBuffer capacity) : List DeviceRecord :=
  b.records.take b.claimed.toNat

/-- Does the answer say that its devices are encoded device numbers? -/
def hasEncodedDevices (b : DeviceBuffer capacity) : Bool :=
  b.answerFlags &&& encodedDevices != 0

/-- Writes records into the slots from `slot` on, as many as fit. -/
def fill (b : DeviceBuffer capacity) (slot : Nat) :
    List DeviceRecord → DeviceBuffer capacity
  | [] => b
  | r :: rest =>
    if h : slot < capacity then (b.setRecord ⟨slot, h⟩ r).fill (slot + 1) rest
    else b

end DeviceBuffer

end DiskAtlas.Mapping

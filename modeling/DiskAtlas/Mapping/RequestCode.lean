/-
The numbers of the kernel requests. A number packs the direction in which
data moves, the size of what is moved, a letter for the family of the
request and a number within the family.
-/
import DiskAtlas.Mapping.FileRequest
import DiskAtlas.Mapping.DeviceRequest

namespace DiskAtlas.Mapping.RequestCode

/-- Directions in which a request moves data. -/
inductive Direction where
  | none
  | both
  deriving Repr, DecidableEq

def Direction.bits : Direction → Nat
  | .none => 0
  | .both => 3

/-- Packs a request number. -/
def pack (direction : Direction) (family number size : Nat) : Nat :=
  direction.bits <<< 30 + size <<< 16 + family <<< 8 + number

/-- Look up one block of a file. -/
def lookupBlock : Nat := pack .none 0 1 0

/-- Tell the block size of a file. -/
def blockSize : Nat := pack .none 0 2 0

def mapFile : Nat := pack .both 'f'.toNat 11 FileRequest.headerSize

def mapDevice : Nat := pack .both 'X'.toNat 59 DeviceRequest.headSize

def mapFileName : String := "FIEMAP"

/-- The look-up of a block in messages. -/
def lookupBlockName : String := "FIBMAP"

def blockSizeName : String := "FIGETBSZ"

/-- The map of a device in messages. -/
def mapDeviceName : String := "GETFSMAP"

end DiskAtlas.Mapping.RequestCode

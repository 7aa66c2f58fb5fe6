/-
Who owns a stretch of the device. A record names a device, a place on it
and an owner: an inode, or one of the purposes that a file system has for
blocks of its own. Such a special owner is a tag for the file system and a
code below it; the known ones have names, the others are written with
their tag and code.
-/
import DiskAtlas.Word

namespace DiskAtlas.Mapping

-- ====================================================== special owners

/-- An owner that is no inode. -/
structure SpecialOwner where
  tag : UInt32
  code : UInt32
  deriving Repr, DecidableEq, Inhabited

namespace SpecialOwner

/-- Blocks that nothing uses. -/
def free : SpecialOwner := ⟨0, 1⟩

/-- Blocks of the file system itself. -/
def metadata : SpecialOwner := ⟨0, 3⟩

/-- The owner written as one word: tag above, code below. -/
def ofRaw (raw : UInt64) : SpecialOwner :=
  ⟨UInt32.ofNat (raw.toNat / UInt32.size), UInt32.ofNat raw.toNat⟩

/-- The word for an owner. -/
def raw (o : SpecialOwner) : UInt64 :=
  UInt64.ofNat (o.tag.toNat * UInt32.size + o.code.toNat)

theorem ofRaw_raw (o : SpecialOwner) : ofRaw o.raw = o := by
  have ht := o.tag.toNat_lt
  have hc := o.code.toNat_lt
  have hr : o.raw.toNat = o.tag.toNat * 0x100000000 + o.code.toNat := by
    simp only [raw, UInt32.size, UInt64.toNat_ofNat']
    omega
  have h₁ : UInt32.ofNat (o.raw.toNat / UInt32.size) = o.tag := by
    rw [← UInt32.toNat_inj, hr, UInt32.toNat_ofNat', UInt32.size]
    omega
  have h₂ : UInt32.ofNat o.raw.toNat = o.code := by
    rw [← UInt32.toNat_inj, hr, UInt32.toNat_ofNat']
    omega
  simp only [ofRaw, h₁, h₂]

/-- The owners that have a name of their own, by tag and code. -/
def names : List ((Nat × Nat) × String) :=
  let xfs := 'X'.toNat
  let ext4 := 'f'.toNat
  [((0, 1), "freespace"), ((0, 2), "unknown"), ((0, 3), "metadata"),
    ((xfs, 1), "XFS:fs"), ((xfs, 2), "XFS:log"), ((xfs, 3), "XFS:ag"),
    ((xfs, 4), "XFS:inobt"), ((xfs, 5), "XFS:inodes"),
    ((xfs, 6), "XFS:refcount"), ((xfs, 7), "XFS:cow"),
    ((xfs, 8), "XFS:defective"), ((ext4, 1), "ext4:gdt"),
    ((ext4, 2), "ext4:resv_gdt"), ((ext4, 3), "ext4:block_bitmap"),
    ((ext4, 4), "ext4:inode_bitmap")]

/-- A tag: its character if it is a visible one of ASCII, else its
number. -/
def tagText (tag : UInt32) : String :=
  if 0x21 ≤ tag.toNat ∧ tag.toNat ≤ 0x7e then
    (Char.ofNat tag.toNat).toString
  else toString tag.toNat

/-- The name of an owner. -/
def name (o : SpecialOwner) : String :=
  match names.lookup (o.tag.toNat, o.code.toNat) with
  | some name => name
  | none => tagText o.tag ++ ":" ++ toString o.code.toNat

end SpecialOwner

-- ============================================================= records

/-- Flags of a device record. -/
structure DeviceFlags where
  bits : UInt32
  deriving Repr, DecidableEq, Inhabited

namespace DeviceFlags

/-- The extent is allocated but was never written. -/
def prealloc : DeviceFlags := ⟨0x01⟩

/-- The extent holds attributes of its inode. -/
def attrFork : DeviceFlags := ⟨0x02⟩

/-- The extent holds the map of its inode's extents. -/
def extentMap : DeviceFlags := ⟨0x04⟩

/-- The extent has several owners. -/
def shared : DeviceFlags := ⟨0x08⟩

/-- The owner is not an inode. -/
def specialOwner : DeviceFlags := ⟨0x10⟩

/-- The final record of the device. -/
def last : DeviceFlags := ⟨0x20⟩

/-- Is every bit of `g` set in `f`? -/
def containsAll (f g : DeviceFlags) : Bool := f.bits &&& g.bits == g.bits

end DeviceFlags

/-- Who owns a record. -/
inductive DeviceOwner where
  | inode (number : UInt64)
  | special (owner : SpecialOwner)
  deriving Repr, DecidableEq

/-- One stretch of the device and its owner. -/
structure DeviceRecord where
  device : UInt32
  flags : DeviceFlags
  physical : UInt64
  ownerWord : UInt64
  offset : UInt64
  length : UInt64
  deriving Repr, DecidableEq, Inhabited

namespace DeviceRecord

/-- The key before every record. -/
def lowest : DeviceRecord := ⟨0, ⟨0⟩, 0, 0, 0, 0⟩

/-- The key behind every record. -/
def highest : DeviceRecord :=
  ⟨0xFFFFFFFF, ⟨0xFFFFFFFF⟩, maxWord, maxWord, maxWord, 0⟩

/-- The owner of a record. -/
def owner (r : DeviceRecord) : DeviceOwner :=
  if r.flags.containsAll .specialOwner then .special (.ofRaw r.ownerWord)
  else .inode r.ownerWord

/-- Is this the final record? -/
def isLast (r : DeviceRecord) : Bool := r.flags.containsAll .last

end DeviceRecord

/-- The bits of a word under `mask` after it was moved down. -/
def bitsOf (word shift mask : UInt64) : UInt64 := (word >>> shift) &&& mask

/-- A device number in the form in which records carry it: eight low bits
of the minor number, twelve bits of the major number, and the rest of the
minor number above them. -/
def encodeDevice (device : UInt64) : UInt32 :=
  let major := bitsOf device 32 0xFFFFF000 ||| bitsOf device 8 0xFFF
  let minor := bitsOf device 12 0xFFFFFF00 ||| bitsOf device 0 0xFF
  let low := bitsOf minor 0 0xFF
  let high := bitsOf minor 0 0xFFFFFFFFFFFFFF00
  (low ||| (major <<< 8) ||| (high <<< 12)).toUInt32

end DiskAtlas.Mapping

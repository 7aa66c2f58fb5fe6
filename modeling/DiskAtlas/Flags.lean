/-
Flag words of extents. Eleven bits have names; the other bits are kept as
they come, because what the kernel reports is stored unchanged. A filter
compares a flag word with a mask in one of three ways.
-/
import DiskAtlas.Text.Blank

namespace DiskAtlas

open Text

/-- The flags of one extent. -/
structure Flags where
  bits : UInt32
  deriving Repr, DecidableEq, Inhabited

namespace Flags

/-- The final extent of a file. -/
def last : Flags := ⟨0x1⟩

/-- The place on the device is not known. -/
def unknown : Flags := ⟨0x2⟩

/-- No place was allocated yet. -/
def delalloc : Flags := ⟨0x4⟩

/-- Allocated but never written. -/
def unwritten : Flags := ⟨0x800⟩

/-- Joined from several neighbours. -/
def merged : Flags := ⟨0x1000⟩

/-- The place on the device is used by more than one file. -/
def shared : Flags := ⟨0x2000⟩

/-- The flags that have a name, lowest bit first. -/
def named : List (String × Flags) := [
  ("LAST", last), ("UNKNOWN", unknown), ("DELALLOC", delalloc),
  ("ENCODED", ⟨0x8⟩), ("DATA_ENCRYPTED", ⟨0x80⟩),
  ("NOT_ALIGNED", ⟨0x100⟩), ("DATA_INLINE", ⟨0x200⟩),
  ("DATA_TAIL", ⟨0x400⟩), ("UNWRITTEN", unwritten), ("MERGED", merged),
  ("SHARED", shared)]

/-- No flag. -/
def empty : Flags := ⟨0⟩

/-- The flags of either word. -/
def union (f g : Flags) : Flags := ⟨f.bits ||| g.bits⟩

/-- The flags of `f` that are not in `g`. -/
def without (f g : Flags) : Flags := ⟨f.bits &&& ~~~ g.bits⟩

/-- Do the words share a bit? -/
def intersects (f g : Flags) : Bool := f.bits &&& g.bits != 0

/-- Is every bit of `g` set in `f`? -/
def containsAll (f g : Flags) : Bool := f.bits &&& g.bits == g.bits

/-- The bits that have a name. -/
def allNamed : Flags := named.foldl (fun f entry => f.union entry.2) empty

/-- The named bits of a word; the others are dropped. -/
def ofBitsNamed (bits : UInt32) : Flags := ⟨bits &&& allNamed.bits⟩

/-- The flags that say the extent has no place on the device yet. -/
def uncommitted : Flags := unknown.union delalloc

/-- The flag with a name, in any case and with `-` for `_`. -/
def lookup (text : String) : Option Flags :=
  let wanted := (asciiUpper (trimString text)).map
    fun c => if c = '-' then '_' else c
  (named.find? fun entry => entry.1 == wanted).map (·.2)

end Flags

-- ======================================================== comparisons

/-- How a flag word is compared with a mask. -/
inductive FlagMode where
  /-- The word equals the mask. -/
  | exact
  /-- The word has a bit of the mask. -/
  | any
  /-- The word has every bit of the mask. -/
  | all
  deriving Repr, DecidableEq

/-- A condition on flag words. -/
structure FlagMatch where
  mode : FlagMode
  mask : Flags
  deriving Repr, DecidableEq

/-- Does a flag word satisfy the condition? -/
def FlagMatch.accepts (m : FlagMatch) (flags : Flags) : Bool :=
  match m.mode with
  | .exact => flags == m.mask
  | .any => flags.intersects m.mask
  | .all => flags.containsAll m.mask

end DiskAtlas

/-
Owners of the device that no path of the file system leads to: metadata,
free space, and files whose last name was removed while they were open.
They get a place of their own below a directory `$metadata`, under inode
numbers that no file system uses. The common ones have fixed numbers; the
others are numbered downwards in the order in which they are met.
-/
import DiskAtlas.Kind
import DiskAtlas.Mapping.DeviceRecord

namespace DiskAtlas.Scan

open Mapping

/-- An owner outside the file system's namespace. -/
inductive HiddenOwner where
  /-- The directory that the others are in. -/
  | root
  | metadata
  | freeSpace
  /-- The directory of files without a name. -/
  | unlinked
  | special (owner : SpecialOwner)
  deriving Repr, DecidableEq

namespace HiddenOwner

/-- The owner that a device record names. -/
def ofSpecial (owner : SpecialOwner) : HiddenOwner :=
  if owner = .free then .freeSpace
  else if owner = .metadata then .metadata
  else .special owner

/-- What the owner is in the inode table. -/
def kind : HiddenOwner → InodeKind
  | root | unlinked => .directory
  | metadata | special _ => .metadata
  | freeSpace => .freeSpace

def name : HiddenOwner → String
  | root => "$metadata"
  | metadata => "metadata"
  | freeSpace => "freespace"
  | unlinked => "unlinked"
  | special owner => owner.name

end HiddenOwner

/-- The path of some names, each in the directory before it. -/
def rootedPath (separator : Char) (names : List String) : String :=
  String.join (names.map fun name => separator.toString ++ name)

namespace HiddenOwner

def path (separator : Char) : HiddenOwner → String
  | root => rootedPath separator [root.name]
  | owner => rootedPath separator [root.name, owner.name]

/-- The path of a file that has lost its name. -/
def unlinkedPath (separator : Char) (ino : Int64) : String :=
  rootedPath separator [root.name, unlinked.name, toString ino.toInt]

end HiddenOwner

-- ============================================================= numbers

/-- The special owners that were met, in order. -/
structure HiddenNumbers where
  met : List SpecialOwner := []
  deriving Repr, DecidableEq

namespace HiddenNumbers

/-- The number of the special owner that was met `i`-th. -/
def numberAt (i : Nat) : Int64 := Int64.ofInt (-5 - i)

/-- The inode number of an owner, which is now among those met. -/
def number (n : HiddenNumbers) : HiddenOwner → Int64 × HiddenNumbers
  | .root => (-1, n)
  | .metadata => (-2, n)
  | .freeSpace => (-3, n)
  | .unlinked => (-4, n)
  | .special owner =>
    match n.met.idxOf? owner with
    | some i => (numberAt i, n)
    | none => (numberAt n.met.length, ⟨n.met ++ [owner]⟩)

def size (n : HiddenNumbers) : Nat := n.met.length

end HiddenNumbers

end DiskAtlas.Scan

/-
Inodes: what a scan learns of an object, and the row kept for it. Both
hold the same facts; a fact that the file system does not tell is absent.
Numbers below zero belong to no object of the file system; they are given
to the parts of the device that no file owns.
-/
import DiskAtlas.Kind

namespace DiskAtlas

/-- The times of an object, in seconds from 1970. -/
structure InodeTimes where
  atime : Option Int64
  crtime : Option Int64
  ctime : Option Int64
  mtime : Option Int64
  deriving Repr, DecidableEq, Inhabited

def InodeTimes.none : InodeTimes := ⟨.none, .none, .none, .none⟩

/-- What is known of one inode. -/
structure Inode where
  ino : Int64
  kind : InodeKind
  size : Option UInt64
  times : InodeTimes
  deriving Repr, DecidableEq, Inhabited

/-- An inode of which only the number and the kind are known. -/
def Inode.bare (ino : Int64) (kind : InodeKind) : Inode :=
  ⟨ino, kind, none, .none⟩

end DiskAtlas

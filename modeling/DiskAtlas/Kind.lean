/-
What an inode is and what a stretch of the device is used for. The seven
kinds of extent are listed in the order in which they win ties when a cell
of the overview shows the commonest kind. A set of kinds is a byte, with a
bit for each kind and one bit over that stands for none: a mask that is
read loses it, but a set that is made of a whole byte keeps it, and is then
unlike every set with the same kinds and no such bit.
-/
import DiskAtlas.Text.Blank

namespace DiskAtlas

open Text

-- ===================================================== kinds of extent

/-- What a physical range is used for. -/
inductive ExtentKind where
  | file
  | directory
  | extentMap
  | metadata
  | xattr
  | symlink
  | freeSpace
  deriving Repr, DecidableEq, Inhabited

namespace ExtentKind

def all : List ExtentKind :=
  [.file, .directory, .extentMap, .metadata, .xattr, .symlink, .freeSpace]

/-- The place of a kind in `all`. -/
def index : ExtentKind → Nat
  | .file => 0
  | .directory => 1
  | .extentMap => 2
  | .metadata => 3
  | .xattr => 4
  | .symlink => 5
  | .freeSpace => 6

/-- The kind at a place in `all`. -/
def ofIndex? (i : Nat) : Option ExtentKind := all[i]?

theorem ofIndex?_index (kind : ExtentKind) :
    ofIndex? kind.index = some kind := by
  cases kind <;> rfl

theorem index_lt (kind : ExtentKind) : kind.index < 7 := by
  cases kind <;> decide

theorem mem_all (kind : ExtentKind) : kind ∈ all := by
  cases kind <;> decide

def name : ExtentKind → String
  | .file => "file"
  | .directory => "directory"
  | .extentMap => "extent map"
  | .metadata => "metadata"
  | .xattr => "extended attribute"
  | .symlink => "symlink"
  | .freeSpace => "free space"

/-- What a cell shows that holds this kind only. -/
def symbol : ExtentKind → Char
  | .file => 'F'
  | .directory => 'D'
  | .extentMap => 'E'
  | .metadata => 'M'
  | .xattr => 'X'
  | .symlink => 'S'
  | .freeSpace => 'R'

/-- The kind that a text means: its symbol in either case, or its name in
any case, with or without the blank inside it. -/
def lookup (text : String) : Option ExtentKind :=
  let wanted := asciiLower (trimString text)
  all.find? fun kind =>
    wanted == kind.symbol.toLower.toString
      || wanted == kind.name
      || wanted.toList == kind.name.toList.filter (· != ' ')

end ExtentKind

-- ======================================================= kinds of inode

/-- What an inode is. -/
inductive InodeKind where
  | file
  | directory
  | metadata
  | symlink
  | freeSpace
  deriving Repr, DecidableEq, Inhabited

namespace InodeKind

/-- Every kind of inode, in the order of their numbers. -/
def all : List InodeKind :=
  [.file, .directory, .metadata, .symlink, .freeSpace]

/-- The place of a kind in `all`. -/
def index : InodeKind → Nat
  | .file => 0
  | .directory => 1
  | .metadata => 2
  | .symlink => 3
  | .freeSpace => 4

/-- The kind at a place in `all`. -/
def ofIndex? (i : Nat) : Option InodeKind := all[i]?

theorem ofIndex?_index (kind : InodeKind) :
    ofIndex? kind.index = some kind := by
  cases kind <;> rfl

theorem index_lt (kind : InodeKind) : kind.index < 5 := by
  cases kind <;> decide

def name : InodeKind → String
  | .file => "file"
  | .directory => "directory"
  | .metadata => "metadata"
  | .symlink => "symlink"
  | .freeSpace => "free space"

/-- The kind of the extents that hold an inode's own content. -/
def primary : InodeKind → ExtentKind
  | .file => .file
  | .directory => .directory
  | .metadata => .metadata
  | .symlink => .symlink
  | .freeSpace => .freeSpace

end InodeKind

-- ============================================================== sets

/-- A set of kinds of extent, a byte with one bit for each kind. -/
structure KindSet where
  bits : BitVec 8
  deriving Repr, DecidableEq, Inhabited

namespace KindSet

/-- The set with the low seven bits of `mask`. -/
def ofMask (mask : Nat) : KindSet := ⟨BitVec.ofNat 8 (mask % 128)⟩

def mask (s : KindSet) : Nat := s.bits.toNat

def empty : KindSet := ⟨0⟩

/-- The set of all kinds, without the bit that stands for none. -/
def all : KindSet := ⟨0x7F⟩

def single (kind : ExtentKind) : KindSet := ⟨BitVec.twoPow 8 kind.index⟩

def has (s : KindSet) (kind : ExtentKind) : Bool :=
  s.bits.getLsbD kind.index

/-- Does every bit of the set stand for a kind? -/
def isNamed (s : KindSet) : Bool := !s.bits.getLsbD 7

def union (s t : KindSet) : KindSet := ⟨s.bits ||| t.bits⟩

/-- The set with `kind` put in or taken out. -/
def set (s : KindSet) (kind : ExtentKind) (present : Bool) : KindSet :=
  if present then s.union (single kind)
  else ⟨s.bits &&& ~~~ (single kind).bits⟩

/-- Has the set no bits at all? -/
def isEmpty (s : KindSet) : Bool := s == empty

/-- The kinds in the set, in order of priority. -/
def kinds (s : KindSet) : List ExtentKind := ExtentKind.all.filter s.has

/-- The set of the kinds in a list. -/
def ofKinds (kinds : List ExtentKind) : KindSet :=
  kinds.foldl (fun s kind => s.union (single kind)) empty

theorem has_single (kind other : ExtentKind) :
    (single kind).has other = (kind == other) := by
  cases kind <;> cases other <;> decide

theorem has_union (s t : KindSet) (kind : ExtentKind) :
    (s.union t).has kind = (s.has kind || t.has kind) := by
  simp [union, has]

theorem has_all (kind : ExtentKind) : all.has kind = true := by
  cases kind <;> decide

theorem mem_kinds {s : KindSet} {kind : ExtentKind} :
    kind ∈ s.kinds ↔ s.has kind = true := by
  simp [kinds, ExtentKind.mem_all]

end KindSet

end DiskAtlas

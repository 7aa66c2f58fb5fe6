/-
Free space, metadata and files without a name, from the map of the whole
device. The pass runs after every named file was mapped. A record has one
of a few fates: it belongs to another device, it repeats what the map of
its own file has said, or it is put into the extent table under its owner,
who gets an inode and a name when the first such record is met.

The names are put into their directories when the whole map was read, so
a pass that was called off or failed leaves rows but no names.
-/
import DiskAtlas.Cancel
import DiskAtlas.Scan.HiddenOwner
import DiskAtlas.Mapping.DeviceWalk
import DiskAtlas.Store.Session

namespace DiskAtlas.Scan

open Mapping

/-- What a pass over a device has counted. -/
structure DeviceReport where
  /-- Records of this device. -/
  records : Nat
  /-- Records of other devices, which are left out. -/
  foreign : Nat
  freeBytes : UInt64
  specialOwners : Nat
  unlinkedInodes : Nat
  extentMapRecords : Nat
  deriving Repr, DecidableEq

/-- A pass over a device in a session. -/
structure DevicePass (β : Type) where
  session : Session β
  numbers : HiddenNumbers := {}
  /-- Files that turned out to have no name. -/
  unlinked : List Int64 := []
  /-- Names to be put into directories, in order. -/
  names : List (Int64 × String × Int64) := []
  records : Nat := 0
  foreign : Nat := 0
  freeBytes : UInt64 := 0
  extentMapRecords : Nat := 0

namespace DevicePass

variable {β : Type}

-- ============================================================== owners

/-- Gives an owner an inode and, in a directory if there is one, a name. -/
def addOwner (p : DevicePass β) (owner : HiddenOwner) (ino : Int64)
    (directory : Option Int64) : DevicePass β :=
  let path := owner.path p.session.separator
  { p with
    session := p.session.ensureInode ino owner.kind path
    names := p.names ++
      (directory.map fun d => (d, owner.name, ino)).toList }

/-- Puts the directory of all hidden owners in, if it is not there yet. -/
def attachRoot (p : DevicePass β) : Int64 × DevicePass β :=
  let (ino, numbers) := p.numbers.number .root
  let p := { p with numbers }
  if p.session.containsInode ino then (ino, p)
  else (ino, p.addOwner .root ino (p.session.lookupPath ""))

/-- Puts an owner in, if it is not there yet, and the directory of all of
them before it. -/
def attach (p : DevicePass β) (owner : HiddenOwner) :
    Int64 × DevicePass β :=
  let (ino, numbers) := p.numbers.number owner
  let p := { p with numbers }
  if p.session.containsInode ino then (ino, p)
  else if owner = .root then p.attachRoot
  else
    let (directory, p) := p.attachRoot
    (ino, p.addOwner owner ino (some directory))

/-- Puts a file without a name in. -/
def attachUnlinked (p : DevicePass β) (ino : Int64) : DevicePass β :=
  if p.unlinked.contains ino then p
  else
    let (directory, p) := { p with unlinked := p.unlinked ++ [ino] }.attach
      .unlinked
    let path := HiddenOwner.unlinkedPath p.session.separator ino
    { p with
      session := p.session.ensureInode ino .file path
      names := p.names ++ [(directory, toString ino.toInt, ino)] }

/-- Was a file put in before the pass? -/
def isNamed (p : DevicePass β) (ino : Int64) : Bool :=
  p.session.containsInode ino && !p.unlinked.contains ino

-- ============================================================== records

/-- What becomes of a record. -/
inductive Fate where
  /-- It is about another device. -/
  | foreign
  /-- Its inode has a number that no row can have. -/
  | unnumbered
  /-- It repeats what the map of the file has said. -/
  | known
  /-- It belongs to an owner without a path. -/
  | hidden (owner : HiddenOwner)
  /-- It holds the map of an inode's extents. -/
  | extentMap (ino : Int64)
  /-- It holds content of a file without a name. -/
  | content (ino : Int64)
  deriving Repr, DecidableEq

def rowNumber (raw : UInt64) : Option Int64 :=
  if raw < 0x8000000000000000 then some raw.toInt64 else none

/-- The fate of a record; `wanted` is the device to keep, if records carry
device numbers that can be compared. -/
def fate (p : DevicePass β) (wanted : Option UInt32) (r : DeviceRecord) :
    Fate :=
  if wanted.any (· != r.device) then .foreign
  else
    match r.owner with
    | .special owner => .hidden (.ofSpecial owner)
    | .inode raw =>
      match rowNumber raw with
      | none => .unnumbered
      | some ino =>
        if r.flags.containsAll .extentMap then .extentMap ino
        else if p.isNamed ino then .known
        else .content ino

/-- The flags of the extent for a record. -/
def extentFlags (flags : DeviceFlags) : Flags :=
  let unwritten := if flags.containsAll .prealloc then .unwritten else .empty
  let shared := if flags.containsAll .shared then .shared else .empty
  Flags.union unwritten shared

/-- Offers the extent table a row for a record. -/
def push (p : DevicePass β) (r : DeviceRecord) (ino : Int64)
    (kind : ExtentKind) (logical : Option UInt64) : DevicePass β :=
  let row : Extent :=
    ⟨ino, r.physical, logical, r.length, extentFlags r.flags, kind⟩
  { p with session := (p.session.pushExtent row).2 }

/-- The kind of the extents of an owner. -/
def ownerExtentKind : HiddenOwner → ExtentKind
  | .freeSpace => .freeSpace
  | _ => .metadata

/-- Takes a record of an owner without a path. -/
def takeHidden (p : DevicePass β) (r : DeviceRecord) (owner : HiddenOwner) :
    DevicePass β :=
  let (ino, p) := p.attach owner
  let free := if owner = .freeSpace then r.length else 0
  { p with freeBytes := p.freeBytes + free }.push r ino
    (ownerExtentKind owner) none

/-- Takes a record that holds the map of an inode's extents. -/
def takeExtentMap (p : DevicePass β) (r : DeviceRecord) (ino : Int64) :
    DevicePass β :=
  let p := if p.isNamed ino then p else p.attachUnlinked ino
  { p with extentMapRecords := p.extentMapRecords + 1 }.push r ino
    .extentMap none

/-- Takes a record with content of a file without a name. -/
def takeContent (p : DevicePass β) (r : DeviceRecord) (ino : Int64) :
    DevicePass β :=
  let kind := if r.flags.containsAll .attrFork then .xattr else .file
  (p.attachUnlinked ino).push r ino kind (some r.offset)

def take (p : DevicePass β) (wanted : Option UInt32) (r : DeviceRecord) :
    DevicePass β :=
  let counted := { p with records := p.records + 1 }
  match p.fate wanted r with
  | .foreign => { p with foreign := p.foreign + 1 }
  | .unnumbered | .known => counted
  | .hidden owner => counted.takeHidden r owner
  | .extentMap ino => counted.takeExtentMap r ino
  | .content ino => counted.takeContent r ino

-- ================================================================ passes

def report (p : DevicePass β) : DeviceReport :=
  { records := p.records
    foreign := p.foreign
    freeBytes := p.freeBytes
    specialOwners := p.numbers.size
    unlinkedInodes := p.unlinked.length
    extentMapRecords := p.extentMapRecords }

/-- The session with all names in their directories. -/
def withNames (p : DevicePass β) : Session β :=
  p.names.foldl (fun x (directory, name, ino) =>
    x.insertDirectory directory [(name, ino)]) p.session

/-- Takes the records of a map, of which the next one has the number
`row`. No report means that the pass was called off. -/
def takeAll (wanted : Option UInt32) (calledOff : Nat → Bool) :
    (row : Nat) → List (Except Error DeviceRecord) → DevicePass β →
      Except Error (Option DeviceReport) × Session β
  | _, [], p => (.ok (some p.report), p.withNames)
  | row, item :: rest, p =>
    if calledOff row then (.ok none, p.session)
    else
      match item with
      | .error e => (.error e, p.session)
      | .ok r => takeAll wanted calledOff (row + 1) rest (p.take wanted r)

end DevicePass

/-- Puts the map of a device into a session. The records of other devices
are left out if `device` is given and records carry encoded devices. -/
def ingestDevice {β : Type} (x : Session β) (device : Option UInt64)
    (map : DeviceMap) (calledOff : Nat → Bool) :
    Except Error (Option DeviceReport) × Session β :=
  match map.trace.refusal? with
  | some e => (.error e, x)
  | none =>
    let wanted :=
      if map.firstEncoded then device.map encodeDevice else none
    DevicePass.takeAll wanted calledOff 0 map.trace.items { session := x }

end DiskAtlas.Scan

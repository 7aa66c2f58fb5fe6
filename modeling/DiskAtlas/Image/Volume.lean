/-
An image as a volume that can be scanned. Its objects are all on one
device, can all be opened but for sockets, and have no extents. The device
itself cannot be mapped.
-/
import DiskAtlas.Image.Basic
import DiskAtlas.Mapping.Script
import DiskAtlas.Scan.Walk

namespace DiskAtlas.Image

open Mapping Scan

/-- The source of extents of objects in an image: prepared answers, of
which there are none. -/
abbrev Source := List (Page RawExtent)

/-- What a leaf is in the inode table. -/
def Leaf.kind? : Leaf → Option InodeKind
  | file _ => some .file
  | symlink _ => some .symlink
  | pipe | socket => none

/-- The size of a leaf in bytes; a link has that of its target's path. -/
def Leaf.size : Leaf → UInt64
  | file size => size
  | symlink target => UInt64.ofNat target.length
  | pipe | socket => 0

/-- The inode of an object. Nothing is ever changed in an image, so every
time is the same. -/
def inodeOf (number : Nat) (kind : InodeKind) (size : UInt64) : Inode :=
  { ino := Int64.ofNat (number + 1)
    kind
    size := some size
    times := ⟨some 0, some 0, some 0, some 0⟩ }

/-- What is told of an object of some kind. -/
def factsOf (inode : Option Inode) : Facts Source where
  device := 1
  inode
  reading := some
    { file := scriptedFile, blocks := ({} : BlockTable).source, state := [] }

mutual

/-- A node as a tree to walk. -/
def treeOf (leaf? : Nat → Option Leaf) : Node → Scan.Tree Source
  | .leaf name number =>
    let leaf := (leaf? number).getD .pipe
    let inode := leaf.kind?.map (inodeOf number · leaf.size)
    .object (Text.lossyText name) (factsOf inode) []
  | .directory name number entries =>
    let inode := inodeOf number .directory 4096
    .object (Text.lossyText name) (factsOf (some inode))
      (treesOf leaf? entries)

def treesOf (leaf? : Nat → Option Leaf) : List Node → List (Scan.Tree Source)
  | [] => []
  | n :: rest => treeOf leaf? n :: treesOf leaf? rest

end

/-- The tree at a place. What is outside the image is not gone into. -/
def treeAt (image : Image) : Place → Except Error (Scan.Tree Source)
  | .outside path =>
    .ok (.object (Host.absolute path)
      (factsOf (some (inodeOf 0 .directory 4096))) [])
  | .missing .. => .error (.system .notFound)
  | .inside path =>
    match image.top.at? path with
    | none => .error (.system .notFound)
    | some node => .ok (treeOf image.leaf? node)

/-- The failure to open an object for reading, if it cannot be. -/
def openError? (image : Image) : Place → Option SysError
  | .outside _ | .missing .. => none
  | .inside path =>
    match image.top.at? path with
    | some (.leaf _ number) =>
      if image.leaf? number = some .socket then some .noDevice else none
    | _ => none

/-- The answer to a request for the map of the device. -/
def deviceMap (image : Image) (root : Name) : Except Error DeviceMap :=
  match image.find true root with
  | .error e => .error (.system e)
  | .ok place =>
    match image.openError? place with
    | some e => .error (.system e)
    | none => .error (.ofRequest RequestCode.mapDeviceName .notForDevice)

/-- The facts of the file system that a path leads to. -/
def summary (image : Image) (root : Name) : Except Error Summary :=
  match image.find true root with
  | .error e => .error (.system e)
  | .ok _ => .ok (Host.factsOf (Text.lossyText root))

/-- The image as a volume with some root. -/
def volume (image : Image) (root : Name) : Volume Source where
  root :=
    match image.find false root with
    | .error e => .error (.system e)
    | .ok place => image.treeAt place
  summary := image.summary root
  deviceMap := image.deviceMap root

end DiskAtlas.Image

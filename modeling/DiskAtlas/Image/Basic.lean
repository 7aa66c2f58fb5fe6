/-
Building a file system as a value, and finding one's way in it. Paths are
followed as a system follows them: through symbolic links, upwards, and
also out of the image, since a link can lead to a place outside it.
-/
import DiskAtlas.Host
import DiskAtlas.Image.Node
import DiskAtlas.SortedMap

namespace DiskAtlas

open Image

/-- A file system as a value, on some host. -/
structure Image where
  host : Host := .usual
  /-- The directory of the host that the image stands in. -/
  base : List String := ["tmp"]
  /-- The name that the image has there. -/
  name : String := ".tmp000000"
  top : Node := .directory [] 0 []
  /-- The objects that are no directories, by their number. -/
  leaves : SortedMap Nat Leaf := .empty
  /-- The number of the next object. -/
  next : Nat := 1

namespace Image

def slash : UInt8 := 0x2F

/-- The names in a path. A path that ends with a slash must lead to a
directory, so the directory itself is named behind it. -/
def names (path : Name) : List Name :=
  let parts := (path.splitOn slash).filter (!·.isEmpty)
  if path.getLast? = some slash then parts ++ [[0x2E]] else parts

def leaf? (image : Image) (number : Nat) : Option Leaf :=
  image.leaves.get? number

-- =============================================================== paths

/-- A place that a path leads to. -/
inductive Place where
  /-- An object of the image, by the names that lead to it. -/
  | inside (path : List Name)
  /-- A name that a directory of the image does not have. -/
  | missing (directory : List Name) (name : Name)
  /-- A place of the host. -/
  | outside (path : List String)
  deriving Repr

/-- The place of the host that some names lead to. -/
def leave (image : Image) (here : List String) (todo : List Name) :
    Except SysError Place := do
  match ← image.host.follow here (todo.map Text.lossyText) with
  | .there path => return .outside path
  | .missing _ => throw .notFound

/-- Goes along a path. `links` is the number of links that may still be
followed; a link at the very end is followed only if `through` is set. -/
def follow (image : Image) (through : Bool) (links : Nat)
    (here : List Name) (todo : List Name) : Except SysError Place :=
  match todo with
  | [] => .ok (.inside here)
  | name :: rest =>
    match image.top.at? here with
    | none => .error .notFound
    | some node =>
      if !node.isDirectory then .error .notDirectory
      else if name = [0x2E] then image.follow through links here rest
      else if name = [0x2E, 0x2E] then
        if here.isEmpty then image.leave image.base rest
        else image.follow through links here.dropLast rest
      else if Host.longestName < name.length then .error .nameTooLong
      else
        match node.entry? name with
        | none =>
          if rest.isEmpty then .ok (.missing here name)
          else .error .notFound
        | some child =>
          match image.leaf? child.number with
          | some (.symlink target) =>
            if rest.isEmpty && !through then .ok (.inside (here ++ [name]))
            else
              match links with
              | 0 => .error .tooManyLinks
              | links + 1 =>
                if target.head? = some slash then
                  image.leave [] (names target ++ rest)
                else image.follow through links here (names target ++ rest)
          | _ => image.follow through links (here ++ [name]) rest
termination_by (links, todo.length)

/-- The most links that one path may go through. -/
def mostLinks : Nat := 40

/-- The length of a path in the image as the system is given it. -/
def fullLength (image : Image) (path : Name) : Nat :=
  (Host.absolute (image.base ++ [image.name, ""])).utf8ByteSize + path.length

/-- What a path stands for; what a link at its end leads to only if
`through` is set. -/
def locate (image : Image) (through : Bool) (path : Name) :
    Except SysError Place :=
  if path.contains 0 then .error .zeroInPath
  else if Host.longestPath ≤ image.fullLength path then .error .nameTooLong
  else image.follow through mostLinks [] (names path)

/-- What is there that a path stands for. -/
def find (image : Image) (through : Bool) (path : Name) :
    Except SysError Place := do
  match ← image.locate through path with
  | .missing .. => throw .notFound
  | place => return place

-- ============================================================ building

def insert (image : Image) (directory : List Name) (node : Node) : Image :=
  { image with top := image.top.changeAt (Node.addTo node) directory }

/-- Puts a new object in, if only its name is missing at a path. -/
def addNew (image : Image) (place : Except SysError Place) (leaf : Leaf) :
    Image :=
  match place with
  | .ok (.missing directory name) =>
    let number := image.next
    { image.insert directory (.leaf name number) with
      leaves := image.leaves.insert number leaf
      next := number + 1 }
  | _ => image

/-- Puts an object in, if there is nothing at its path. -/
def addLeaf (image : Image) (path : Name) (leaf : Leaf) : Image :=
  image.addNew (image.locate false path) leaf

/-- Puts a directory in, if there is nothing at its path. -/
def addDirectoryAt (image : Image) (path : List Name) : Image :=
  match image.follow false mostLinks [] path with
  | .ok (.missing directory name) =>
    let number := image.next
    { image.insert directory (.directory name number []) with
      next := number + 1 }
  | _ => image

/-- Puts a directory in, with the directories it needs. -/
def addDirectory (image : Image) (path : Name) : Image :=
  let names := names path
  (List.range names.length).foldl
    (fun image i => image.addDirectoryAt (names.take (i + 1))) image

/-- The number of the object that is no directory at a place. -/
def leafNumber? (image : Image) : Except SysError Place → Option Nat
  | .ok (.inside path) =>
    match image.top.at? path with
    | some (.leaf _ number) => some number
    | _ => none
  | _ => none

/-- Puts a file in; one that is there already gets a new size. A link is
followed, even to a name that is missing. -/
def writeFile (image : Image) (path : Name) (size : UInt64) : Image :=
  let place := image.locate true path
  match image.leafNumber? place with
  | some number =>
    { image with leaves := image.leaves.insert number (.file size) }
  | none => image.addNew place (.file size)

def addName (image : Image) (path target : Name) : Image :=
  match image.leafNumber? (image.locate false target),
    image.locate false path with
  | some number, .ok (.missing directory name) =>
    image.insert directory (.leaf name number)
  | _, _ => image

end Image

end DiskAtlas

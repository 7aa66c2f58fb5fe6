/-
The files that snapshots are kept in. A disk is a directory of a host and
the files and directories that were made in and around it. Everything on
it is known by one name, its path from the top of the host; paths that are
asked for are first followed to such a name. A file also has a number,
which stays with it when it is moved, and writers lock files by their
number.
-/
import DiskAtlas.Host
import DiskAtlas.SortedMap

namespace DiskAtlas.Snapshot

/-- A file. -/
structure File where
  number : Nat
  bytes : List UInt8 := []
  deriving Repr, DecidableEq

/-- Files, directories and locks. -/
structure Disk where
  /-- What stands for the directory in messages. -/
  name : String := "$DIR"
  /-- The directory's path. -/
  location : String := "/tmp/.tmp000000"
  /-- Files by their path from the top. -/
  files : SortedMap String File := .empty
  /-- The paths of directories. -/
  directories : List String := location :: Host.usual.directories
  /-- The number of the next file. -/
  next : Nat := 0
  /-- The numbers of the files that are locked. -/
  locked : List Nat := []
  /-- The time that is written into snapshots. -/
  time : Int64 := 0

namespace Disk

-- =============================================================== paths

/-- A path as it is written in messages. -/
def fullName (d : Disk) (path : String) : String := Host.join d.name path

def fullPath (d : Disk) (path : String) : String := Host.join d.location path

/-- Does a part of a path lead nowhere else? -/
def isVoid (part : String) : Bool := part.isEmpty || part == "."

/-- A path without the empty parts and the points at its ends, unless it
is absolute. -/
def trimmedPath (path : String) : String :=
  let parts := (path.splitOn "/").dropWhile isVoid
  if path.startsWith "/" then path
  else "/".intercalate (parts.reverse.dropWhile isVoid).reverse

/-- The path with the part behind the last point of its name, or nothing,
replaced. A point at the start of the name does not count. A path that ends
without a name, with two points or nothing, stays as it is. -/
def withExtension (path extension : String) : String :=
  let parts := ((path.splitOn "/").reverse.dropWhile isVoid).reverse
  let name := parts.getLastD ".."
  let pieces := name.splitOn "."
  let stem := ".".intercalate pieces.dropLast
  let stem := if stem.isEmpty then name else stem
  if name = ".." then path
  else "/".intercalate (parts.dropLast ++ [stem ++ "." ++ extension])

/-- The names that a path goes through, the last one first. -/
def namesUp (path : String) : List String :=
  ((path.splitOn "/").filter fun part =>
    !part.isEmpty && part != ".").reverse

def host (d : Disk) : Host :=
  { directories := d.directories, others := d.files.keys, workplace := [] }

def locate (d : Disk) (path : String) : Except SysError Host.Place :=
  d.host.locate (d.fullPath path)

/-- The paths of all files in the directory, as seen from it. -/
def listing (d : Disk) : List String :=
  let top := d.location ++ "/"
  d.files.keys.filterMap fun path =>
    if path.startsWith top then some (path.drop top.length).toString else none

-- ========================================================= directories

/-- Makes a directory; one that is there already is as good. -/
def makeDirectory (d : Disk) (path : String) : Except SysError Disk :=
  match d.locate path with
  | .error e => .error e
  | .ok (.there names) =>
    if d.host.isDirectory names then .ok d else .error .alreadyThere
  | .ok (.missing names) =>
    .ok { d with directories := Host.absolute names :: d.directories }

/-- Makes a directory and, if those on the way to it are missing, makes
them first. The names come last one first. -/
def makeWay (d : Disk) : List String → Except SysError Unit × Disk
  | [] => (.ok (), d)
  | name :: up =>
    let path := Host.absolute (name :: up).reverse
    match d.makeDirectory path with
    | .ok d => (.ok (), d)
    | .error e =>
      if e ≠ .notFound then (.error e, d)
      else
        match d.makeWay up with
        | (.error e, d) => (.error e, d)
        | (.ok (), d) =>
          match d.makeDirectory path with
          | .ok d => (.ok (), d)
          | .error e => (.error e, d)

/-- Makes a directory with all those on the way to it. -/
def putDirectory (d : Disk) (path : String) : Except SysError Unit × Disk :=
  d.makeWay (namesUp (d.fullPath path))

/-- Makes the directories on the way to a path. -/
def makeParents (d : Disk) (path : String) : Except SysError Unit × Disk :=
  d.makeWay (namesUp (d.fullPath path)).tail

-- =============================================================== files

/-- The file that a path leads to. -/
def find (d : Disk) (path : String) : Except SysError File :=
  match d.locate path with
  | .error e => .error e
  | .ok (.missing _) => .error .notFound
  | .ok (.there names) =>
    match d.files.get? (Host.absolute names) with
    | some file => .ok file
    | none => .error .isDirectory

/-- Opens a file for writing, by its path from the top; one that is not
there is made, and one that is there keeps its bytes. -/
def openFile (d : Disk) (path : String) :
    Except SysError (String × File × Disk) :=
  match d.locate path with
  | .error e => .error e
  | .ok (.there names) =>
    let place := Host.absolute names
    match d.files.get? place with
    | some file => .ok (place, file, d)
    | none => .error .isDirectory
  | .ok (.missing names) =>
    let place := Host.absolute names
    let file : File := { number := d.next }
    .ok (place, file,
      { d with files := d.files.insert place file, next := d.next + 1 })

/-- Writes a file anew; the result is its path from the top. -/
def writeFile (d : Disk) (path : String) (bytes : List UInt8) :
    Except SysError (String × Disk) :=
  match d.openFile path with
  | .error e => .error e
  | .ok (place, file, d) =>
    .ok (place, { d with files := d.files.insert place { file with bytes } })

/-- Moves a file to a path, in place of the file there. A directory is in
the way. -/
def moveFile (d : Disk) (place path : String) : Except SysError Disk :=
  match d.locate path, d.files.get? place with
  | .error e, _ => .error e
  | .ok _, none => .error .notFound
  | .ok (.there names), some file | .ok (.missing names), some file =>
    if d.host.isDirectory names then .error .isDirectory
    else
      let files := (d.files.erase place).insert (Host.absolute names) file
      .ok { d with files }

/-- Writes a file beside a path and then moves it to the path, so that
whoever reads the path finds a whole file. The file beside it has the name
of the path with another extension; it stays behind if the path is taken
by a directory. -/
def replaceFile (d : Disk) (path : String) (bytes : List UInt8) :
    Except SysError Unit × Disk :=
  match d.writeFile (withExtension path "tmp") bytes with
  | .error e => (.error e, d)
  | .ok (place, d) =>
    match d.moveFile place path with
    | .error e => (.error e, d)
    | .ok d => (.ok (), d)

/-- Puts a file in, with the directories it needs. -/
def putFile (d : Disk) (path : String) (bytes : List UInt8) :
    Except SysError Unit × Disk :=
  match d.makeParents path with
  | (.error e, d) => (.error e, d)
  | (.ok (), d) =>
    match d.writeFile path bytes with
    | .error e => (.error e, d)
    | .ok (_, d) => (.ok (), d)

end Disk

end DiskAtlas.Snapshot

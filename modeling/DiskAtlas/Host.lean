/-
The system that a program runs on, as far as it can be relied upon: the
places that every system has, and what a path through them leads to. The
facts of the file systems behind them are taken as given; only that there
are such facts, or why there are none, depends on the path.
-/
import DiskAtlas.Error
import DiskAtlas.Store.Summary
import DiskAtlas.Text.Utf8

namespace DiskAtlas

/-- A system, by the places that are known of it. -/
structure Host where
  /-- Absolute paths of directories. -/
  directories : List String
  /-- Absolute paths of other objects. -/
  others : List String
  /-- Where paths begin that are not absolute. -/
  workplace : List String

namespace Host

/-- The places of a usual system. -/
def usual : Host where
  directories := [
    "/", "/bin", "/boot", "/dev", "/dev/pts", "/dev/shm", "/etc", "/home",
    "/lib", "/media", "/mnt", "/opt", "/proc", "/proc/1", "/proc/self",
    "/proc/self/fd", "/proc/sys", "/root", "/run", "/sbin", "/srv", "/sys",
    "/tmp", "/usr", "/usr/bin", "/usr/lib", "/usr/local", "/usr/sbin",
    "/usr/share", "/var", "/var/lib", "/var/log", "/var/tmp", "/work"]
  others := [
    "/bin/sh", "/dev/full", "/dev/null", "/dev/random", "/dev/urandom",
    "/dev/zero", "/etc/group", "/etc/hostname", "/etc/hosts", "/etc/passwd",
    "/proc/cpuinfo", "/proc/meminfo", "/proc/mounts", "/proc/self/maps",
    "/proc/self/status", "/proc/uptime", "/proc/version"]
  workplace := ["work"]

/-- The longest name that a system takes, in bytes. -/
def longestName : Nat := 255

/-- The longest path, with the zero behind it. -/
def longestPath : Nat := 4096

/-- The names in a path. A path that ends with a slash must lead to a
directory, so the directory itself is named behind it. -/
def names (path : String) : List String :=
  let parts := (path.splitOn "/").filter (!·.isEmpty)
  if path.endsWith "/" then parts ++ ["."] else parts

def absolute (names : List String) : String :=
  "/" ++ "/".intercalate names

/-- A path as seen from a directory, unless it is absolute itself. -/
def join (directory path : String) : String :=
  if path.startsWith "/" then path else directory ++ "/" ++ path

/-- What a path leads to. -/
inductive Place where
  /-- An object, by the names that lead to it from the top. -/
  | there (names : List String)
  /-- A name that its directory does not have. -/
  | missing (names : List String)
  deriving Repr, DecidableEq

/-- Is there a directory at a place? -/
def isDirectory (h : Host) (names : List String) : Bool :=
  h.directories.contains (absolute names)

def isThere (h : Host) (names : List String) : Bool :=
  h.isDirectory names || h.others.contains (absolute names)

/-- Goes from one place to the next; the place that is left must be a
directory. -/
def follow (h : Host) (here : List String) :
    List String → Except SysError Place
  | [] => .ok (.there here)
  | name :: rest =>
    if h.others.contains (absolute here) then .error .notDirectory
    else if name = "." then h.follow here rest
    else if name = ".." then h.follow here.dropLast rest
    else if longestName < name.utf8ByteSize then .error .nameTooLong
    else
      let next := here ++ [name]
      if h.isThere next then h.follow next rest
      else if rest.isEmpty then .ok (.missing next)
      else .error .notFound

/-- The place that a path leads to. -/
def locate (h : Host) (path : String) : Except SysError Place :=
  if path.contains '\x00' then .error .zeroInPath
  else if path.isEmpty then .error .notFound
  else if longestPath ≤ path.utf8ByteSize then .error .nameTooLong
  else
    let start := if path.startsWith "/" then [] else h.workplace
    h.follow start (names path)

/-- The object that a path leads to, by the names that lead to it. -/
def find (h : Host) (path : String) : Except SysError (List String) := do
  match ← h.locate path with
  | .there names => return names
  | .missing _ => throw .notFound

/-- The facts that are told of a file system. -/
def factsOf (path : String) : Summary :=
  { Summary.blank path with
    blockSize := 4096
    fragSize := 4096
    maxNameLength := 255
    fsType := "unknown" }

/-- The facts of the file system that a path leads to. The system cannot be
asked about a path with a zero in it. -/
def summary (h : Host) (path : String) : Except Error Summary :=
  if path.contains '\x00' then .error (.path (.hasNul path))
  else
    match h.find path with
    | .error e => .error (.system e)
    | .ok _ => .ok (factsOf path)

end Host

end DiskAtlas

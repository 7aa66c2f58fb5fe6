/-
A snapshot as the backend of a store. The file has a mark of eight bytes,
a version and a packed stream. Files without a whole header and files of
another version hold nothing; the mark is not looked at. A snapshot has at
most one writer at a time, who has locked the file beside it; readers are
not held up, since a save puts a whole new file in the place of the old
one.

How a stream is packed is left open (`Packer`). What runs packs it in
frames.
-/
import DiskAtlas.Packing.Frame
import DiskAtlas.Snapshot.Disk
import DiskAtlas.Snapshot.Layout
import DiskAtlas.Store.Basic

namespace DiskAtlas.Snapshot

-- ============================================================== packing

/-- A way to pack streams of bytes. A stream that was not packed in this
way may have nothing to unpack. -/
class Packer where
  pack : List UInt8 → List UInt8
  unpack : List UInt8 → Option (List UInt8)

/-- Streams are packed in frames. -/
instance : Packer where
  pack := Packing.pack
  unpack := Packing.unpack

variable [Packer]

-- ============================================================== content

/-- The mark that snapshots begin with: seven letters and a zero. -/
def mark : List UInt8 := [0x46, 0x49, 0x4C, 0x45, 0x4D, 0x41, 0x50, 0]

/-- The version of the layout. -/
def currentVersion : UInt32 := 1

/-- The length of a header: the mark and the version. -/
def headerLength : Nat := 12

/-- What stands in the bytes of a snapshot. -/
structure Content where
  mark : List UInt8 := Snapshot.mark
  version : UInt32 := currentVersion
  /-- The stream, which need not be a whole one. -/
  stream : List UInt8

namespace Content

def write (c : Content) : List UInt8 :=
  c.mark ++ littleEndian 4 c.version.toNat ++ c.stream

/-- The content of some bytes, unless they are too short for a header. -/
def ofBytes? (bytes : List UInt8) : Option Content :=
  if bytes.length < headerLength then none
  else
    some
      { mark := bytes.take 8
        version := UInt32.ofNat (ofLittleEndian ((bytes.drop 8).take 4))
        stream := bytes.drop headerLength }

/-- What the stream unpacks to behind the time of the save, if it is a
whole one. -/
def body? (c : Content) : Option (List UInt8) :=
  (Packer.unpack c.stream).map fun bytes => (bytes.dropWhile (128 ≤ ·)).drop 1

/-- The state that a content stands for; the path is for messages. -/
def load (c : Content) (path : String) :
    Except SnapshotError (Option Persisted) :=
  if c.version ≠ currentVersion then .ok none
  else
    match Packer.unpack c.stream with
    | none => .error (.decompress path)
    | some bytes => (decode bytes).elim (.error (.decode path)) (.ok ∘ some)

def ofState (time : Int64) (state : Persisted) : Content :=
  { stream := Packer.pack (encode time state) }

end Content

/-- The state that the bytes of a file stand for; the path is for
messages. -/
def loadBytes (bytes : List UInt8) (path : String) :
    Except SnapshotError (Option Persisted) :=
  match Content.ofBytes? bytes with
  | none => .ok none
  | some content => content.load path

-- ============================================================== backend

/-- A snapshot that is open. -/
structure OpenFile where
  disk : Disk
  path : String
  access : Access
  /-- The number of the file that is locked for it. -/
  lock : Option Nat

namespace OpenFile

def location (f : OpenFile) : String := f.disk.fullName f.path

/-- The path of the file that is locked by the writer of a snapshot. -/
def lockPath (path : String) : String := path ++ ".lock"

/-- Becomes the writer of a snapshot, if it has none; the result is the
number of the file that is locked. -/
def lockFor (disk : Disk) (path : String) : Except Error Nat × Disk :=
  match disk.makeParents path with
  | (.error e, disk) => (.error (.system e), disk)
  | (.ok (), disk) =>
    match disk.openFile (lockPath path) with
    | .error e => (.error (.system e), disk)
    | .ok (_, file, disk) =>
      if disk.locked.contains file.number then
        (.error (.locked (disk.fullName path)), disk)
      else
        (.ok file.number,
          { disk with locked := file.number :: disk.locked })

def acquire (disk : Disk) (path : String) (access : Access) :
    Except Error OpenFile × Disk :=
  match access with
  | .readOnly => (.ok { disk, path, access, lock := none }, disk)
  | .readWrite =>
    match lockFor disk path with
    | (.error e, disk) => (.error e, disk)
    | (.ok number, disk) =>
      (.ok { disk, path, access, lock := some number }, disk)

/-- The disk after the snapshot was closed. -/
def release (f : OpenFile) : Disk :=
  match f.lock with
  | none => f.disk
  | some number => { f.disk with locked := f.disk.locked.erase number }

/-- What the snapshot holds; nothing if there is no file. -/
def load (f : OpenFile) : Except Error (Option Persisted) :=
  match f.disk.find f.path with
  | .error e => if e = .notFound then .ok none else .error (.system e)
  | .ok file => (loadBytes file.bytes f.location).mapError .snapshot

/-- Replaces the snapshot. -/
def save (state : Persisted) (f : OpenFile) :
    Except Error Unit × OpenFile :=
  match f.access with
  | .readOnly => (.error (.notWritable f.location), f)
  | .readWrite =>
    let bytes := (Content.ofState f.disk.time state).write
    let (r, disk) := f.disk.replaceFile f.path bytes
    (r.mapError .system, { f with disk })

instance : Backend OpenFile where
  load := load
  save := save
  isWritable f := f.access == .readWrite
  location := location

end OpenFile

end DiskAtlas.Snapshot

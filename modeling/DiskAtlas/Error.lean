/-
Everything that can go wrong, by cause, and how it is said. A request
fails with one `Error`; its message begins with the class of the error.
-/
import DiskAtlas.SysError
import DiskAtlas.Filter.Error

namespace DiskAtlas

open Text

/-- A range that does not fit what it is used on. -/
inductive RangeError where
  /-- An offset at or past the end of the device. -/
  | beyondDevice (start total : UInt64)
  /-- A number of cells that the device cannot be cut into. -/
  | resolution (cells total : UInt64)
  /-- A cell that the overview does not have. -/
  | beyondOverview (cell cells : UInt64)
  deriving Repr, DecidableEq

def RangeError.message : RangeError → String
  | beyondDevice start total =>
    "physical offset " ++ toString start
      ++ " is beyond the end of the device (" ++ toString total ++ " bytes)"
  | resolution cells total =>
    "overview resolution " ++ toString cells ++ " must be between 1 and "
      ++ toString total
  | beyondOverview cell cells =>
    "cell " ++ toString cell ++ " is beyond the overview (" ++ toString cells
      ++ " cells)"

/-- A path that cannot be used. -/
inductive PathError where
  /-- The separator alone; the root is the empty path. -/
  | reserved (path : String)
  /-- A path that does not begin with the separator. -/
  | notRooted (path : String) (separator : Char)
  /-- An object that is neither file, directory nor symbolic link. -/
  | cannotScan (path : String)
  /-- A path that the system cannot even be asked about. -/
  | hasNul (path : String)
  deriving Repr, DecidableEq

def PathError.message : PathError → String
  | reserved path =>
    quoted path ++ " is reserved; the root is the empty path"
  | notRooted path separator =>
    quoted path ++ " must start with " ++ quotedChar separator
  | cannotScan path => path ++ " cannot be scanned"
  | hasNul path => path

/-- A snapshot that cannot be read. -/
inductive SnapshotError where
  | decompress (path : String)
  | decode (path : String)
  | other (text : String)
  deriving Repr, DecidableEq

def SnapshotError.message : SnapshotError → String
  | decompress path => "failed to decompress " ++ path
  | decode path => "failed to decode " ++ path
  | other text => text

/-- A request that makes no sense. -/
inductive InputError where
  | noInode (ino : Int64)
  | overviewCancelled
  | other (text : String)
  deriving Repr, DecidableEq

def InputError.message : InputError → String
  | noInode ino => "no inode " ++ toString ino.toInt ++ " in the store"
  | overviewCancelled => "overview cancelled"
  | other text => text

-- ============================================================== classes

/-- Why a request failed. -/
inductive Error where
  | system (e : SysError)
  /-- A request that the file system does not know. -/
  | unsupported (request : String) (e : SysError)
  | notWritable (location : String)
  | locked (location : String)
  | unfinishedScan
  | noScan
  | range (e : RangeError)
  | path (e : PathError)
  | filter (e : FilterError)
  | snapshot (e : SnapshotError)
  | input (e : InputError)
  deriving Repr, DecidableEq

namespace Error

def message : Error → String
  | system e => "IO error: " ++ e.message
  | unsupported request e =>
    "Unsupported operation: " ++ request ++ ": " ++ e.message
  | notWritable location => "Store is not writable: " ++ location
  | locked location => "Store is locked by another writer: " ++ location
  | unfinishedScan => "Incomplete database: the last scan did not finish"
  | noScan => "Empty database: no scan has been recorded"
  | range e => "Invalid range: " ++ e.message
  | path e => "Invalid path: " ++ e.message
  | filter e => "Query parse error: " ++ e.message
  | snapshot e => "Serialization error: " ++ e.message
  | input e => "Invalid input: " ++ e.message

/-- The failure of a mapping request. A refusal means that the file system
does not know the request; anything else is a real failure. -/
def ofRequest (request : String) (e : SysError) : Error :=
  if e.isRefusal then .unsupported request e else .system e

/-- Does the error say that something is not supported? -/
def isUnsupported : Error → Bool
  | unsupported .. => true
  | _ => false

end Error

end DiskAtlas

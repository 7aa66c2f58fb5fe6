/-
Scanning a whole file system into a store. The walk keeps a stack of the
objects that wait for their visit, takes the one on top, puts it in and has
its extents mapped, once for an inode whatever the number of its names. What
it finds in a directory goes on the stack. What fails on a single object is
counted, and the walk goes on. When nothing waits any more the whole device
is mapped, if that is wanted, and then the scan is finished. A walk that is
called off leaves the store with an unfinished scan.
-/
import DiskAtlas.Scan.Tree
import DiskAtlas.Scan.FreeSpace

namespace DiskAtlas.Scan

open Mapping

/-- A file system with a root to scan from. -/
structure Volume (σ : Type) where
  /-- The object at the root; what the path of the root leads to is not
  followed further. -/
  root : Except Error (Tree σ)
  /-- The facts of the file system that the root is on. -/
  summary : Except Error Summary
  /-- The map of the device, read through the root. -/
  deviceMap : Except Error DeviceMap

/-- When a walk is called off: before some visit, or before some record of
the device map. -/
structure Watch where
  beforeVisit : Nat → Bool
  beforeRecord : Nat → Bool

/-- A walk that ends when a token is cancelled; the switches do not change
while it runs. -/
def Watch.ofToken (switches : Switches) (token : CancelToken) : Watch where
  beforeVisit _ := switches.isCancelled token
  beforeRecord := switches.isCancelledAt token

/-- Why a walk ends before its scan is finished. -/
inductive Stop where
  | calledOff
  | failed (e : Error)
  /-- The program panics. -/
  | panicked
  deriving Repr, DecidableEq

/-- A walk under way. -/
structure Walk (β : Type) where
  session : Session β
  mapper : Mapper
  /-- The inodes whose extents were asked for. -/
  mapped : List Int64 := []
  visited : Nat := 0
  errors : Nat := 0
  directories : Nat := 0
  files : Nat := 0

/-- What a complete walk has found. -/
structure WalkReport where
  summary : SummaryReport
  inodes : Nat
  errors : Nat
  discarded : Nat
  /-- Regular files were mapped by blocks. -/
  usedBlocks : Bool
  freeSpace : Option DeviceReport
  deriving Repr, DecidableEq

namespace Walk

variable {β σ : Type}

-- ============================================================== objects

def fail (w : Walk β) : Walk β := { w with errors := w.errors + 1 }

/-- Maps the extents of an object through its reading. -/
def mapReading (w : Walk β) (inode : Inode) (reading : Reading σ) :
    Walk β :=
  let take (isXattr : Bool) (raw : RawExtent) (x : Session β) :
      Except Error (Session β) :=
    .ok (x.insertExtent inode raw isXattr).2
  let target := ⟨inode, reading.file, reading.blocks⟩
  let (run, mapper) := w.mapper.map target take reading.state w.session
  let w := { w with session := run.state, mapper }
  match run.outcome with
  | .ok _ => w
  | .error _ => w.fail

/-- Maps the extents of an object, unless that was done under another name
of it. A symbolic link is not opened, because that would open what it
stands for. -/
def mapObject (w : Walk β) (v : Visit σ) : Walk β :=
  if w.mapped.contains v.inode.ino then w
  else
    let w := { w with mapped := v.inode.ino :: w.mapped }
    if v.inode.kind = .symlink then w
    else
      match v.reading with
      | none => w.fail
      | some reading => w.mapReading v.inode reading

/-- Puts the names of a directory in; anything else has none. -/
def listObject (w : Walk β) (v : Visit σ) : Walk β :=
  if v.inode.kind = .directory then
    { w with
      session := w.session.insertDirectory v.inode.ino v.names
      errors := w.errors + v.failures
      directories := w.directories + 1 }
  else { w with files := w.files + 1 }

/-- Puts an object in and maps it. -/
def visit (w : Walk β) (v : Visit σ) : Except Error Unit × Walk β :=
  match w.session.insertInode v.inode v.path with
  | (.error e, session) => (.error e, { w with session })
  | (.ok (), session) =>
    let w := ({ w with session }.mapObject v).listObject v
    (.ok (), { w with visited := w.visited + 1 })

-- ================================================================ walks

/-- Saves the unfinished tables if it is time to. An interval of no objects,
which only a setting made by hand can have, is divided by. -/
def checkpoint [Backend β] (w : Walk β) (interval : Option UInt64) :
    Except Stop Unit × Walk β :=
  match interval with
  | none => (.ok (), w)
  | some n =>
    if n = 0 then (.error .panicked, w)
    else if w.visited % n.toNat = 0 then
      match w.session.checkpoint with
      | (.ok (), session) => (.ok (), { w with session })
      | (.error e, session) => (.error (.failed e), { w with session })
    else (.ok (), w)

/-- Visits what waits on a stack, and what is found on the way, until
nothing waits any more. -/
def visitPending [Backend β] (interval : Option UInt64) (watch : Watch)
    (device : UInt64) (separator : Char) :
    List (Pending σ) → Walk β → Except Stop Unit × Walk β
  | [], w => (.ok (), w)
  | p :: rest, w =>
    if watch.beforeVisit w.visited then (.error .calledOff, w)
    else
      match w.visit (p.visit device separator) with
      | (.error e, w) => (.error (.failed e), w)
      | (.ok (), w) =>
        match w.checkpoint interval with
        | (.error stop, w) => (.error stop, w)
        | (.ok (), w) =>
          w.visitPending interval watch device separator
            (p.below device separator rest)
termination_by stack => Pending.sizeOfStack stack
decreasing_by exact Pending.sizeOfStack_below_lt device separator p rest

/-- Puts the map of the device in, if it could be read. -/
def ingest (w : Walk β) (device : UInt64) (map : Except Error DeviceMap)
    (watch : Watch) : Except Error (Option DeviceReport) × Walk β :=
  match map with
  | .error e => (.error e, w)
  | .ok map =>
    let (result, session) :=
      ingestDevice w.session (some device) map watch.beforeRecord
    (result, { w with session })

/-- Maps the device, if that is wanted. A file system that does not have
such a map is no failure. -/
def mapDevice (w : Walk β) (device : UInt64)
    (map : Except Error DeviceMap) (watch : Watch) :
    Except Stop (Option DeviceReport) × Walk β :=
  if w.mapper.settings.mapFreeSpace then
    match w.ingest device map watch with
    | (.ok none, w) => (.error .calledOff, w)
    | (.ok (some report), w) => (.ok (some report), w)
    | (.error e, w) => (.ok none, if e.isUnsupported then w else w.fail)
  else (.ok none, w)

variable [Backend β]

/-- Finishes the scan. -/
def finish (w : Walk β) (freeSpace : Option DeviceReport) :
    Except Error WalkReport × Store β :=
  let (result, store) := w.session.finish
  let report := result.map fun summary =>
    { summary
      inodes := w.session.inodeCount
      errors := w.errors
      discarded := w.session.discarded
      usedBlocks := w.mapper.refused
      freeSpace }
  (report, store)

end Walk

/-- How a scan ended, the store after it, and how many objects were
visited. -/
structure WalkRun (β : Type) where
  outcome : Except Stop WalkReport
  store : Store β
  directories : Nat := 0
  files : Nat := 0

variable {β σ : Type} [Backend β]

/-- The run of a walk that ended before its scan was finished. -/
def Walk.stopped (w : Walk β) (stop : Stop) : WalkRun β :=
  ⟨.error stop, w.session.store, w.directories, w.files⟩

/-- Scans the objects of a tree into a store whose scan has begun. At first
only the root waits. -/
def runWalk (store : Store β) (settings : ScanSettings) (watch : Watch)
    (device : UInt64) (tree : Tree σ) (map : Except Error DeviceMap) :
    WalkRun β :=
  let session : Session β := { store }
  let stack := (tree.pending? device "").toList
  let w : Walk β := { session, mapper := { settings } }
  match w.visitPending settings.checkpointInterval watch device
      session.separator stack with
  | (.error stop, w) => w.stopped stop
  | (.ok (), w) =>
    match w.mapDevice device map watch with
    | (.error stop, w) => w.stopped stop
    | (.ok freeSpace, w) =>
      let (result, store) := w.finish freeSpace
      ⟨result.mapError .failed, store, w.directories, w.files⟩

/-- The device of a root that can be scanned. -/
def rootDevice (path : String) : Tree σ → Except Error UInt64
  | .lost _ => .error (.path (.cannotScan path))
  | .object _ facts _ =>
    if facts.inode.isSome then .ok facts.device
    else .error (.path (.cannotScan path))

def scanVolume (store : Store β) (volume : Volume σ)
    (settings : ScanSettings) (watch : Watch) : WalkRun β :=
  let root : Except Error (Tree σ × UInt64) := do
    let tree ← volume.root
    return (tree, ← rootDevice store.fsPath tree)
  match root with
  | .error e => { outcome := .error (.failed e), store }
  | .ok (tree, device) =>
    match store.beginScan fun _ => volume.summary with
    | (.error e, store) => { outcome := .error (.failed e), store }
    | (.ok (), store) =>
      runWalk store settings watch device tree volume.deviceMap

end DiskAtlas.Scan

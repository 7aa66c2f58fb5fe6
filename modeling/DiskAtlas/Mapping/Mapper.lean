/-
Mapping one inode after the other. A file system is first asked for
extents. If it refuses the very first request for a regular file, every
later regular file is mapped by blocks without asking again; for another
kind of inode a refusal counts for that inode only. Extended attributes
have no blocks of their own to look up, so they are mapped by extents or,
if that is refused, not at all.
-/
import DiskAtlas.Inode
import DiskAtlas.Settings
import DiskAtlas.Mapping.FileWalk
import DiskAtlas.Mapping.BlockWalk
import DiskAtlas.Mapping.Joined

namespace DiskAtlas.Mapping

/-- An inode and what can be asked about it. -/
structure MapTarget (σ : Type) where
  inode : Inode
  file : FileSource σ
  blocks : BlockSource σ

/-- What mapping one inode produced. -/
structure MapOutcome where
  extents : Nat
  xattrExtents : Nat
  usedBlocks : Bool
  deriving Repr, DecidableEq

/-- How the mapping of one inode went: what was asked for, and what the
listener made of the records. -/
structure MapRun (τ : Type) where
  outcome : Except Error MapOutcome
  requests : List FileRequest
  asked : List UInt64
  state : τ

/-- What is remembered from inode to inode. -/
structure Mapper where
  settings : ScanSettings
  /-- A regular file was refused. -/
  refused : Bool := false

namespace Mapper

variable {σ τ : Type}

def requestFlags (m : Mapper) : UInt32 :=
  if m.settings.syncFirst then FileRequest.syncFlag else 0

/-- Is an inode mapped by blocks without asking for extents? -/
def skipsRequests (m : Mapper) (kind : InodeKind) : Bool :=
  m.settings.forceBlocks || (m.refused && kind == .file)

/-- Asks for all extents of an inode, with extra request flags. -/
def readFile (m : Mapper) (target : MapTarget σ) (extra : UInt32) (s : σ) :
    Trace FileRequest RawExtent × σ :=
  let reader : FileReader :=
    { batch := m.settings.fileBatch, flags := m.requestFlags ||| extra }
  reader.run target.file s

/-- Maps an inode by blocks, after some requests for extents. -/
def mapBlocks (m : Mapper) (target : MapTarget σ)
    (take : Bool → RawExtent → τ → Except Error τ)
    (requests : List FileRequest) (s : σ) (state : τ) : MapRun τ :=
  let reader : BlockReader :=
    { fileSize := target.inode.size.getD 0
      mostBlocks := m.settings.maxRunBlocks }
  match (reader.run target.blocks s).1 with
  | .error e => ⟨.error e, requests, [], state⟩
  | .ok (_, trace) =>
    let heard := trace.listen (take false) state
    let outcome :=
      match heard.stopped with
      | some e => .error e
      | none => .ok ⟨heard.taken, 0, true⟩
    ⟨outcome, requests, heard.requests, heard.state⟩

/-- Maps the attributes of an inode after its data. -/
def mapXattrs (m : Mapper) (target : MapTarget σ)
    (take : Bool → RawExtent → τ → Except Error τ)
    (data : Trace.Heard FileRequest τ) (s : σ) : MapRun τ :=
  let (trace, _) := m.readFile target FileRequest.xattrFlag s
  match trace.refusal? with
  | some e =>
    let outcome :=
      if e.isUnsupported then .ok ⟨data.taken, 0, false⟩ else .error e
    ⟨outcome, data.requests ++ trace.requests, [], data.state⟩
  | none =>
    let heard := (join trace).listen (take true) data.state
    let outcome :=
      match heard.stopped with
      | some e => .error e
      | none => .ok ⟨data.taken, heard.taken, false⟩
    ⟨outcome, data.requests ++ heard.requests, [], heard.state⟩

/-- The mapper after the first request for an inode was refused. -/
def noteRefusal (m : Mapper) (kind : InodeKind) : Mapper :=
  { m with refused := m.refused || kind == .file }

/-- Maps an inode and hands every record to `take`, with whether it holds
attributes. An error ends the mapping of this inode; the records that were
taken before it stay taken. -/
def map (m : Mapper) (target : MapTarget σ)
    (take : Bool → RawExtent → τ → Except Error τ) (s : σ) (state : τ) :
    MapRun τ × Mapper :=
  if m.skipsRequests target.inode.kind then
    (m.mapBlocks target take [] s state, m)
  else
    let (trace, s) := m.readFile target 0 s
    match trace.refusal? with
    | some e =>
      if e.isUnsupported then
        let m := m.noteRefusal target.inode.kind
        (m.mapBlocks target take trace.requests s state, m)
      else (⟨.error e, trace.requests, [], state⟩, m)
    | none =>
      let data := (join trace).listen (take false) state
      match data.stopped with
      | some e => (⟨.error e, data.requests, [], data.state⟩, m)
      | none => (m.mapXattrs target take data s, m)

end Mapper

end DiskAtlas.Mapping

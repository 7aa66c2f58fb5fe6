/-
Sources that answer from a list. Each request takes the next page of the
list: an error, or rows that are written into the request as far as there
is room, with a count that need not be their number. When the list is used
up, answers are empty. Blocks are looked up in a table, in which blocks
that are not listed are holes.
-/
import DiskAtlas.Mapping.FileWalk
import DiskAtlas.Mapping.BlockWalk
import DiskAtlas.Mapping.DeviceWalk
import DiskAtlas.Mapping.RequestCode

namespace DiskAtlas.Mapping

/-- One prepared answer. -/
structure Page (α : Type) where
  rows : List α := []
  /-- The count that is written instead of the number of rows. -/
  claimed : Option UInt32 := none
  failure : Option SysError := none
  answerFlags : UInt32 := 1

namespace Page

variable {α : Type}

/-- The count that is written into an answer. -/
def count (p : Page α) : UInt32 :=
  p.claimed.getD (UInt32.ofNat p.rows.length)

/-- The next page of a list; an empty one behind its end. -/
def next : List (Page α) → Page α × List (Page α)
  | [] => ({}, [])
  | p :: rest => (p, rest)

end Page

/-- Answers requests for a file from a list of pages. -/
def answerFile {capacity : Nat} (p : Page RawExtent)
    (b : FileBuffer capacity) : Except Error (FileBuffer capacity) :=
  match p.failure with
  | some e => .error (.ofRequest RequestCode.mapFileName e)
  | none => .ok ((b.fill 0 p.rows).setClaimed p.count)

/-- A file whose extents are answered from a list. -/
def scriptedFile : FileSource (List (Page RawExtent)) where
  answer b pages :=
    let (p, rest) := Page.next pages
    (answerFile p b, rest)

/-- A file with one list for its data and one for its attributes. -/
def scriptedForks :
    FileSource (List (Page RawExtent) × List (Page RawExtent)) where
  answer b s :=
    if b.request.flags &&& FileRequest.xattrFlag != 0 then
      let (p, rest) := Page.next s.2
      (answerFile p b, s.1, rest)
    else
      let (p, rest) := Page.next s.1
      (answerFile p b, rest, s.2)

/-- Answers requests for a device from a list of pages. -/
def answerDevice {capacity : Nat} (p : Page DeviceRecord)
    (b : DeviceBuffer capacity) : Except Error (DeviceBuffer capacity) :=
  match p.failure with
  | some e => .error (.ofRequest RequestCode.mapDeviceName e)
  | none =>
    .ok (((b.fill 0 p.rows).setClaimed p.count).setAnswerFlags p.answerFlags)

/-- A device whose owners are answered from a list. -/
def scriptedDevice : DeviceSource (List (Page DeviceRecord)) where
  answer b pages :=
    let (p, rest) := Page.next pages
    (answerDevice p b, rest)

/-- Reads a device that is answered from a list. Every page answers one
request and the empty answer behind them another one, which is the last. -/
def readScriptedDevice (batch : Nat) (pages : List (Page DeviceRecord)) :
    DeviceMap :=
  (readDevice scriptedDevice batch (pages.length + 1) pages).1

/-- A block size and a table of blocks. -/
structure BlockTable where
  size : Except SysError UInt64 := .ok 4096
  places : List (Except SysError UInt64) := []

namespace BlockTable

def place (t : BlockTable) (block : UInt64) : Except SysError UInt64 :=
  (t.places[block.toNat]?).getD (.ok 0)

def source {σ : Type} (t : BlockTable) : BlockSource σ where
  blockSize s := (t.size.mapError (.ofRequest RequestCode.blockSizeName), s)
  lookup block s :=
    ((t.place block).mapError (.ofRequest RequestCode.lookupBlockName), s)

end BlockTable

end DiskAtlas.Mapping

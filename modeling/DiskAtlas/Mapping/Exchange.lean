/-
What passes between a reader and its source. An `Exchange` is one request
together with what the source made of it, and a source that is recorded
answers as before and keeps every exchange in order. So what a reader asks
for, and how often, can be seen from the outside, whatever the source says.
-/
import DiskAtlas.Mapping.FileWalk
import DiskAtlas.Mapping.DeviceWalk

namespace DiskAtlas.Mapping

/-- What is written in an answer. -/
structure Answer (α : Type) where
  /-- The number of records that it claims to hold. -/
  claimed : UInt32
  /-- All slots that there are, whether they were written or not. -/
  slots : List α
  deriving Repr, DecidableEq

/-- A request and what came of it. -/
structure Exchange (ρ α : Type) where
  request : ρ
  answer : Except Error (Answer α)

variable {α σ : Type}

namespace Answer

/-- The records that an answer holds: as many as it claims, and no more
than there are slots. -/
def held (a : Answer α) : List α :=
  a.slots.take (min a.claimed.toNat a.slots.length)

/-- The records that an answer is good for: those before the first one
that says it is the last, and that one. -/
def shown (isLast : α → Bool) (a : Answer α) : List α :=
  a.held.takeWhile (fun e => !isLast e) ++ (a.held.find? isLast).toList

end Answer

-- ================================================================ files

def FileBuffer.contents {capacity : Nat} (b : FileBuffer capacity) :
    Answer RawExtent :=
  ⟨b.claimed, b.extents⟩

abbrev FileExchange := Exchange FileRequest RawExtent

/-- The source with every exchange kept. -/
def FileSource.recorded (source : FileSource σ) :
    FileSource (σ × List FileExchange) where
  answer b s :=
    let (reply, s') := source.answer b s.1
    (reply, s', s.2 ++ [⟨b.request, reply.map (·.contents)⟩])

-- ============================================================== devices

def DeviceBuffer.contents {capacity : Nat} (b : DeviceBuffer capacity) :
    Answer DeviceRecord :=
  ⟨b.claimed, b.records⟩

/-- The request of an exchange about a device is its low key. -/
abbrev DeviceExchange := Exchange DeviceRecord DeviceRecord

/-- The source with every exchange kept. -/
def DeviceSource.recorded (source : DeviceSource σ) :
    DeviceSource (σ × List DeviceExchange) where
  answer b s :=
    let (reply, s') := source.answer b s.1
    (reply, s', s.2 ++ [⟨b.lowKey, reply.map (·.contents)⟩])

end DiskAtlas.Mapping

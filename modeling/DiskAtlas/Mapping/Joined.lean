/-
Joining neighbours. Records that follow each other without a gap, in the
file and on the device, and carry the same flags, are one stretch; it is
handed out as one record that says it was joined. The mark of the last
record plays no part and is dropped. A record is held back until the next
one is known not to continue it; a failure comes after what was held back.
-/
import DiskAtlas.Extent
import DiskAtlas.Mapping.Trace

namespace DiskAtlas.Mapping

variable {ρ : Type}

/-- A stretch that may still grow, and the flags that continue it. -/
structure Held where
  extent : RawExtent
  flags : Flags
  deriving Repr, DecidableEq

namespace Held

def single (e : RawExtent) : Held :=
  let flags := e.flags.without .last
  ⟨{ e with flags }, flags⟩

def continuedBy (h : Held) (e : RawExtent) : Bool :=
  checkedAdd h.extent.physical h.extent.length == some e.physical
    && checkedAdd h.extent.logical h.extent.length == some e.logical
    && h.flags == e.flags.without .last

/-- The stretch with a record at its end. -/
def grow (h : Held) (e : RawExtent) : Held :=
  { h with
    extent.length := h.extent.length + e.length
    extent.flags := h.extent.flags.union .merged }

end Held

/-- Joins neighbours, with a stretch held back from the records before. -/
def joinFrom (held : Option Held) :
    Trace ρ RawExtent → Trace ρ RawExtent
  | [] => (held.map fun h => Step.give h.extent).toList
  | .ask r :: rest => .ask r :: joinFrom held rest
  | .fail e :: rest =>
    (held.map fun h => Step.give h.extent).toList
      ++ .fail e :: joinFrom none rest
  | .give e :: rest =>
    match held with
    | none => joinFrom (some (.single e)) rest
    | some h =>
      if h.continuedBy e then joinFrom (some (h.grow e)) rest
      else .give h.extent :: joinFrom (some (.single e)) rest

def join (trace : Trace ρ RawExtent) : Trace ρ RawExtent :=
  joinFrom none trace

end DiskAtlas.Mapping

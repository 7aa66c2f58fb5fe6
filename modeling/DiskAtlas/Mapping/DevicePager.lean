/-
Reading the owners of a device a record at a time. The pager keeps the
records of the last answer and asks again only when they are used up and
another one is wanted. The low key of its next request is the last record
that has come, with all of its flags. A listener that first wants to know
whether the device can be mapped at all has the first request made before
the first record is asked for.
-/
import DiskAtlas.Mapping.DeviceWalk

namespace DiskAtlas.Mapping

/-- A device that is being read, with the state of its source. -/
structure DevicePager (σ : Type) where
  state : σ
  capacity : Nat
  /-- The low key of the next request. -/
  low : DeviceRecord := .lowest
  /-- Records that have come and are not handed out yet. -/
  pending : List DeviceRecord := []
  /-- Did the latest answer say that its devices are encoded numbers? -/
  encoded : Bool := false
  /-- Was there a request already? -/
  fetched : Bool := false
  /-- Will there be no other request? -/
  done : Bool := false

variable {σ : Type}

namespace DevicePager

/-- A pager before its first request; there is always room for one
record. -/
def start (batch : Nat) (s : σ) : DevicePager σ where
  state := s
  capacity := max batch 1

/-- Makes the next request and keeps its records. -/
def fetch (source : DeviceSource σ) (p : DevicePager σ) :
    Except Error Unit × DevicePager σ :=
  let p := { p with fetched := true }
  match source.answer (DeviceBuffer.prepare p.capacity p.low .highest)
    p.state with
  | (.error e, s) => (.error e, { p with state := s, done := true })
  | (.ok buffer, s) =>
    let page := cutAfter (·.isLast) buffer.answered
    let pending := p.pending ++ page
    let encoded := buffer.hasEncodedDevices
    match page.getLast? with
    | none => (.ok (), { p with state := s, encoded, done := true })
    | some tail =>
      let done := p.done || tail.isLast
      (.ok (), { p with state := s, low := tail, pending, encoded, done })

/-- Makes the first request now, unless it was made before. -/
def prime (source : DeviceSource σ) (p : DevicePager σ) :
    Except Error Unit × DevicePager σ :=
  if p.fetched || p.done then (.ok (), p) else p.fetch source

/-- Hands out a record that has come, if there is one. -/
def pop (p : DevicePager σ) :
    Option (Except Error DeviceRecord) × DevicePager σ :=
  match p.pending with
  | [] => (none, p)
  | r :: rest => (some (.ok r), { p with pending := rest })

/-- The next record or failure. One request is enough: it brings a record,
or it was the last one. -/
def next (source : DeviceSource σ) (p : DevicePager σ) :
    Option (Except Error DeviceRecord) × DevicePager σ :=
  if p.pending.isEmpty && !p.done then
    match p.fetch source with
    | (.error e, p) => (some (.error e), p)
    | (.ok (), p) => p.pop
  else p.pop

end DevicePager

end DiskAtlas.Mapping

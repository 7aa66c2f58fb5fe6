/-
Reading the extents of a file a record at a time. The pager keeps the
records of the last answer and asks again only when they are used up and
another one is wanted; so a listener that stops early has caused no
request beyond the record it stopped at. A listener that first wants to
know whether the file can be mapped at all has the first request made
before the first record is asked for.
-/
import DiskAtlas.Mapping.FileWalk

namespace DiskAtlas.Mapping

/-- A file that is being read, with the state of its source. -/
structure FilePager (σ : Type) where
  state : σ
  capacity : Nat
  flags : UInt32
  /-- Where the next request begins. -/
  start : UInt64
  stop : UInt64
  /-- Records that have come and are not handed out yet. -/
  pending : List RawExtent := []
  /-- Was there a request already? -/
  fetched : Bool := false
  /-- Will there be no other request? -/
  done : Bool := false

variable {σ : Type}

/-- The reader before its first request. -/
def FileReader.pager (r : FileReader) (s : σ) : FilePager σ where
  state := s
  capacity := max r.batch 1
  flags := r.flags
  start := r.start
  stop := r.stop

namespace FilePager

/-- Makes the next request and keeps its records. -/
def fetch (source : FileSource σ) (p : FilePager σ) :
    Except Error Unit × FilePager σ :=
  let p := { p with fetched := true }
  if p.start < p.stop then
    let request : FileRequest := ⟨p.start, p.stop - p.start, p.flags⟩
    match source.answer (FileBuffer.prepare p.capacity request) p.state with
    | (.error e, s) => (.error e, { p with state := s, done := true })
    | (.ok buffer, s) =>
      let page := cutAfter (·.isLast) buffer.answered
      let pending := p.pending ++ page.map (·.clearLast)
      match nextStart p.start page with
      | none => (.ok (), { p with state := s, pending, done := true })
      | some next => (.ok (), { p with state := s, pending, start := next })
  else (.ok (), { p with done := true })

/-- Makes the first request now, unless it was made before. -/
def prime (source : FileSource σ) (p : FilePager σ) :
    Except Error Unit × FilePager σ :=
  if p.fetched || p.done then (.ok (), p) else p.fetch source

/-- Hands out a record that has come, if there is one. -/
def pop (p : FilePager σ) :
    Option (Except Error RawExtent) × FilePager σ :=
  match p.pending with
  | [] => (none, p)
  | e :: rest => (some (.ok e), { p with pending := rest })

/-- The next record or failure. One request is enough: it brings a record,
or it was the last one. -/
def next (source : FileSource σ) (p : FilePager σ) :
    Option (Except Error RawExtent) × FilePager σ :=
  if p.pending.isEmpty && !p.done then
    match p.fetch source with
    | (.error e, p) => (some (.error e), p)
    | (.ok (), p) => p.pop
  else p.pop

end FilePager

end DiskAtlas.Mapping

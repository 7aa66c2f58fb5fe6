/-
Reading the extents of a file. Each request begins where the last record
of the answer before it ended. The walk ends with the first record that is
marked as the last, with an empty answer, with an error, at the end of the
stretch asked for, and also when an answer leads nowhere: a source that
does not get past the start of its own request is not asked again. So the
starts of the requests grow, and the walk ends whatever the source says.
-/
import DiskAtlas.Mapping.FileRequest
import DiskAtlas.Mapping.Trace

namespace DiskAtlas.Mapping

/-- Something that answers requests for the extents of a file. Its state
may change with every answer. -/
structure FileSource (σ : Type) where
  answer : {capacity : Nat} → FileBuffer capacity → σ →
    Except Error (FileBuffer capacity) × σ

variable {σ : Type}

/-- Where the request after a page begins, if there is one: behind the
last record of the page, which must lie past the start of the page's own
request and must not be marked as the last one. -/
def nextStart (start : UInt64) (page : List RawExtent) : Option UInt64 :=
  match page.getLast? with
  | none => none
  | some tail =>
    if tail.isLast then none
    else if start < tail.nextLogical then some tail.nextLogical
    else none

theorem lt_of_nextStart {start next : UInt64} {page : List RawExtent}
    (h : nextStart start page = some next) : start < next := by
  unfold nextStart at h
  split at h
  · cases h
  · split at h
    · cases h
    · split at h
      · cases h
        assumption
      · cases h

/-- Reads the extents from `start` to `stop`, with requests that have room
for `capacity` records. -/
def walkFile (source : FileSource σ) (capacity : Nat) (flags : UInt32)
    (start stop : UInt64) (s : σ) : Trace FileRequest RawExtent × σ :=
  if hstart : start < stop then
    let request : FileRequest := ⟨start, stop - start, flags⟩
    match source.answer (FileBuffer.prepare capacity request) s with
    | (.error e, s) => ([.ask request, .fail e], s)
    | (.ok buffer, s) =>
      let page := cutAfter (·.isLast) buffer.answered
      let given := page.map fun e => Step.give e.clearLast
      match hnext : nextStart start page with
      | none => (.ask request :: given, s)
      | some next =>
        have := UInt64.lt_iff_toNat_lt.1 hstart
        have := UInt64.lt_iff_toNat_lt.1 (lt_of_nextStart hnext)
        let (more, s) := walkFile source capacity flags next stop s
        (.ask request :: (given ++ more), s)
  else ([], s)
termination_by stop.toNat - start.toNat

/-- What a reader of a file can choose. -/
structure FileReader where
  batch : Nat := 512
  flags : UInt32 := 0
  start : UInt64 := 0
  stop : UInt64 := maxWord

namespace FileReader

/-- Reads only `length` bytes from `start` on. -/
def onRange (r : FileReader) (start length : UInt64) : FileReader :=
  { r with start, stop := satAdd start length }

/-- Reads a file; there is always room for one record. -/
def run (r : FileReader) (source : FileSource σ) (s : σ) :
    Trace FileRequest RawExtent × σ :=
  walkFile source (max r.batch 1) r.flags r.start r.stop s

end FileReader

end DiskAtlas.Mapping

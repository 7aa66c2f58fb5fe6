/-
The life of a store on its backend, step by step. Between two runs of the
program nothing but the backend is there. A store that is open is either
at rest, with overviews that are being counted and inode queries that are
being answered, or a scan is filling it. A step is one call on the store,
the scan, a count or a query; any save on the way may fail, the store may
be closed and opened again by another handle on the same place, and the
program may end at any time without closing anything.
-/
import DiskAtlas.Overview.Scan
import DiskAtlas.Query.Rows
import DiskAtlas.Scan.FreeSpace
import DiskAtlas.Proofs.Store.Saving

namespace DiskAtlas.Life

variable {β : Type}

-- ============================================================== at rest

/-- A store at rest and what was begun on it and not finished. -/
structure Desk (β : Type) where
  store : Store β
  counts : List Overview.Scan := []
  queries : List Query.InodeRows := []

/-- What can be done with a store at rest. Counts and queries are known by
their places in the lists. -/
inductive Use where
  | stats (ino : Int64)
  | overview (calledOff : Nat → Bool) (cells : UInt64) (force : Bool)
  | beginCount (cells : UInt64)
  | countOn (place batch : Nat)
  | finishCount (place : Nat)
  | dropCount (place : Nat)
  | beginQuery (context : QueryContext) (filter : InodeFilter)
  | nextRow (place : Nat)
  | nextPage (place : Nat)
  | dropQuery (place : Nat)
  | clearCalculated
  | clearOverviews
  | flush

/-- What a use makes of a desk. What it refuses changes nothing. -/
def Desk.after [Backend β] (d : Desk β) : Use → Desk β
  | .stats ino => { d with store := (d.store.inodeStats ino).2 }
  | .overview calledOff cells force =>
    { d with store := (d.store.overviewUnless calledOff cells force).2 }
  | .beginCount cells =>
    match d.store.overviewScan cells with
    | .error _ => d
    | .ok scan => { d with counts := d.counts ++ [scan] }
  | .countOn place batch =>
    match d.counts[place]? with
    | none => d
    | some scan =>
      let scan := scan.step d.store.tables.extents batch
      { d with counts := d.counts.set place scan }
  | .finishCount place =>
    match d.counts[place]? with
    | none => d
    | some scan =>
      { d with store := (d.store.finishOverview scan).2
               counts := d.counts.eraseIdx place }
  | .dropCount place => { d with counts := d.counts.eraseIdx place }
  | .beginQuery context filter =>
    match Query.inodes d.store context filter with
    | .error _ => d
    | .ok rows => { d with queries := d.queries ++ [rows] }
  | .nextRow place =>
    match d.queries[place]? with
    | none => d
    | some rows =>
      let (_, cursor, store) := rows.cursor.next rows.look d.store
      { d with store, queries := d.queries.set place { rows with cursor } }
  | .nextPage place =>
    match d.queries[place]? with
    | none => d
    | some rows =>
      let (_, cursor, store) := rows.cursor.nextPage rows.look d.store
      { d with store, queries := d.queries.set place { rows with cursor } }
  | .dropQuery place => { d with queries := d.queries.eraseIdx place }
  | .clearCalculated => { d with store := d.store.clearCalculated.2 }
  | .clearOverviews => { d with store := d.store.clearOverviews.2 }
  | .flush => { d with store := d.store.flush.2 }

-- =============================================================== filling

/-- A call that puts rows into a scan. -/
inductive Call where
  | inode (row : Inode) (path : String)
  | directory (parent : Int64) (names : List (String × Int64))
  | extent (row : Inode) (raw : RawExtent) (isXattr : Bool)
  | device (wanted : Option UInt64) (map : Mapping.DeviceMap)
      (calledOff : Nat → Bool)

/-- The scan after a call. A call that fails puts in what it puts in. -/
def Call.put (x : Session β) : Call → Session β
  | .inode row path => (x.insertInode row path).2
  | .directory parent names => x.insertDirectory parent names
  | .extent row raw isXattr => (x.insertExtent row raw isXattr).2
  | .device wanted map calledOff =>
    (Scan.ingestDevice x wanted map calledOff).2

-- ================================================================= steps

/-- How far a store has come in its life. -/
inductive Phase (β : Type) where
  | closed (backend : β)
  | resting (desk : Desk β)
  | scanning (session : Session β)

/-- The place where the tables are saved. -/
def Phase.backend : Phase β → β
  | .closed backend => backend
  | .resting desk => desk.store.backend
  | .scanning session => session.store.backend

/-- What happens to a store. -/
inductive Event where
  | opened (fsPath : String)
  | closed
  /-- The program ended without closing anything. -/
  | crashed
  | used (use : Use)
  | begun (fsPath : String) (summary : Summary)
  /-- A scan could not be begun. -/
  | refused (summary : Summary)
  | put (call : Call)
  | checkpointed
  /-- A scan was given up. -/
  | abandoned
  | finished

open LawfulBackend (held)

variable [Backend β] [LawfulBackend β]

/-- One step of a store's life. Counts and queries end when the store is
closed or scanned. -/
inductive Step : Phase β → Event → Phase β → Prop where
  | opens {b b' : β} {fsPath : String} {s : Store β}
      (same : held b' = held b) (loaded : Store.opened b' fsPath = .ok s) :
      Step (.closed b) (.opened fsPath) (.resting { store := s })
  | closes {d : Desk β} :
      Step (.resting d) .closed (.closed d.store.close)
  | crashes {p : Phase β} : Step p .crashed (.closed p.backend)
  | uses {d : Desk β} (use : Use) :
      Step (.resting d) (.used use) (.resting (d.after use))
  | begins {d : Desk β} {summary : Summary} {s : Store β}
      (saved : d.store.beginScanWith summary = (.ok (), s)) :
      Step (.resting d) (.begun d.store.fsPath summary)
        (.scanning { store := s })
  | refuses {d : Desk β} {summary : Summary} {e : Error} {s : Store β}
      (failed : d.store.beginScanWith summary = (.error e, s)) :
      Step (.resting d) (.refused summary) (.resting { store := s })
  | puts {x : Session β} (call : Call) :
      Step (.scanning x) (.put call) (.scanning (call.put x))
  | checkpoints {x : Session β} :
      Step (.scanning x) .checkpointed (.scanning x.checkpoint.2)
  | abandons {x : Session β} :
      Step (.scanning x) .abandoned (.resting { store := x.store })
  | finishes {x : Session β} :
      Step (.scanning x) .finished (.resting { store := x.finish.2 })

/-- A part of a store's life, with what happened in it. -/
inductive Run : Phase β → List Event → Phase β → Prop where
  | start (p : Phase β) : Run p [] p
  | step {p q r : Phase β} {events : List Event} {event : Event}
      (run : Run p events q) (last : Step q event r) :
      Run p (events ++ [event]) r

/-- A place where nothing was saved yet. -/
def Blank (b : β) : Prop := held b = none

end DiskAtlas.Life

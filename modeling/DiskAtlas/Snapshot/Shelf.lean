/-
Several stores on one disk. Each open store stands in a slot of its own.
Whatever is done with one of them is done on the disk as the others have
left it.
-/
import DiskAtlas.Snapshot.File

namespace DiskAtlas.Snapshot

/-- A disk and the stores that are open on it. -/
structure Shelf where
  disk : Disk
  slots : SortedMap String (Store OpenFile) := .empty

namespace Shelf

variable [Packer]

/-- The store with the disk in its present state. -/
def onDisk (s : Shelf) (store : Store OpenFile) : Store OpenFile :=
  { store with backend := { store.backend with disk := s.disk } }

/-- Closes the store in a slot, if there is one. -/
def close (s : Shelf) (slot : String) : Bool × Shelf :=
  match s.slots.get? slot with
  | none => (false, s)
  | some store =>
    let disk := (s.onDisk store).close.release
    (true, { disk, slots := s.slots.erase slot })

/-- Opens a store in a slot and closes the one that was in it. If that
fails, the slot keeps its store. The result is the path of the file. -/
def openStore (s : Shelf) (slot path fsPath : String) (access : Access) :
    Except Error String × Shelf :=
  match OpenFile.acquire s.disk path access with
  | (.error e, disk) => (.error e, { s with disk })
  | (.ok file, disk) =>
    match Store.opened file fsPath with
    | .error e => (.error e, { s with disk := file.release })
    | .ok store =>
      let s := ({ s with disk }.close slot).2
      (.ok (Disk.trimmedPath path),
        { s with slots := s.slots.insert slot store })

/-- Does something with the store in a slot; nothing happens if there is
none. -/
def withStore {α : Type} (s : Shelf) (slot : String)
    (f : Store OpenFile → α × Store OpenFile) : Option α × Shelf :=
  match s.slots.get? slot with
  | none => (none, s)
  | some store =>
    let (a, store) := f (s.onDisk store)
    (some a, { disk := store.backend.disk
               slots := s.slots.insert slot store })

end Shelf

end DiskAtlas.Snapshot

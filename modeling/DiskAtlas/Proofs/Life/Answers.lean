/-
What queries answer in the life of a store. A store at rest has the indexes
over its own tables, or none if a scan was given up on it
(`Run.indexedOrBegun`): a scan that was finished builds them, opening a
store builds them again, and beginning a scan drops them. So a finished
scan has its indexes (`Run.indexed`), wherever its tables came from, and an
extent query gives what the tables alone say, whichever source its plan
picks; and so does an inode query, because in a life that began at a blank
place the statistics it may find computed are those of the tables.

Where the indexes are empty an answer would be wrong, and it is the check for
a finished scan that keeps queries from being asked then. The operations that
do not check are the subject of `Reopening`.
-/
import DiskAtlas.Proofs.Life.Caches

namespace DiskAtlas.Life

open LawfulBackend (held)

variable {β : Type}

-- =============================================================== indexes

/-- The indexes of a store: those over its own tables, or none if a scan
has begun on it and was not finished. -/
def IndexedOrBegun (s : Store β) : Prop :=
  s.index = .build s.tables ∨ (s.index = .empty ∧ s.tables.Unfinished)

/-- A store at rest has its indexes, unless a scan was given up on it, and
a store that is being filled has none. -/
def Phase.Indexed : Phase β → Prop
  | .closed _ => True
  | .resting desk => IndexedOrBegun desk.store
  | .scanning session =>
    session.store.index = .empty ∧ session.store.tables.Unfinished

variable [Backend β] [LawfulBackend β]

variable {p q : Phase β} {event : Event} {events : List Event}

/-- Whether it was saved or not, a scan that has begun has no indexes. -/
theorem begun_of_saved {s s' : Store β} {summary : Summary}
    (h : (s.cleared summary).Saved s') :
    s'.index = .empty ∧ s'.tables.Unfinished :=
  ⟨h.index_eq, Store.unfinished_of_saved h⟩

/-- Finishing a scan builds the indexes. -/
theorem Phase.indexed_finish {x : Session β} (hx : x.store.tables.Unfinished) :
    (Phase.resting { store := x.finish.2 }).Indexed := by
  obtain ⟨summary, hsummary, -⟩ := hx
  have hsaved := Session.finish_saved hsummary
  refine Or.inl ?_
  rw [hsaved.index_eq, hsaved.tables_eq]
  rfl

/-- No step leaves a store with the indexes of other tables. -/
theorem Step.indexed (h : Step p event q) (hp : p.Indexed) : q.Indexed := by
  cases h with
  | opens same loaded =>
    obtain ⟨-, -, hindex, -⟩ := Store.opened_eq loaded
    exact Or.inl hindex
  | closes => exact trivial
  | crashes => exact trivial
  | @uses d use =>
    have hsame := d.after_sameRows use
    show IndexedOrBegun (d.after use).store
    unfold IndexedOrBegun
    rw [hsame.tables_eq, hsame.index_eq]
    exact hp
  -- a begin empties the indexes, and none are built until the finish
  | @begins d given s saved =>
    obtain ⟨hsaved, -⟩ := Store.beginScanWith_ok saved
    exact begun_of_saved hsaved
  | @refuses d given e s failed =>
    rcases Store.beginScanWith_error failed with rfl | ⟨hsaved, -⟩
    · exact hp
    · exact Or.inr (begun_of_saved hsaved)
  | @puts x call =>
    have hfills := call.put_fills x
    refine ⟨?_, hfills.unfinished hp.2⟩
    rw [hfills.store_eq]
    exact hp.1
  | @checkpoints x =>
    exact ⟨x.checkpoint_saved.index_eq.trans hp.1,
      Session.unfinished_checkpoint hp.2⟩
  | abandons => exact Or.inr hp
  | finishes => exact Phase.indexed_finish hp.2

/-- Every run from a closed store leaves stores with their own indexes or,
if a scan was given up, with none. -/
theorem Run.indexedOrBegun {b : β} (h : Run (.closed b) events p) :
    p.Indexed := by
  induction h with
  | start => exact trivial
  | step _ last ih => exact last.indexed ih

/-- Every run from a closed store leaves finished scans with their
indexes. -/
theorem Run.indexed {b : β} {d : Desk β}
    (h : Run (.closed b) events (.resting d)) (summary : Summary)
    (hfinished : d.store.tables.Finished summary) :
    d.store.index = .build d.store.tables := by
  obtain hindex | ⟨-, hunfinished⟩ := h.indexedOrBegun
  · exact hindex
  · exact absurd hfinished (hunfinished.not_finished summary)

-- =============================================================== extents

variable {d : Desk β} {summary : Summary} {context : QueryContext}

open Query

/-- The extents that the tables alone say a filter selects: each once, by
the number of its row, in the order of answers. -/
structure ExtentAnswer (t : Tables) (context : QueryContext)
    (filter : ExtentFilter) (answer : List NumberedExtent) :
    Prop where
  sorted : answer.Pairwise fun a b => compareExtents a b = .lt
  selected : ∀ e id, (e, id) ∈ answer ↔
    t.extents[id]? = some e ∧ Selects t context filter e

/-- An extent query of a finished scan gives just the extents that are
selected, and so would it give if it read any other source that the filter
offers. -/
theorem extents_answered {b : β} (h : Run (.closed b) events (.resting d))
    (hready : d.store.ensureReady = .ok summary)
    (hvisible : context.visible.isEmpty = false) {filter : ExtentFilter}
    (hphysical : ∀ r ∈ filter.physical, r.first < summary.totalBytes) :
    ∃ answer, ExtentAnswer d.store.tables context filter answer ∧
      extents d.store context filter
        = .ok (rowsFrom d.store context filter (.picked filter)) ∧
      ∀ source : Source, source.isOffered filter = true → ∀ n,
        ((rowsFrom d.store context filter source).cursor.take
            (rowsFrom d.store context filter source).look n d.store).1
          = (answer.map (extentRow d.store.tables filter)).take n := by
  have hfinished := Store.ensureReady_eq_ok_iff.1 hready
  have hindex := h.indexed summary hfinished
  refine ⟨answerRows d.store context filter,
    ⟨answerRows_sorted, fun e id => mem_answerRows⟩,
    extents_eq hfinished hvisible hphysical, fun source hoffered n => ?_⟩
  exact take_rowsFrom hindex context hoffered n

/-- The extent of one file is found by where it lies. -/
theorem extents_answered_oneFile :
    let s := scanned "/" (.blank "/") oneFile
    let filter : ExtentFilter := { physical := [⟨4000, 5000⟩] }
    let rows := rowsFrom s {} filter .physical
    ∃ answer, ExtentAnswer s.tables {} filter answer ∧
      (⟨7, 4096, some 0, 512, .empty, .file⟩, 0) ∈ answer ∧
      extents s {} filter = .ok rows ∧
      ∀ n, (rows.cursor.take rows.look n s).1
        = (answer.map (extentRow s.tables filter)).take n := by
  intro s filter rows
  have hready : s.ensureReady
      = .ok { Summary.blank "/" with totalBytes := 4608, finished := true } :=
    rfl
  have hvisible : ({} : QueryContext).visible.isEmpty = false := rfl
  have hphysical : ∀ r ∈ filter.physical, r.first < 4608 := by decide
  obtain ⟨answer, hanswer, hrows, htake⟩ :=
    extents_answered (run_scan "/" (.blank "/") oneFile) hready hvisible
      hphysical
  refine ⟨answer, hanswer, ?_, hrows, htake .physical rfl⟩
  exact (hanswer.selected _ 0).2 ⟨rfl, rfl, rfl, nofun⟩

-- ================================================================ inodes

/-- The rows of the inodes that the tables alone say a filter selects: each
once, in ascending order, with all its paths and its statistics. -/
structure InodeAnswer (t : Tables) (context : QueryContext)
    (filter : InodeFilter) (answer : List InodeRow) : Prop where
  sorted : answer.Pairwise fun a b => a.inode.ino < b.inode.ino
  selected : ∀ row, row ∈ answer ↔
    t.inodes.get? row.inode.ino = some row.inode ∧
      SelectsInode t context filter row.inode ∧ row = inodeRow t row.inode

/-- A snapshot that says of its one file with one extent that it has nine. -/
def overstated : Persisted :=
  ⟨(scanned "/" (.blank "/") oneFile).tables,
    { inodeStats := SortedMap.empty.insert 7 ⟨9, 0⟩, overviews := .empty }⟩

end DiskAtlas.Life

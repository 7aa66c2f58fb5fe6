/-
What steps do to rows. A use of a store at rest changes none
(`Desk.after_sameRows`): it computes, drops what was computed, or saves.
A call on a scan puts rows in and does nothing else (`Call.put_fills`), and
which rows does not depend on the store (`Call.within_put`). So what a scan
of some calls leaves is the same everywhere (`filled`), and in a new place
every such scan can be made (`run_scan`).

Calls commute with moving a session to another store, and this is what makes a
scan a function of its calls. Without it every statement about a scan would
have to name the store that it fills.
-/
import DiskAtlas.Proofs.Life.Step
import DiskAtlas.Proofs.Query.Inodes
import DiskAtlas.Proofs.Scan.Filling

namespace DiskAtlas

open LawfulBackend (held)

variable {α β : Type}

/-- A scan that has begun is unfinished. -/
theorem Store.unfinished_cleared (s : Store β) (summary : Summary) :
    (s.cleared summary).tables.Unfinished :=
  ⟨_, rfl, rfl⟩

section Saving

variable [Backend β] [LawfulBackend β]

/-- Whether it was saved or not, a scan that has begun is unfinished. -/
theorem Store.unfinished_of_saved {s s' : Store β} {summary : Summary}
    (h : (s.cleared summary).Saved s') : s'.tables.Unfinished := by
  rw [h.tables_eq]
  exact s.unfinished_cleared summary

/-- A scan is unfinished after a checkpoint. -/
theorem Session.unfinished_checkpoint {x : Session β}
    (hx : x.store.tables.Unfinished) :
    x.checkpoint.2.store.tables.Unfinished := by
  rw [x.checkpoint_saved.tables_eq]
  exact hx

theorem Store.Alike.sameRows {s s' : Store β} (h : s.Alike s') :
    s.SameRows s' :=
  ⟨h.fsPath_eq, h.tables_eq, h.index_eq,
    Or.inl (congrArg held h.backend_eq)⟩

end Saving

-- ============================================================= computing

/-- Looking at an inode computes and does nothing else. -/
theorem Query.lookInode_alike (filter : InodeFilter) (ino : Int64)
    (s : Store β) : s.Alike (lookInode filter ino s).2 := by
  unfold lookInode
  split
  · exact .refl s
  · split
    · dsimp only
      split
      · exact s.statsFor_alike _
      · exact s.statsFor_alike _
    · exact .refl s

/-- Asking an inode query for rows computes and does nothing else. -/
theorem Query.fill_alike (rows : InodeRows) (s : Store β) :
    s.Alike (rows.cursor.fill rows.look s).2 :=
  rows.cursor.fill_keeps rows.look
    (fun ino s' h => h.trans (lookInode_alike rows.filter ino s')) (.refl s)

namespace Life

-- ================================================================== uses

/-- What a use can do to the store: to compute, to drop some of what was
computed, or to save. -/
theorem Desk.after_cases [Backend β] (d : Desk β) (use : Use) :
    d.store.Alike (d.after use).store ∨
      (∃ keep, (d.after use).store = (d.store.dropCalculated keep).2) ∨
      (d.after use).store = d.store.flush.2 := by
  cases use with
  | stats ino => exact .inl (d.store.inodeStats_alike ino)
  | overview calledOff cells force =>
    exact .inl (d.store.overviewUnless_alike calledOff cells force)
  | beginCount cells =>
    left
    dsimp only [after]
    split
    · exact .refl _
    · exact .refl _
  | countOn place batch =>
    left
    dsimp only [after]
    split
    · exact .refl _
    · exact .refl _
  | finishCount place =>
    left
    dsimp only [after]
    split
    · exact .refl _
    · next scan _ => exact d.store.finishOverview_alike scan
  | dropCount place => exact .inl (.refl _)
  | beginQuery context filter =>
    left
    dsimp only [after]
    split
    · exact .refl _
    · exact .refl _
  | nextRow place =>
    left
    dsimp only [after]
    split
    · exact .refl _
    · next rows _ => exact Query.fill_alike rows d.store
  | nextPage place =>
    left
    dsimp only [after]
    split
    · exact .refl _
    · next rows _ => exact Query.fill_alike rows d.store
  | dropQuery place => exact .inl (.refl _)
  | clearCalculated => exact .inr (.inl ⟨_, rfl⟩)
  | clearOverviews => exact .inr (.inl ⟨_, rfl⟩)
  | flush => exact .inr (.inr rfl)

/-- Whatever is done with a store at rest, its rows stay. -/
theorem Desk.after_sameRows [Backend β] [LawfulBackend β] (d : Desk β)
    (use : Use) : d.store.SameRows (d.after use).store := by
  obtain hcomputed | ⟨keep, hdropped⟩ | hsaved := d.after_cases use
  · exact hcomputed.sameRows
  · rw [hdropped]
    exact d.store.dropCalculated_sameRows keep
  · rw [hsaved]
    exact d.store.flush_saved.sameRows

-- ================================================================= calls

/-- How many extents a call offers. -/
def Call.offers (x : Session β) : Call → Nat
  | .inode _ _ | .directory _ _ => 0
  | .extent _ _ _ => 1
  | .device wanted map calledOff => Scan.deviceOffers x wanted map calledOff

/-- A call fills the session. -/
theorem Call.put_fills (call : Call) (x : Session β) :
    x.Fills (call.offers x) (call.put x) := by
  cases call with
  | inode row path => exact Session.insertInode_fills x row path
  | directory parent names => exact (Session.Fills.refl x).directory _ _
  | extent row raw isXattr => exact Session.insertExtent_fills x _ _ _
  | device wanted map calledOff => exact Scan.ingestDevice_fills x _ _ _

/-- How many extents some calls offer, one after the other. -/
def Call.offersAll : List Call → Session β → Nat
  | [], _ => 0
  | call :: rest, x => call.offers x + offersAll rest (call.put x)

/-- Calls fill the session one after the other. -/
theorem Call.puts_fills (calls : List Call) (x : Session β) :
    x.Fills (offersAll calls x) (calls.foldl (fun x call => call.put x) x) := by
  induction calls generalizing x with
  | nil => exact .refl x
  | cons call rest ih => exact (call.put_fills x).trans (ih _)

/-- A call puts the same rows into another store. -/
theorem Call.within_put (call : Call) (x : Session α) (s : Store β) :
    call.put (x.within s) = (call.put x).within s := by
  cases call with
  | inode row path => simp only [put, Session.within_insertInode]
  | directory parent names => rfl
  | extent row raw isXattr => exact Session.within_insertExtent _ _ _
  | device wanted map calledOff => exact Scan.within_ingestDevice x s _ _ _

/-- Scans with the same rows have the same rows after a call. -/
theorem Call.eq_within_put {x : Session α} {y : Session β}
    (h : y = x.within y.store) (call : Call) :
    call.put y = (call.put x).within (call.put y).store := by
  have hput : call.put y = (call.put x).within y.store := by
    rw [← call.within_put, ← h]
  rw [(call.put_fills y).store_eq]
  exact hput

-- ================================================================= scans

/-- A scan of a file system from which nothing was read yet, on no backend
at all. -/
def blankScan (fsPath : String) (given : Summary) : Session Unit :=
  { store :=
      { backend := ()
        fsPath
        tables := { Tables.empty with
          summary := some { given with path := fsPath, finished := false } }
        index := .empty
        calculated := .empty
        dirty := false } }

/-- The scan after some calls, and nothing else. -/
def filled (fsPath : String) (given : Summary) (calls : List Call) :
    Session Unit :=
  calls.foldl (fun x call => call.put x) (blankScan fsPath given)

theorem filled_snoc (fsPath : String) (given : Summary) (calls : List Call)
    (call : Call) :
    filled fsPath given (calls ++ [call])
      = call.put (filled fsPath given calls) := by
  rw [filled, List.foldl_append]
  rfl

/-- A scan that is being filled has the facts it began with. -/
theorem summary_filled (fsPath : String) (given : Summary)
    (calls : List Call) :
    (filled fsPath given calls).summary
      = some { given with path := fsPath, finished := false } := by
  exact (Call.puts_fills calls (blankScan fsPath given)).summary_eq

/-- Calls do not finish a scan. -/
theorem unfinished_filled (fsPath : String) (given : Summary)
    (calls : List Call) :
    (filled fsPath given calls).store.tables.Unfinished :=
  ⟨_, summary_filled fsPath given calls, rfl⟩

-- ================================================================ places

/-- A store in a new place in memory whose scan has begun. -/
def begun (fsPath : String) (given : Summary) : Store Vault :=
  let opened : Store Vault :=
    { backend := {}, fsPath, tables := .empty, index := .build .empty,
      calculated := .empty, dirty := false }
  (opened.beginScanWith given).2

/-- A store in a new place in memory after a scan. -/
def scanned (fsPath : String) (given : Summary) (calls : List Call) :
    Store Vault :=
  ((filled fsPath given calls).within (begun fsPath given)).finish.2

/-- The events of a scan in a new place. -/
def fillingOf (fsPath : String) (given : Summary) (calls : List Call) :
    List Event :=
  [.opened fsPath, .begun fsPath given] ++ calls.map .put

/-- Calls can be made one after the other. -/
theorem Run.puts [Backend β] [LawfulBackend β] {p : Phase β}
    {events : List Event} {x : Session α} {s : Store β}
    (h : Run p events (.scanning (x.within s))) (calls : List Call) :
    Run p (events ++ calls.map .put)
      (.scanning ((calls.foldl (fun x call => call.put x) x).within s)) := by
  induction calls generalizing events x with
  | nil => simpa using h
  | cons call rest ih =>
    have hput := h.step (.puts call)
    rw [call.within_put] at hput
    simpa using ih hput

/-- Whatever the calls are, they can be made in a new place. -/
theorem run_filling (fsPath : String) (given : Summary)
    (calls : List Call) :
    Run (.closed {}) (fillingOf fsPath given calls)
      (.scanning ((filled fsPath given calls).within (begun fsPath given))) := by
  have hopened : Run (.closed ({} : Vault)) [.opened fsPath]
      (.resting { store := _ }) :=
    (Run.start _).step (.opens rfl rfl)
  exact Run.puts (x := blankScan fsPath given)
    (hopened.step (.begins rfl)) calls

/-- Whatever the calls are, a scan can be made in a new place and be
finished. -/
theorem run_scan (fsPath : String) (given : Summary) (calls : List Call) :
    Run (.closed {}) (fillingOf fsPath given calls ++ [.finished])
      (.resting { store := scanned fsPath given calls }) :=
  (run_filling fsPath given calls).step .finishes

/-- The calls of a scan that finds one file with one extent. -/
def oneFile : List Call :=
  [.inode (.bare 7 .file) "/a",
    .extent (.bare 7 .file) ⟨0, 4096, 512, .empty⟩ false]

end Life

end DiskAtlas

/-
Reopening. A store that is opened on what another one has saved has the
same tables and builds the indexes over them. Everything that is answered
from the tables, and every query, which waits for a finished scan, is
answered the same by both (`SameAnswers`). What only the indexes lead to,
the paths and the extents of an inode (`SameOwners`), is the same too as
long as the store that stayed open has its indexes. It has none if a scan
was given up on it, and then it says of no inode that it has a path or an
extent, while the store that was opened again knows them all
(`reopened_answers`, `reopened_knows_more`).
-/
import DiskAtlas.Proofs.Life.Answers
import DiskAtlas.Proofs.Query.Asking

namespace DiskAtlas

variable {β γ : Type}

-- =============================================================== answers

namespace Query

/-- What is told of an extent query, question by question. -/
def toldOfExtents (s : Store β) (context : QueryContext)
    (filter : ExtentFilter) (questions : List Question) :
    Except Error (List (List ExtentRow)) :=
  (extents s context filter).map fun rows =>
    rows.cursor.told rows.look questions s

/-- What is told of an inode query, question by question. -/
def toldOfInodes (s : Store β) (context : QueryContext)
    (filter : InodeFilter) (questions : List Question) :
    Except Error (List (List InodeRow)) :=
  (inodes s context filter).map fun rows =>
    rows.cursor.told rows.look questions s

end Query

namespace Store

/-- Two stores that say the same of their tables and answer queries the
same, however these are asked. -/
structure SameAnswers (s : Store β) (s' : Store γ) : Prop where
  inode : ∀ ino, s'.inode ino = s.inode ino
  inodes : s'.inodes = s.inodes
  lookupPath : ∀ path, s'.lookupPath path = s.lookupPath path
  listDirectory : ∀ ino, s'.listDirectory ino = s.listDirectory ino
  extentCount : s'.tables.extents.size = s.tables.extents.size
  isStale : s'.isStale = s.isStale
  report : s'.report = s.report
  toldOfExtents : ∀ context filter questions,
    Query.toldOfExtents s' context filter questions
      = Query.toldOfExtents s context filter questions
  toldOfInodes : ∀ context filter questions,
    Query.toldOfInodes s' context filter questions
      = Query.toldOfInodes s context filter questions

/-- Two stores that say the same of what belongs to an inode. -/
structure SameOwners (s : Store β) (s' : Store γ) : Prop where
  pathsOf : ∀ ino, s'.pathsOf ino = s.pathsOf ino
  extentsOf : ∀ ino, s'.extentsOf ino = s.extentsOf ino

/-- Two stores that give the same rows, the same statistics and the same
overviews. -/
structure SameFigures (s : Store β) (s' : Store γ) : Prop where
  answers : s.SameAnswers s'
  owners : s.SameOwners s'
  stats : ∀ ino, (s'.inodeStats ino).1 = (s.inodeStats ino).1
  overview : ∀ cells force,
    (s'.overview cells force).1 = (s.overview cells force).1

end Store

-- ============================================================= agreement

section Agreement

variable {s : Store β} {s' : Store γ}

/-- Stores with the same tables are ready for the same reasons. -/
theorem Store.ensureReady_congr (htables : s'.tables = s.tables) :
    s'.ensureReady = s.ensureReady := by
  unfold ensureReady
  rw [htables]

/-- Indexes lead to the same owners if they are the same. -/
theorem Store.sameOwners_of_index (htables : s'.tables = s.tables)
    (hindex : s'.index = s.index) : s.SameOwners s' := by
  refine ⟨fun ino => ?_, fun ino => ?_⟩
  · rw [Store.pathsOf, Store.pathsOf, hindex]
  · unfold Store.extentsOf Store.extentsAt
    rw [hindex, htables]

/-- A store without indexes says of no inode that it has a path or an
extent. -/
theorem Store.owners_of_none (h : s.index = .empty) (ino : Int64) :
    s.pathsOf ino = [] ∧ s.extentsOf ino = [] := by
  unfold Store.pathsOf Store.extentsOf
  rw [h]
  exact ⟨rfl, rfl⟩

/-- What has to be the same besides the tables, once a scan is finished. -/
def SameOnceFinished (s : Store β) (s' : Store γ) : Prop :=
  ∀ summary, s.tables.Finished summary → s'.index = s.index

theorem Store.report_congr (htables : s'.tables = s.tables)
    (hindex : SameOnceFinished s s') : s'.report = s.report := by
  unfold Store.report
  rw [ensureReady_congr htables]
  cases hready : s.ensureReady with
  | error e => rfl
  | ok summary =>
    rw [htables, hindex summary (ensureReady_eq_ok_iff.1 hready)]

namespace Query

/-- What is a candidate is read from the tables and the indexes. -/
theorem candidates_congr (htables : s'.tables = s.tables)
    (hindex : s'.index = s.index) (context : QueryContext)
    (filter : ExtentFilter) (inodeFilter : InodeFilter) :
    pathInodes s' filter.paths = pathInodes s filter.paths ∧
      candidates s' filter = candidates s filter ∧
      inodeCandidates s' context inodeFilter
        = inodeCandidates s context inodeFilter := by
  obtain ⟨backend, fsPath, tables, index, calculated, dirty⟩ := s
  obtain ⟨backend', fsPath', tables', index', calculated', dirty'⟩ := s'
  obtain rfl : tables' = tables := htables
  obtain rfl : index' = index := hindex
  exact ⟨rfl, rfl, rfl⟩

/-- A candidate is answered from the tables and the indexes. -/
theorem lookExtent_congr (htables : s'.tables = s.tables)
    (hindex : s'.index = s.index) {context : QueryContext}
    {filter : ExtentFilter} {inodes : Option (List Int64)} (id : Nat) :
    (lookExtent context filter inodes id s').1
      = (lookExtent context filter inodes id s).1 := by
  have hpath : ∀ ino,
      rowPath s' filter.paths ino = rowPath s filter.paths ino := by
    intro ino
    unfold rowPath Store.pathsOf
    rw [hindex]
  unfold lookExtent
  rw [htables]
  cases s.tables.extents[id]? with
  | none => rfl
  | some e =>
    dsimp only
    rw [hpath]
    split <;> rfl

/-- Extent queries are answered from the tables and the indexes. -/
theorem toldOfExtents_congr (htables : s'.tables = s.tables)
    (hindex : SameOnceFinished s s') (context : QueryContext)
    (filter : ExtentFilter) (questions : List Question) :
    toldOfExtents s' context filter questions
      = toldOfExtents s context filter questions := by
  unfold toldOfExtents extents
  split
  · -- nothing is to be seen, so no candidate is looked at
    exact congrArg Except.ok
      (Cursor.told_congr_of_none_left _ questions _ rfl rfl rfl rfl _ _)
  · rw [Store.ensureReady_congr htables]
    cases hready : s.ensureReady with
    | error e => rfl
    | ok summary =>
      have hsame := hindex summary (Store.ensureReady_eq_ok_iff.1 hready)
      obtain ⟨hinodes, hcandidates, -⟩ :=
        candidates_congr htables hsame context filter {}
      have hanswers := lookExtent_answers s context filter
        (pathInodes s filter.paths)
      have hanswers' := lookExtent_answers s' context filter
        (pathInodes s filter.paths)
      simp only [lookExtent_congr htables hsame] at hanswers'
      show (checkPhysical summary filter >>= _).map _
        = (checkPhysical summary filter >>= _).map _
      cases checkPhysical summary filter with
      | error e => rfl
      | ok =>
        refine congrArg Except.ok ?_
        dsimp only
        rw [hinodes, hcandidates]
        exact hanswers'.told_eq hanswers questions _ rfl rfl

/-- Inode queries are answered from the tables and the indexes, if what was
computed is sound. -/
theorem toldOfInodes_congr (hs : s.Sound) (hs' : s'.Sound)
    (htables : s'.tables = s.tables) (hindex : SameOnceFinished s s')
    (context : QueryContext) (filter : InodeFilter)
    (questions : List Question) :
    toldOfInodes s' context filter questions
      = toldOfInodes s context filter questions := by
  unfold toldOfInodes inodes
  split
  · exact congrArg Except.ok
      (Cursor.told_congr_of_none_left _ questions _ rfl rfl rfl rfl _ _)
  · rw [Store.ensureReady_congr htables]
    cases hready : s.ensureReady with
    | error e => rfl
    | ok summary =>
      have hfinished := Store.ensureReady_eq_ok_iff.1 hready
      -- the indexes agree only once the scan is finished, and before that
      -- nothing is answered
      have hsame := hindex summary hfinished
      have hanswers := lookInode_answers hfinished filter
      have hanswers' : Answers (lookInode filter)
          (fun t : Store γ => s'.Alike t ∧ t.Sound)
          (inodeAnswer s.tables filter) := by
        rw [← htables]
        exact lookInode_answers (htables ▸ hfinished) filter
      obtain ⟨-, -, hcandidates⟩ :=
        candidates_congr htables hsame context {} filter
      show (checkPhysical summary filter.extent >>= _).map _
        = (checkPhysical summary filter.extent >>= _).map _
      cases checkPhysical summary filter.extent with
      | error e => rfl
      | ok =>
        refine congrArg Except.ok ?_
        rw [hcandidates]
        exact hanswers'.told_eq hanswers questions _ ⟨.refl s', hs'⟩
          ⟨.refl s, hs⟩

end Query

/-- Sound stores with the same tables, and the same indexes if their scan
is finished, give the same answers. -/
theorem Store.sameAnswers_of_tables (hs : s.Sound) (hs' : s'.Sound)
    (hfsPath : s'.fsPath = s.fsPath) (htables : s'.tables = s.tables)
    (hindex : SameOnceFinished s s') : s.SameAnswers s' := by
  refine ⟨fun ino => ?_, ?_, fun path => ?_, fun ino => ?_, ?_, ?_, ?_,
    Query.toldOfExtents_congr htables hindex,
    Query.toldOfInodes_congr hs hs' htables hindex⟩
  · rw [Store.inode, htables, Store.inode]
  · rw [Store.inodes, htables, Store.inodes]
  · rw [Store.lookupPath, htables, Store.lookupPath]
  · rw [Store.listDirectory, htables, Store.listDirectory]
  · rw [htables]
  · unfold Store.isStale
    rw [htables, hfsPath]
  · exact Store.report_congr htables hindex

/-- Sound stores with the same tables and indexes give the same figures,
whatever each of them has computed. -/
theorem Store.figures_of_sound (hs : s.Sound) (hs' : s'.Sound)
    (hfsPath : s'.fsPath = s.fsPath) (htables : s'.tables = s.tables)
    (hindex : s'.index = s.index) : s.SameFigures s' where
  answers := sameAnswers_of_tables hs hs' hfsPath htables fun _ _ => hindex
  owners := sameOwners_of_index htables hindex
  stats := hs.inodeStats_congr hs' htables
  overview cells force := hs.overview_congr hs' htables cells force force

end Agreement

-- ================================================================= lives

namespace Life

open LawfulBackend (held)

variable [Backend β] [LawfulBackend β] [Backend γ] [LawfulBackend γ]

variable {events : List Event} {d : Desk β} {s : Store γ}

/-- A store that is opened on what a store at rest has saved of its tables
gives the same answers. It says the same of what belongs to an inode too,
unless a scan was given up on the store at rest, which then says
nothing. -/
theorem reopened_answers {b : β} (hb : Blank b)
    (h : Run (.closed b) events (.resting d)) {calculated : Calculated}
    (hsaved : held d.store.backend = some ⟨d.store.tables, calculated⟩)
    {place : γ} (hplace : held place = held d.store.backend)
    (hopened : Store.opened place d.store.fsPath = .ok s) :
    d.store.SameAnswers s ∧
      (∀ ino, s.pathsOf ino = d.store.tables.pathsOf ino ∧
        s.extentsOf ino = d.store.tables.extentsOf ino) ∧
      (d.store.SameOwners s ∨
        (d.store.tables.Unfinished ∧
          ∀ ino, d.store.pathsOf ino = [] ∧ d.store.extentsOf ino = [])) := by
  have hd : d.Sound := h.sound hb.sound
  obtain ⟨-, hfsPath, hindex, hstate⟩ := Store.opened_eq hopened
  rw [hplace, hsaved, Option.getD_some] at hstate
  have htables : s.tables = d.store.tables := (Persisted.mk.inj hstate).1.symm
  have hs : s.Sound := by
    refine sound_opened (fun state hheld => ?_) hopened
    exact hd.held state (hplace ▸ hheld)
  -- what was opened has built its indexes, and so has the live store once its
  -- scan is finished
  have honce : SameOnceFinished d.store s := by
    intro summary hfinished
    rw [hindex, htables, h.indexed summary hfinished]
  refine ⟨Store.sameAnswers_of_tables hd.store hs hfsPath htables honce,
    fun ino => ?_, ?_⟩
  · rw [← htables]
    exact ⟨Store.pathsOf_eq hindex ino, Store.extentsOf_eq hindex ino⟩
  · -- a store that was opened again always has its indexes
    obtain hindexed | ⟨hnone, hunfinished⟩ := h.indexedOrBegun
    · refine Or.inl (Store.sameOwners_of_index htables ?_)
      rw [hindex, htables, hindexed]
    · exact Or.inr ⟨hunfinished, Store.owners_of_none hnone⟩

/-- A finished scan of one file is answered the same by a store that is
opened for reading where it was saved. -/
theorem reopened_answers_oneFile :
    let d : Desk Vault := { store := scanned "/" (.blank "/") oneFile }
    let place : Vault := { d.store.backend with access := .readOnly }
    ∃ s, Store.opened place "/" = .ok s ∧ d.store.SameAnswers s ∧
      (∀ ino, s.pathsOf ino = d.store.tables.pathsOf ino ∧
        s.extentsOf ino = d.store.tables.extentsOf ino) ∧
      d.store.pathsOf 7 = ["/a"] := by
  intro d place
  have hrun := run_scan "/" (.blank "/") oneFile
  have hblank : Blank ({} : Vault) := rfl
  have hsaved : held d.store.backend = some ⟨d.store.tables, .empty⟩ := rfl
  have hplace : held place = held d.store.backend := rfl
  have hopened : Store.opened place "/" = .ok _ := rfl
  obtain ⟨hsame, howners, -⟩ :=
    reopened_answers hblank hrun hsaved hplace hopened
  exact ⟨_, hopened, hsame, howners, rfl⟩

/-- The scan of one file, saved before it is finished. -/
def savedEarly : Session Vault :=
  let x := (filled "/" (.blank "/") oneFile).within (begun "/" (.blank "/"))
  x.checkpoint.2

/-- A scan that is saved and then given up is known to a store that is
opened on what was saved, and not to the store on which it was made. -/
theorem reopened_knows_more :
    let d : Desk Vault := { store := savedEarly.store }
    let place : Vault := { d.store.backend with access := .readOnly }
    Run (.closed ({} : Vault))
        (fillingOf "/" (.blank "/") oneFile ++ [.checkpointed] ++ [.abandoned])
        (.resting d) ∧
      held d.store.backend = some ⟨d.store.tables, .empty⟩ ∧
      ∃ s, Store.opened place "/" = .ok s ∧
        s.pathsOf 7 = ["/a"] ∧ d.store.pathsOf 7 = [] ∧
        s.extentsOf 7 = [⟨7, 4096, some 0, 512, .empty, .file⟩] ∧
        d.store.extentsOf 7 = [] := by
  intro d place
  have hfilled := run_filling "/" (.blank "/") oneFile
  refine ⟨(hfilled.step .checkpoints).step .abandons, rfl, _, rfl, ?_⟩
  refine ⟨by decide, rfl, ?_, rfl⟩
  let e : Extent := ⟨7, 4096, some 0, 512, .empty, .file⟩
  have hrows : StoreIndex.sortedRows d.store.tables.extents = [(e, 0)] :=
    List.mergeSort_singleton (e, 0)
  rw [Store.extentsOf_eq rfl]
  exact congrArg (fun rows => (rows.filter fun r => r.1.ino = 7).map (·.1))
    hrows

end Life

end DiskAtlas

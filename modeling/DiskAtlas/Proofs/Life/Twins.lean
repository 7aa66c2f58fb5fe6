/-
Stores that hold the same and have computed the same, on whatever places.
The place of a store and the note that something is left to be saved play
no part in what it answers, and what is computed for an answer is kept on
both sides: so twins answer alike and stay twins, answer after answer
(`Store.SameStep`), whether what they have kept is right or not. Saving is
the one operation that looks at the place, and it leaves a twin behind
(`Twins.flush`).

Twins are weaker than equal stores, and they have to be: an answer may leave
statistics behind, and a save a backend that is different. `SameStep` is kept
by composition, so that only the primitive steps are looked at.
-/
import DiskAtlas.Proofs.Life.Reopening

namespace DiskAtlas

variable {β γ : Type}

namespace Store

/-- Two stores that differ at most in the places they are saved to and in
what is left to be saved. -/
structure Twins (s : Store β) (s' : Store γ) : Prop where
  fsPath_eq : s'.fsPath = s.fsPath
  tables_eq : s'.tables = s.tables
  index_eq : s'.index = s.index
  calculated_eq : s'.calculated = s.calculated

theorem Twins.symm {s : Store β} {s' : Store γ} (h : s.Twins s') :
    s'.Twins s :=
  ⟨h.fsPath_eq.symm, h.tables_eq.symm, h.index_eq.symm,
    h.calculated_eq.symm⟩

theorem Twins.sound {s : Store β} {s' : Store γ} (h : s.Twins s')
    (hs : s.Sound) : s'.Sound := by
  refine ⟨?_, ?_, ?_⟩
  · rw [h.tables_eq]
    exact hs.keyed
  · rw [h.tables_eq, h.calculated_eq]
    exact hs.calculated
  · rw [h.tables_eq, h.index_eq]
    exact hs.indexed

/-- Two operations answer alike on twins, and leave twins. -/
def SameStep {α : Type} (op : Store β → α × Store β)
    (op' : Store γ → α × Store γ) : Prop :=
  ∀ {s s'}, s.Twins s' → (op' s').1 = (op s).1 ∧ (op s).2.Twins (op' s').2

-- ============================================================= computing

section Computing

variable {s : Store β} {s' : Store γ}

theorem Twins.ensureReady_eq (h : s.Twins s') :
    s'.ensureReady = s.ensureReady :=
  ensureReady_congr h.tables_eq

theorem Twins.inode_eq (h : s.Twins s') (ino : Int64) :
    s'.inode ino = s.inode ino := by
  rw [inode, h.tables_eq, inode]

/-- An overview is counted from the tables and the index alone. -/
theorem Twins.overviewScan_eq (h : s.Twins s') (cells : UInt64) :
    s'.overviewScan cells = s.overviewScan cells := by
  rw [overviewScan, h.ensureReady_eq, overviewScan]

theorem Twins.owners (h : s.Twins s') : s.SameOwners s' :=
  sameOwners_of_index h.tables_eq h.index_eq

theorem Twins.freshStats_eq (h : s.Twins s') (inode : Inode) :
    s'.freshStats inode = s.freshStats inode := by
  rw [freshStats, h.owners.extentsOf, freshStats]

/-- Statistics are looked up in, and added to, the kept ones; twins keep the
same. -/
theorem sameStep_statsFor (inode : Inode) :
    SameStep (β := β) (γ := γ) (·.statsFor inode) (·.statsFor inode) := by
  intro s s' h
  dsimp only
  unfold statsFor
  rw [h.calculated_eq, h.freshStats_eq]
  split
  · exact ⟨rfl, h⟩
  · exact ⟨rfl, h.fsPath_eq, h.tables_eq, h.index_eq, rfl⟩

theorem sameStep_inodeStats (ino : Int64) :
    SameStep (β := β) (γ := γ) (·.inodeStats ino) (·.inodeStats ino) := by
  intro s s' h
  dsimp only
  unfold inodeStats
  rw [h.ensureReady_eq, h.inode_eq]
  split
  · exact ⟨rfl, h⟩
  · exact ⟨rfl, h⟩
  · next inode _ _ =>
    obtain ⟨hstats, hleft⟩ := sameStep_statsFor inode h
    exact ⟨congrArg Except.ok hstats, hleft⟩

theorem sameStep_finishOverview (scan : Overview.Scan) :
    SameStep (β := β) (γ := γ) (·.finishOverview scan)
      (·.finishOverview scan) := by
  intro s s' h
  dsimp only [finishOverview]
  rw [h.tables_eq, h.calculated_eq]
  exact ⟨rfl, h.fsPath_eq, rfl, h.index_eq, rfl⟩

/-- The overview that can be called off asks its caller the same questions on
both sides, as the number of rows counted between two questions is fixed. -/
theorem sameStep_overviewUnless (calledOff : Nat → Bool) (cells : UInt64)
    (force : Bool) :
    SameStep (β := β) (γ := γ) (·.overviewUnless calledOff cells force)
      (·.overviewUnless calledOff cells force) := by
  intro s s' h
  dsimp only
  unfold overviewUnless
  rw [h.overviewScan_eq]
  split
  · exact ⟨rfl, h⟩
  · dsimp only
    rw [h.tables_eq, h.calculated_eq]
    split
    · exact ⟨rfl, h⟩
    · split
      · exact ⟨rfl, h⟩
      · next last _ =>
        obtain ⟨hcells, hleft⟩ := sameStep_finishOverview last h
        exact ⟨congrArg (Except.ok ∘ some) hcells, hleft⟩

end Computing

-- ================================================================ saving

/-- A store and the same store after a save are twins, whether the save was a
success or not: only the backend and the dirty mark differ. -/
theorem twins_persist [Backend γ] (s : Store γ) : s.Twins s.persist.2 := by
  unfold persist
  split <;> exact ⟨rfl, rfl, rfl, rfl⟩

/-- A store that was saved, or tried to be, is still a twin. -/
theorem Twins.flush [Backend γ] {s : Store β} {s' : Store γ}
    (h : s.Twins s') : s.Twins s'.flush.2 := by
  unfold Store.flush
  split
  · obtain ⟨hfsPath, htables, hindex, hcalculated⟩ := s'.twins_persist
    exact ⟨hfsPath.trans h.fsPath_eq, htables.trans h.tables_eq,
      hindex.trans h.index_eq, hcalculated.trans h.calculated_eq⟩
  · exact h

end Store

-- =============================================================== queries

namespace Query

open Store

variable {s : Store β} {s' : Store γ}

/-- Twins begin to answer extent queries in the same way. -/
theorem extents_twins (h : s.Twins s') (context : QueryContext)
    (filter : ExtentFilter) :
    extents s' context filter = extents s context filter := by
  obtain ⟨hinodes, -, -⟩ :=
    candidates_congr h.tables_eq h.index_eq context filter {}
  have hcandidates : ∀ inodes,
      candidates s' filter inodes = candidates s filter inodes := fun inodes =>
    congrFun (candidates_congr h.tables_eq h.index_eq context filter {}).2.1
      inodes
  simp only [extents, h.ensureReady_eq, hinodes, hcandidates]

theorem inodes_twins (h : s.Twins s') (context : QueryContext)
    (filter : InodeFilter) :
    inodes s' context filter = inodes s context filter := by
  obtain ⟨-, -, hcandidates⟩ :=
    candidates_congr h.tables_eq h.index_eq context {} filter
  simp only [inodes, h.ensureReady_eq, hcandidates]

theorem agree_lookExtent (context : QueryContext) (filter : ExtentFilter)
    (inodes : Option (List Int64)) :
    Agree (Twins (β := β) (γ := γ)) (lookExtent context filter inodes)
      (lookExtent context filter inodes) := by
  intro id s s' h
  refine ⟨(lookExtent_congr h.tables_eq h.index_eq id).symm, ?_⟩
  have hanswers := (lookExtent_answers s context filter inodes).keeps id s rfl
  have hanswers' :=
    (lookExtent_answers s' context filter inodes).keeps id s' rfl
  rw [hanswers, hanswers']
  exact h

/-- Looking at one candidate of an inode query may calculate statistics, which
twins then both keep. -/
theorem agree_lookInode (filter : InodeFilter) :
    Agree (Twins (β := β) (γ := γ)) (lookInode filter)
      (lookInode filter) := by
  intro ino s s' h
  unfold lookInode
  rw [h.inode_eq]
  split
  · exact ⟨rfl, h⟩
  · next inode _ =>
    split
    · obtain ⟨hstats, hleft⟩ := sameStep_statsFor inode h
      dsimp only at hstats hleft ⊢
      rw [hstats]
      split
      · rw [hleft.owners.pathsOf]
        exact ⟨rfl, hleft⟩
      · exact ⟨rfl, hleft⟩
    · exact ⟨rfl, h⟩

/-- Extent queries that are being answered go on alike on twins. -/
theorem ExtentRows.told_twins (rows : ExtentRows) (h : s.Twins s')
    (questions : List Question) :
    rows.cursor.told rows.look questions s'
      = rows.cursor.told rows.look questions s :=
  ((agree_lookExtent rows.context rows.filter rows.inodes).told questions
    rows.cursor h).symm

theorem InodeRows.told_twins (rows : InodeRows) (h : s.Twins s')
    (questions : List Question) :
    rows.cursor.told rows.look questions s'
      = rows.cursor.told rows.look questions s :=
  ((agree_lookInode rows.filter).told questions rows.cursor h).symm

/-- Asking twins for rows leaves one and the same cursor. -/
theorem InodeRows.fill_twins (rows : InodeRows) (h : s.Twins s') :
    (rows.cursor.fill rows.look s').1 = (rows.cursor.fill rows.look s).1 ∧
      (rows.cursor.fill rows.look s).2.Twins
        (rows.cursor.fill rows.look s').2 := by
  obtain ⟨hcursor, hleft⟩ := (agree_lookInode rows.filter).fill rows.cursor h
  exact ⟨hcursor.symm, hleft⟩

end Query

/-- Twins give the same answers. -/
theorem Store.Twins.answers {s : Store β} {s' : Store γ} (h : s.Twins s') :
    s.SameAnswers s' where
  inode := h.inode_eq
  inodes := by rw [Store.inodes, h.tables_eq, Store.inodes]
  lookupPath path := by
    rw [Store.lookupPath, h.tables_eq, Store.lookupPath]
  listDirectory ino := by
    rw [Store.listDirectory, h.tables_eq, Store.listDirectory]
  extentCount := by rw [h.tables_eq]
  isStale := by
    unfold Store.isStale
    rw [h.tables_eq, h.fsPath_eq]
  report := Store.report_congr h.tables_eq fun _ _ => h.index_eq
  toldOfExtents context filter questions := by
    simp only [Query.toldOfExtents, Query.extents_twins h,
      Query.ExtentRows.told_twins _ h]
  toldOfInodes context filter questions := by
    simp only [Query.toldOfInodes, Query.inodes_twins h,
      Query.InodeRows.told_twins _ h]

end DiskAtlas

/-
What computed values have to be. A statistic is the one that follows from
the extents of the inode in the tables (`Tables.statsOf`), an overview is
one pass over the extent table, and both need a finished scan: computed
values that satisfy this are `Sound`. A store that indexes its tables
computes sound values only, and since kept values are sound, what it
answers does not depend on what it has kept (`statsFor_eq`,
`overview_eq`).

An overview may be counted in batches, with other operations in between. What
is kept of a count under way is how far it has got and that its cells are
those of the rows so far (`Counts`).
-/
import Mathlib.Data.List.Basic
import DiskAtlas.Store.Stats
import DiskAtlas.Proofs.Store.Owners
import DiskAtlas.Proofs.Overview.Counting

namespace DiskAtlas

-- =============================================================== tables

namespace Tables

/-- The extents of an inode, in the order of answers. -/
def extentsOf (t : Tables) (ino : Int64) : List Extent :=
  ((StoreIndex.sortedRows t.extents).filter
    fun r => decide (r.1.ino = ino)).map (·.1)

/-- The paths of an inode, in ascending order. -/
def pathsOf (t : Tables) (ino : Int64) : List String :=
  (t.paths.entries.filter fun e => decide (e.2 = ino)).map (·.1)

/-- The statistics of an inode, from its own content in the tables. -/
def statsOf (t : Tables) (inode : Inode) : InodeStats :=
  travelStats
    ((t.extentsOf inode.ino).filter fun e => e.kind == inode.kind.primary)

/-- The facts of a finished scan. -/
def Finished (t : Tables) (summary : Summary) : Prop :=
  t.summary = some summary ∧ summary.finished = true

/-- A scan of the tables has begun and was not finished. -/
def Unfinished (t : Tables) : Prop :=
  ∃ summary, t.summary = some summary ∧ summary.finished = false

theorem Unfinished.not_finished {t : Tables} (h : t.Unfinished)
    (summary : Summary) : ¬ t.Finished summary := by
  rintro ⟨hsome, hfinished⟩
  obtain ⟨other, hother, hnot⟩ := h
  obtain rfl := Option.some_inj.1 (hsome.symm.trans hother)
  cases hnot.symm.trans hfinished

/-- Every inode stands under its own number. -/
def Keyed (t : Tables) : Prop :=
  ∀ ino inode, t.inodes.get? ino = some inode → inode.ino = ino

end Tables

/-- What computed values have to be beside some tables. -/
structure Calculated.Sound (t : Tables) (c : Calculated) : Prop where
  stats : ∀ ino stats, (ino, stats) ∈ c.inodeStats.entries →
    (∃ summary, t.Finished summary) ∧
      ∃ inode, t.inodes.get? ino = some inode ∧ stats = t.statsOf inode
  overviews : ∀ cells overview, (cells, overview) ∈ c.overviews.entries →
    ∃ summary, t.Finished summary ∧ 0 < cells ∧
      cells ≤ summary.totalBytes ∧
      overview = t.overviewOf cells summary.totalBytes

namespace Calculated

/-- Nothing computed is sound beside anything. -/
theorem sound_empty (t : Tables) : (empty : Calculated).Sound t :=
  ⟨fun _ _ h => absurd h List.not_mem_nil,
    fun _ _ h => absurd h List.not_mem_nil⟩

end Calculated

-- ================================================================ ready

namespace Store

variable {β : Type} {s : Store β}

/-- A store is ready exactly if its tables are those of a finished
scan. -/
theorem ensureReady_eq_ok_iff {summary : Summary} :
    s.ensureReady = .ok summary ↔ s.tables.Finished summary := by
  unfold ensureReady Tables.Finished
  cases s.tables.summary with
  | none => simp
  | some found =>
    by_cases hfinished : found.finished = true
    · simp only [hfinished, if_true, Except.ok.injEq, Option.some.injEq]
      exact ⟨fun h => ⟨h, h ▸ hfinished⟩, fun h => h.1⟩
    · simp only [hfinished, if_false, reduceCtorEq, Option.some.injEq,
        false_iff, not_and]
      intro h
      exact h ▸ hfinished

/-- The tables, what is computed from them and the indexes fit
together. -/
structure Sound (s : Store β) : Prop where
  keyed : s.tables.Keyed
  calculated : s.calculated.Sound s.tables
  indexed : ∀ summary, s.tables.Finished summary →
    s.index = .build s.tables

/-- Stores that differ at most in what they have computed. -/
structure Alike (s s' : Store β) : Prop where
  backend_eq : s'.backend = s.backend
  fsPath_eq : s'.fsPath = s.fsPath
  tables_eq : s'.tables = s.tables
  index_eq : s'.index = s.index

theorem Alike.refl (s : Store β) : s.Alike s := ⟨rfl, rfl, rfl, rfl⟩

theorem Alike.trans {s₁ s₂ s₃ : Store β} (h : s₁.Alike s₂)
    (h' : s₂.Alike s₃) : s₁.Alike s₃ :=
  ⟨h'.backend_eq.trans h.backend_eq, h'.fsPath_eq.trans h.fsPath_eq,
    h'.tables_eq.trans h.tables_eq, h'.index_eq.trans h.index_eq⟩

-- =========================================================== statistics

/-- The index leads to the extents of an inode in the tables. -/
theorem extentsOf_eq (hindex : s.index = .build s.tables) (ino : Int64) :
    s.extentsOf ino = s.tables.extentsOf ino := by
  rw [Store.extentsOf, hindex, StoreIndex.extentsOf_build, extentsAt,
    Tables.extentsOf, List.filterMap_map]
  refine List.filterMap_eq_map_iff_forall_eq_some.2 fun r hr => ?_
  exact StoreIndex.mem_sortedRows.1 (List.mem_filter.1 hr).1

/-- A store answers from its index; over an index that was built from its
tables the answer is that of the tables. -/
theorem pathsOf_eq (hindex : s.index = .build s.tables) (ino : Int64) :
    s.pathsOf ino = s.tables.pathsOf ino := by
  rw [Store.pathsOf, hindex, StoreIndex.pathsOf_build]
  rfl

theorem freshStats_eq (hindex : s.index = .build s.tables)
    (inode : Inode) : s.freshStats inode = s.tables.statsOf inode := by
  rw [freshStats, extentsOf_eq hindex]
  rfl

/-- Statistics are those that follow from the tables, kept or not. -/
theorem statsFor_eq (hs : s.Sound) {summary : Summary}
    (hfinished : s.tables.Finished summary) {ino : Int64} {inode : Inode}
    (hinode : s.tables.inodes.get? ino = some inode) :
    (s.statsFor inode).1 = s.tables.statsOf inode := by
  have hino := hs.keyed ino inode hinode
  unfold statsFor
  split
  · next stats hkept =>
    obtain ⟨-, found, hfound, hstats⟩ :=
      hs.calculated.stats _ _ (SortedMap.get?_eq_some_iff.1 hkept)
    rw [hino, hinode] at hfound
    obtain rfl := Option.some_inj.1 hfound
    exact hstats
  · exact freshStats_eq (hs.indexed summary hfinished) inode

/-- Looking statistics up keeps the tables, and adds to what is computed. -/
theorem statsFor_alike (s : Store β) (inode : Inode) :
    s.Alike (s.statsFor inode).2 := by
  unfold statsFor
  split
  · exact Alike.refl s
  · exact ⟨rfl, rfl, rfl, rfl⟩

/-- A store stays sound when it computes statistics. -/
theorem Sound.statsFor (hs : s.Sound) {summary : Summary}
    (hfinished : s.tables.Finished summary) {ino : Int64} {inode : Inode}
    (hinode : s.tables.inodes.get? ino = some inode) :
    (s.statsFor inode).2.Sound := by
  have hindex := hs.indexed summary hfinished
  have hino := hs.keyed ino inode hinode
  unfold Store.statsFor
  split
  · exact hs
  · refine ⟨hs.keyed, ⟨fun k stats hentry => ?_, hs.calculated.overviews⟩,
      hs.indexed⟩
    rcases SortedMap.mem_entries_insert.1 hentry with ⟨rfl, rfl⟩ | ⟨-, hold⟩
    · exact ⟨⟨summary, hfinished⟩, inode, by rw [hino]; exact hinode,
        freshStats_eq hindex inode⟩
    · exact hs.calculated.stats k stats hold

/-- The statistics of the inode with a number follow from the tables. -/
theorem inodeStats_eq (hs : s.Sound) (ino : Int64) :
    (s.inodeStats ino).1 =
      match s.ensureReady, s.inode ino with
      | .error e, _ => .error e
      | .ok _, none => .error (.input (.noInode ino))
      | .ok _, some inode => .ok (s.tables.statsOf inode) := by
  unfold inodeStats
  cases hready : s.ensureReady with
  | error e => rfl
  | ok summary =>
    cases hinode : s.inode ino with
    | none => rfl
    | some inode =>
      exact congrArg Except.ok
        (statsFor_eq hs (ensureReady_eq_ok_iff.1 hready) hinode)

theorem inodeStats_alike (s : Store β) (ino : Int64) :
    s.Alike (s.inodeStats ino).2 := by
  unfold inodeStats
  split
  · exact Alike.refl s
  · exact Alike.refl s
  · exact statsFor_alike s _

theorem Sound.inodeStats (hs : s.Sound) (ino : Int64) :
    (s.inodeStats ino).2.Sound := by
  unfold Store.inodeStats
  split
  · exact hs
  · exact hs
  · next hready hinode =>
    exact hs.statsFor (ensureReady_eq_ok_iff.1 hready) hinode

-- ============================================================ overviews

/-- A resolution is allowed from one cell up to one for each byte. -/
theorem checkResolution_eq_ok_iff {cells total : UInt64} :
    Overview.checkResolution cells total = .ok () ↔
      0 < cells ∧ cells ≤ total := by
  have hzero : cells = 0 ↔ ¬ 0 < cells := by
    rw [UInt64.not_lt, UInt64.le_zero_iff]
  unfold Overview.checkResolution
  split
  · next h =>
    simp only [reduceCtorEq, false_iff, not_and, UInt64.not_le]
    rw [hzero] at h
    exact fun hpos => h.resolve_left (not_not_intro hpos)
  · next h =>
    rw [hzero, not_or, Decidable.not_not, UInt64.not_lt] at h
    exact iff_of_true rfl h

/-- A count that may be begun is one of a finished scan, at a resolution
that the device allows. -/
theorem overviewScan_eq_ok_iff {cells : UInt64} {scan : Overview.Scan} :
    s.overviewScan cells = .ok scan ↔
      ∃ summary, s.tables.Finished summary ∧ 0 < cells ∧
        cells ≤ summary.totalBytes ∧
        scan = .start cells summary.totalBytes := by
  simp only [← ensureReady_eq_ok_iff, ← and_assoc (a := 0 < cells),
    ← checkResolution_eq_ok_iff, overviewScan, bind, Except.bind]
  cases s.ensureReady with
  | error e => simp
  | ok summary =>
    cases hcheck : Overview.checkResolution cells summary.totalBytes with
    | error e => simp [hcheck]
    | ok => simp [hcheck, pure, Except.pure, eq_comm]

/-- A count of an overview that was begun on some tables. -/
structure Counts (t : Tables) (scan : Overview.Scan) : Prop where
  allowed : ∃ summary, t.Finished summary ∧ 0 < scan.resolution ∧
    scan.resolution ≤ summary.totalBytes ∧ scan.total = summary.totalBytes
  counted : scan.CountsUpTo t.extents

/-- A count that was begun counts for its own tables, from the first extent. -/
theorem counts_of_overviewScan {cells : UInt64} {scan : Overview.Scan}
    (h : s.overviewScan cells = .ok scan) : Counts s.tables scan := by
  obtain ⟨summary, hfinished, hpos, hle, rfl⟩ := overviewScan_eq_ok_iff.1 h
  exact ⟨⟨summary, hfinished, hpos, hle, rfl⟩,
    Overview.Scan.countsUpTo_start _ _⟩

theorem Counts.step {t : Tables} {scan : Overview.Scan} (h : Counts t scan)
    (batch : Nat) : Counts t (scan.step t.extents batch) :=
  ⟨h.allowed, h.counted.step batch⟩

/-- By induction over the batches: a count that was run to its end has counted
every extent. -/
theorem Counts.runFrom {t : Tables} {scan last : Overview.Scan}
    (h : Counts t scan) {calledOff : Nat → Bool} {batches : Nat}
    (hbatches : t.extents.size - scan.next < batches)
    (hrun : scan.runFrom calledOff t.extents batches 0 = some last) :
    Counts t last ∧ last.resolution = scan.resolution ∧
      last.total = scan.total := by
  obtain ⟨hcounted, hresolution, htotal, -⟩ :=
    h.counted.runFrom hbatches hrun
  refine ⟨⟨?_, hcounted⟩, hresolution, htotal⟩
  rw [hresolution, htotal]
  exact h.allowed

/-- A count that is finished gives the overview of the tables. -/
theorem finishOverview_eq {scan : Overview.Scan}
    (h : Counts s.tables scan) :
    (s.finishOverview scan).1
      = s.tables.overviewOf scan.resolution scan.total :=
  h.counted.cells_complete

theorem finishOverview_alike (s : Store β) (scan : Overview.Scan) :
    s.Alike (s.finishOverview scan).2 :=
  ⟨rfl, rfl, rfl, rfl⟩

/-- An overview is kept only when all of its extents were counted, so what is
kept is sound. -/
theorem Sound.finishOverview (hs : s.Sound) {scan : Overview.Scan}
    (h : Counts s.tables scan) : (s.finishOverview scan).2.Sound := by
  refine ⟨hs.keyed, ⟨hs.calculated.stats, fun cells overview hentry => ?_⟩,
    hs.indexed⟩
  rcases SortedMap.mem_entries_insert.1 hentry with ⟨rfl, rfl⟩ | ⟨-, hold⟩
  · obtain ⟨summary, hfinished, hpos, hle, htotal⟩ := h.allowed
    refine ⟨summary, hfinished, hpos, hle, ?_⟩
    rw [← htotal]
    exact finishOverview_eq h
  · exact hs.calculated.overviews cells overview hold

/-- What asking for an overview can come to: it is refused, or given from
what is kept, or called off, or counted and kept. -/
theorem overviewUnless_cases (s : Store β) (calledOff : Nat → Bool)
    (cells : UInt64) (force : Bool) :
    (∃ e, s.overviewScan cells = .error e ∧
      s.overviewUnless calledOff cells force = (.error e, s)) ∨
    ∃ scan, s.overviewScan cells = .ok scan ∧
      ((∃ kept, s.calculated.overviews.get? cells = some kept ∧
        s.overviewUnless calledOff cells force = (.ok (some kept), s)) ∨
      (scan.runFrom calledOff s.tables.extents (s.tables.extents.size + 1) 0
          = none ∧
        s.overviewUnless calledOff cells force = (.ok none, s)) ∨
      ∃ last, scan.runFrom calledOff s.tables.extents
          (s.tables.extents.size + 1) 0 = some last ∧
        s.overviewUnless calledOff cells force =
          (.ok (some (s.finishOverview last).1),
            (s.finishOverview last).2)) := by
  unfold overviewUnless
  cases s.overviewScan cells with
  | error e => exact Or.inl ⟨e, rfl, rfl⟩
  | ok scan =>
    refine Or.inr ⟨scan, rfl, ?_⟩
    dsimp only
    split
    · next kept hkept => exact Or.inl ⟨kept, hkept, rfl⟩
    · cases hrun : scan.runFrom calledOff s.tables.extents
          (s.tables.extents.size + 1) 0 with
      | none => exact Or.inr (Or.inl ⟨rfl, rfl⟩)
      | some last => exact Or.inr (Or.inr ⟨last, rfl, rfl⟩)

/-- A count that ran to its end belongs to the tables it was begun on. -/
private theorem counts_of_run {calledOff : Nat → Bool} {cells : UInt64}
    {scan last : Overview.Scan} (hscan : s.overviewScan cells = .ok scan)
    (hrun : scan.runFrom calledOff s.tables.extents
      (s.tables.extents.size + 1) 0 = some last) :
    Counts s.tables last ∧ last.resolution = cells ∧
      last.total = scan.total := by
  obtain ⟨summary, -, -, -, hstart⟩ := overviewScan_eq_ok_iff.1 hscan
  have hcells : scan.resolution = cells := hstart ▸ rfl
  obtain ⟨hcounts, hresolution, htotal⟩ :=
    (counts_of_overviewScan hscan).runFrom (by omega) hrun
  exact ⟨hcounts, hresolution.trans hcells, htotal⟩

theorem overviewUnless_alike (s : Store β) (calledOff : Nat → Bool)
    (cells : UInt64) (force : Bool) :
    s.Alike (s.overviewUnless calledOff cells force).2 := by
  obtain ⟨e, -, h⟩ | ⟨scan, -, ⟨kept, -, h⟩ | ⟨-, h⟩ | ⟨last, -, h⟩⟩ :=
    s.overviewUnless_cases calledOff cells force
  · exact h ▸ Alike.refl s
  · exact h ▸ Alike.refl s
  · exact h ▸ Alike.refl s
  · exact h ▸ finishOverview_alike s last

/-- An overview that is called off keeps nothing, and one that is not keeps
what it counted. -/
theorem Sound.overviewUnless (hs : s.Sound) (calledOff : Nat → Bool)
    (cells : UInt64) (force : Bool) :
    (s.overviewUnless calledOff cells force).2.Sound := by
  obtain ⟨e, -, h⟩ | ⟨scan, hscan, ⟨kept, -, h⟩ | ⟨-, h⟩ | ⟨last, hrun, h⟩⟩ :=
    s.overviewUnless_cases calledOff cells force
  · exact h ▸ hs
  · exact h ▸ hs
  · exact h ▸ hs
  · exact h ▸ hs.finishOverview (counts_of_run hscan hrun).1

/-- The overview at a resolution is that of the tables, kept or counted
afresh. -/
theorem overview_eq (hs : s.Sound) (cells : UInt64) (force : Bool) :
    (s.overview cells force).1 =
      (s.overviewScan cells).map fun scan =>
        s.tables.overviewOf cells scan.total := by
  unfold overview
  obtain ⟨e, hscan, h⟩ |
      ⟨scan, hscan, ⟨kept, hkept, h⟩ | ⟨hrun, h⟩ | ⟨last, hrun, h⟩⟩ :=
    s.overviewUnless_cases (fun _ => false) cells force
  · rw [h, hscan]
    rfl
  · obtain ⟨summary, hfinished, -, -, hcells⟩ :=
      hs.calculated.overviews _ _ (SortedMap.get?_eq_some_iff.1 hkept)
    obtain ⟨other, hother, -, -, hstart⟩ := overviewScan_eq_ok_iff.1 hscan
    obtain rfl : summary = other :=
      Option.some_inj.1 (hfinished.1.symm.trans hother.1)
    have htotal : scan.total = summary.totalBytes := hstart ▸ rfl
    rw [h, hscan, hcells, ← htotal]
    rfl
  · have hsome := Overview.Scan.isSome_runFrom s.tables.extents
      (s.tables.extents.size + 1) 0 scan
    rw [hrun] at hsome
    cases hsome
  · obtain ⟨hcounts, hcells, htotal⟩ := counts_of_run hscan hrun
    rw [h, hscan, finishOverview_eq hcounts, hcells, htotal]
    rfl

-- ============================================================ agreement

variable {γ : Type} {s' : Store γ}

/-- Which counts may begin depends on the tables alone. -/
theorem overviewScan_congr (h : s'.tables = s.tables) (cells : UInt64) :
    s'.overviewScan cells = s.overviewScan cells := by
  unfold overviewScan ensureReady
  rw [h]

/-- Sound stores with the same tables give the same overviews, afresh or
not. -/
theorem Sound.overview_congr (hs : s.Sound) (hs' : s'.Sound)
    (h : s'.tables = s.tables) (cells : UInt64) (force force' : Bool) :
    (s'.overview cells force').1 = (s.overview cells force).1 := by
  rw [overview_eq hs', overview_eq hs, overviewScan_congr h, h]

/-- Sound stores with the same tables give the same statistics. -/
theorem Sound.inodeStats_congr (hs : s.Sound) (hs' : s'.Sound)
    (h : s'.tables = s.tables) (ino : Int64) :
    (s'.inodeStats ino).1 = (s.inodeStats ino).1 := by
  rw [inodeStats_eq hs', inodeStats_eq hs]
  unfold ensureReady inode
  rw [h]

end Store

end DiskAtlas

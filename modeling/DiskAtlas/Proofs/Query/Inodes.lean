/-
The answer to an inode query. Where extents are restricted the candidates
are the owners of the extents that match, otherwise the inodes that some
path names, those in a span or all of them (`mem_inodeCandidates`); each
way the candidates are in ascending order, none twice. A candidate is
answered from the tables alone, whatever was computed before
(`lookInode_answers`), and together the two checks leave exactly the
inodes that are selected (`mem_inodeRows`).

Inodes without extents are candidates only where nothing asks for an extent,
and what asks for one is the filter or the visible types.
-/
import DiskAtlas.Proofs.Query.Extents

namespace DiskAtlas.Query

variable {β : Type} {s : Store β} {context : QueryContext}
  {filter : InodeFilter}

-- =========================================================== candidates

theorem mem_ascending {ino : Int64} {inos : List Int64} :
    ino ∈ ascending inos ↔ ino ∈ inos := by
  rw [ascending, Sorting.mem_eraseReps, List.mem_mergeSort]

/-- Each inode stands once among the candidates, and they are in order. -/
theorem ascending_sorted (inos : List Int64) :
    (ascending inos).Pairwise fun a b => a < b := by
  have hsorted : (inos.mergeSort fun a b => decide (a ≤ b)).Pairwise
      fun a b => a ≤ b := by
    refine (List.pairwise_mergeSort ?_ ?_ inos).imp of_decide_eq_true
    · intro a b c hab hbc
      exact decide_eq_true (Int64.le_trans (of_decide_eq_true hab)
        (of_decide_eq_true hbc))
    · intro a b
      simpa using Int64.le_total a b
  have hstrict := Sorting.sorted_eraseReps
    (fun _ _ _ _ => Int64.le_antisymm) hsorted
  exact hstrict.imp fun h => Int64.lt_of_le_of_ne h.1 h.2

/-- The keys of the inode table are in ascending order. -/
theorem keys_ascending (m : SortedMap Int64 Inode) :
    m.keys.Pairwise fun a b => a < b :=
  m.keys_sorted.imp Std.compare_eq_lt.1

/-- The extents that match are those that are selected. -/
theorem mem_matchingExtents (hindex : s.index = .build s.tables)
    {filter : ExtentFilter} {e : Extent} :
    e ∈ matchingExtents s context filter ↔
      e ∈ s.tables.extents ∧ Selects s.tables context filter e := by
  simp only [matchingExtents, List.mem_filter, acceptsExtent_eq_true_iff,
    Store.extentsAt, List.mem_filterMap]
  refine and_congr_left fun hselects => ?_
  rw [Array.mem_iff_getElem?]
  constructor
  · rintro ⟨id, -, hrow⟩
    exact ⟨id, hrow⟩
  · rintro ⟨id, hrow⟩
    have hanswer : id ∈ (answerRows s context filter).map (·.2) :=
      List.mem_map.2 ⟨(e, id), mem_answerRows.2 ⟨hrow, hselects⟩, rfl⟩
    rw [← numbers_filter_eq hindex (Source.isOffered_picked filter),
      List.mem_filter] at hanswer
    rw [candidates_eq_picked]
    exact ⟨id, hanswer.1, hrow⟩

/-- An inode that a query looks at: the owner of an extent that is
selected, if extents are restricted, else one that a path names, if paths
are, and else any with a row and a number that is asked for. -/
def Candidate (t : Tables) (context : QueryContext) (filter : InodeFilter)
    (ino : Int64) : Prop :=
  if filter.extent.restrictsExtents || context.hidesKinds then
    ∃ e ∈ t.extents, e.ino = ino ∧ Selects t context filter.extent e
  else if filter.extent.paths.isActive then
    Named t filter.extent.paths ino
  else
    ino ∈ t.inodes.keys ∧
      (filter.extent.inodes = [] ∨
        ∃ span ∈ filter.extent.inodes, span.contains ino = true)

/-- Whatever source the candidates come from, they are the inodes that the
statement names. -/
theorem mem_inodeCandidates (hindex : s.index = .build s.tables)
    {ino : Int64} :
    ino ∈ inodeCandidates s context filter ↔
      Candidate s.tables context filter ino := by
  unfold Candidate
  dsimp only [inodeCandidates]
  split
  · rw [mem_ascending, List.mem_map]
    constructor
    · rintro ⟨e, he, rfl⟩
      obtain ⟨hmem, hselects⟩ := (mem_matchingExtents hindex).1 he
      exact ⟨e, hmem, rfl, hselects⟩
    · rintro ⟨e, hmem, rfl, hselects⟩
      exact ⟨e, (mem_matchingExtents hindex).2 ⟨hmem, hselects⟩, rfl⟩
  · split
    · exact mem_ascending.trans mem_inodesOfPaths
    · split
      · next hspans =>
        have hne : filter.extent.inodes ≠ [] := by simpa using hspans
        rw [mem_ascending, List.mem_flatMap]
        simp only [List.mem_filter, hne, false_or]
        constructor
        · rintro ⟨span, hspan, hkey, hcontains⟩
          exact ⟨hkey, span, hspan, hcontains⟩
        · rintro ⟨hkey, span, hspan, hcontains⟩
          exact ⟨span, hspan, hkey, hcontains⟩
      · next hspans =>
        have hnil : filter.extent.inodes = [] := by simpa using hspans
        simp [hnil]

/-- The inodes that a query looks at come in ascending order. -/
theorem inodeCandidates_sorted (s : Store β) (context : QueryContext)
    (filter : InodeFilter) :
    (inodeCandidates s context filter).Pairwise fun a b => a < b := by
  dsimp only [inodeCandidates]
  split
  · exact ascending_sorted _
  · split
    · exact ascending_sorted _
    · split
      · exact ascending_sorted _
      · exact keys_ascending _

-- ============================================================= meaning

variable {t : Tables} {inode : Inode}

theorem SelectsInode.acceptsRow (h : SelectsInode t context filter inode) :
    filter.acceptsRow inode = true :=
  acceptsRow_eq_true_iff.2
    ⟨h.number, h.size, h.atime, h.crtime, h.ctime, h.mtime⟩

theorem SelectsInode.acceptsStats (h : SelectsInode t context filter inode) :
    filter.acceptsStats (t.statsOf inode) = true :=
  acceptsStats_eq_true_iff.2 ⟨h.travel, h.extentCount⟩

/-- An inode that is selected is looked at. -/
theorem SelectsInode.candidate (h : SelectsInode t context filter inode)
    (hinode : t.inodes.get? inode.ino = some inode) :
    Candidate t context filter inode.ino := by
  unfold Candidate
  split
  · next hasks =>
    obtain ⟨e, hmem, hino, hvisible, haccepted⟩ :=
      h.owner (asksForExtent_iff.1 hasks)
    exact ⟨e, hmem, hino, hvisible, haccepted, fun hactive =>
      hino ▸ h.named hactive⟩
  · split
    · next hactive => exact h.named hactive
    · refine ⟨?_, ?_⟩
      · exact List.mem_map_of_mem (SortedMap.get?_eq_some_iff.1 hinode)
      · rcases h.number with hnil | ⟨v, hv, span, hspan, hcontains⟩
        · exact Or.inl hnil
        · obtain rfl := Option.some_inj.1 hv
          exact Or.inr ⟨span, hspan, Span.contains_eq_true_iff.2 hcontains⟩

/-- An inode that is looked at and passes the checks of its row and its
statistics is selected. -/
theorem selectsInode_of_candidate
    (hcandidate : Candidate t context filter inode.ino)
    (hrow : filter.acceptsRow inode = true)
    (hstats : filter.acceptsStats (t.statsOf inode) = true) :
    SelectsInode t context filter inode := by
  obtain ⟨hnumber, hsize, hatime, hcrtime, hctime, hmtime⟩ :=
    acceptsRow_eq_true_iff.1 hrow
  obtain ⟨htravel, hcount⟩ := acceptsStats_eq_true_iff.1 hstats
  unfold Candidate at hcandidate
  refine ⟨hnumber, hsize, hatime, hcrtime, hctime, hmtime, htravel, hcount,
    fun hactive => ?_, fun hasks => ?_⟩
  · split at hcandidate
    · obtain ⟨e, -, hino, hselects⟩ := hcandidate
      exact hino ▸ hselects.named hactive
    · exact hcandidate
  · rw [if_pos (asksForExtent_iff.2 hasks)] at hcandidate
    obtain ⟨e, hmem, hino, hselects⟩ := hcandidate
    exact ⟨e, hmem, hino, hselects.visible, hselects.accepted⟩

-- =============================================================== looking

/-- What is answered about an inode, from the tables alone. -/
def inodeRow (t : Tables) (inode : Inode) : InodeRow :=
  ⟨inode, t.pathsOf inode.ino, t.statsOf inode⟩

/-- The answer of a candidate, from the tables alone. -/
def inodeAnswer (t : Tables) (filter : InodeFilter) (ino : Int64) :
    Option InodeRow :=
  (t.inodes.get? ino).bind fun inode =>
    if filter.acceptsRow inode && filter.acceptsStats (t.statsOf inode) then
      some (inodeRow t inode)
    else none

/-- A sound store answers a candidate from its tables, and stays sound. -/
theorem lookInode_eq (hs : s.Sound) {summary : Summary}
    (hfinished : s.tables.Finished summary) (filter : InodeFilter)
    (ino : Int64) :
    (lookInode filter ino s).1 = inodeAnswer s.tables filter ino ∧
      s.Alike (lookInode filter ino s).2 ∧ (lookInode filter ino s).2.Sound := by
  unfold lookInode inodeAnswer Store.inode
  cases hinode : s.tables.inodes.get? ino with
  | none => exact ⟨rfl, .refl s, hs⟩
  | some inode =>
    dsimp only [Option.bind_some]
    by_cases hrow : filter.acceptsRow inode = true
    · rw [if_pos hrow, hrow, Bool.true_and]
      have hstats := Store.statsFor_eq hs hfinished hinode
      have halike := s.statsFor_alike inode
      have hsound := hs.statsFor hfinished hinode
      generalize s.statsFor inode = result at hstats halike hsound
      obtain ⟨stats, s'⟩ := result
      subst hstats
      dsimp only
      split
      · have hpaths : s'.pathsOf ino = s.tables.pathsOf ino := by
          rw [Store.pathsOf, halike.index_eq]
          exact Store.pathsOf_eq (hs.indexed summary hfinished) ino
        refine ⟨?_, halike, hsound⟩
        obtain rfl := hs.keyed ino inode hinode
        rw [hpaths, inodeRow]
      · exact ⟨rfl, halike, hsound⟩
    · rw [if_neg hrow, Bool.eq_false_iff.2 hrow]
      exact ⟨rfl, .refl s, hs⟩

/-- Looking at candidates in turn answers as the tables say. The statistics
that a look leaves behind are those of the tables, so a later look finds
nothing else. -/
theorem lookInode_answers {summary : Summary}
    (hfinished : s.tables.Finished summary) (filter : InodeFilter) :
    Answers (lookInode filter) (fun s' => s.Alike s' ∧ s'.Sound)
      (inodeAnswer s.tables filter) := by
  have hlook : ∀ ino s', s.Alike s' → s'.Sound →
      (lookInode filter ino s').1 = inodeAnswer s.tables filter ino ∧
        s.Alike (lookInode filter ino s').2 ∧
        (lookInode filter ino s').2.Sound := by
    intro ino s' halike hsound
    rw [← halike.tables_eq] at hfinished
    obtain ⟨hrow, hmore, hkept⟩ := lookInode_eq hsound hfinished filter ino
    exact ⟨halike.tables_eq ▸ hrow, halike.trans hmore, hkept⟩
  refine ⟨fun ino s' h => (hlook ino s' h.1 h.2).1, fun ino s' h => ?_⟩
  exact (hlook ino s' h.1 h.2).2

-- =============================================================== answers

/-- The rows of the answer. -/
def inodeRows (s : Store β) (context : QueryContext)
    (filter : InodeFilter) : List InodeRow :=
  (inodeCandidates s context filter).filterMap (inodeAnswer s.tables filter)

/-- A row is that of the candidate it answers. -/
theorem inodeAnswer_eq_some_iff (hkeyed : s.tables.Keyed) {ino : Int64}
    {row : InodeRow} :
    inodeAnswer s.tables filter ino = some row ↔
      s.tables.inodes.get? ino = some row.inode ∧ row.inode.ino = ino ∧
        filter.acceptsRow row.inode = true ∧
        filter.acceptsStats (s.tables.statsOf row.inode) = true ∧
        row = inodeRow s.tables row.inode := by
  rw [inodeAnswer, Option.bind_eq_some_iff]
  constructor
  · rintro ⟨inode, hinode, hrow⟩
    split at hrow
    · next haccepts =>
      obtain rfl := Option.some_inj.1 hrow
      rw [Bool.and_eq_true] at haccepts
      exact ⟨hinode, hkeyed ino inode hinode, haccepts.1, haccepts.2, rfl⟩
    · cases hrow
  · rintro ⟨hinode, -, hrow, hstats, heq⟩
    refine ⟨row.inode, hinode, ?_⟩
    rw [if_pos (by rw [hrow, hstats]; rfl), ← heq]

/-- The answer has its rows in strictly ascending order. -/
theorem inodeRows_sorted (hkeyed : s.tables.Keyed) :
    (inodeRows s context filter).Pairwise
      fun a b => a.inode.ino < b.inode.ino := by
  refine (inodeCandidates_sorted s context filter).filterMap _ ?_
  intro i j hij a ha b hb
  obtain ⟨-, rfl, -⟩ := (inodeAnswer_eq_some_iff hkeyed).1 ha
  obtain ⟨-, rfl, -⟩ := (inodeAnswer_eq_some_iff hkeyed).1 hb
  exact hij

/-- The answer has every inode that is selected and no other. -/
theorem mem_inodeRows (hs : s.Sound) {summary : Summary}
    (hfinished : s.tables.Finished summary) {row : InodeRow} :
    row ∈ inodeRows s context filter ↔
      s.tables.inodes.get? row.inode.ino = some row.inode ∧
        SelectsInode s.tables context filter row.inode ∧
        row = inodeRow s.tables row.inode := by
  have hindex := hs.indexed summary hfinished
  rw [inodeRows, List.mem_filterMap]
  constructor
  · rintro ⟨ino, hcandidate, hanswer⟩
    obtain ⟨hinode, rfl, hrow, hstats, heq⟩ :=
      (inodeAnswer_eq_some_iff hs.keyed).1 hanswer
    rw [mem_inodeCandidates hindex] at hcandidate
    exact ⟨hinode, selectsInode_of_candidate hcandidate hrow hstats, heq⟩
  · rintro ⟨hinode, hselects, heq⟩
    refine ⟨row.inode.ino, ?_, (inodeAnswer_eq_some_iff hs.keyed).2
      ⟨hinode, rfl, hselects.acceptsRow, hselects.acceptsStats, heq⟩⟩
    rw [mem_inodeCandidates hindex]
    exact hselects.candidate hinode

-- =============================================================== queries

/-- The query with all its candidates. -/
def rowsOf (s : Store β) (context : QueryContext) (filter : InodeFilter) :
    InodeRows :=
  { filter
    cursor :=
      { pageSize := context.pageSize
        pending := inodeCandidates s context filter } }

/-- An inode query of a finished scan begins, unless a physical span begins
past the end of the device. -/
theorem inodes_eq {summary : Summary}
    (hfinished : s.tables.Finished summary)
    (hvisible : context.visible.isEmpty = false)
    (hphysical : ∀ r ∈ filter.extent.physical,
      r.first < summary.totalBytes) :
    inodes s context filter = .ok (rowsOf s context filter) := by
  rw [inodes, hvisible, if_neg Bool.false_ne_true,
    Store.ensureReady_eq_ok_iff.2 hfinished]
  show (checkPhysical summary filter.extent >>= _) = _
  rw [checkPhysical_eq_ok hphysical]
  rfl

/-- A query hands out the rows of the answer. -/
theorem take_rowsOf (hs : s.Sound) {summary : Summary}
    (hfinished : s.tables.Finished summary) (context : QueryContext)
    (filter : InodeFilter) (n : Nat) :
    ((rowsOf s context filter).cursor.take
        (rowsOf s context filter).look n s).1
      = (inodeRows s context filter).take n := by
  obtain ⟨htake, -⟩ :=
    (lookInode_answers hfinished filter).take
      (c := (rowsOf s context filter).cursor) n context.pageSize_pos
      ⟨.refl s, hs⟩
  exact htake

end DiskAtlas.Query

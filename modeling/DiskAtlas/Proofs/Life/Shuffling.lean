/-
Scans that are given the same extents in different orders. The calls of a
scan that put in extents look at nothing that the others change, so the
tables are those of the other calls, with the extents in the order in
which they were offered (`puts_eq`). Two scans with the same other calls
and the same extents in any order so have tables that differ in the order
of the extents at most, and what they answer when they are finished is the
same, up to the order of extents that nothing but their numbers can tell
apart (`scans_shuffled`).
-/
import Mathlib.Data.Multiset.Basic
import DiskAtlas.Proofs.Life.Twins
import DiskAtlas.Proofs.Store.Shuffled

namespace DiskAtlas

open StoreIndex

variable {β γ : Type}

-- =============================================================== answers

namespace Query

/-- All rows of an extent query. -/
def allExtents (s : Store β) (context : QueryContext)
    (filter : ExtentFilter) : Except Error (List ExtentRow) :=
  (extents s context filter).map fun rows => rows.cursor.all rows.look s

/-- A row without the travel score. -/
def untravelled (row : InodeRow) : Inode × List String × UInt64 :=
  (row.inode, row.paths, row.stats.extents)

end Query

/-- Two stores that answer the same but for the order of extents, and for
the travel scores that follow from it. -/
structure Store.SameButOrder (s : Store β) (s' : Store γ) : Prop where
  report : s'.report = s.report
  overview : ∀ cells force,
    (s'.overview cells force).1 = (s.overview cells force).1
  extents : ∀ context filter,
    (Query.allExtents s' context filter).map Multiset.ofList
      = (Query.allExtents s context filter).map Multiset.ofList
  inodes : ∀ context filter questions, filter.travel = [] →
    (Query.toldOfInodes s' context filter questions).map
        (List.map (List.map Query.untravelled))
      = (Query.toldOfInodes s context filter questions).map
        (List.map (List.map Query.untravelled))

-- ============================================================== selecting

section Selecting

variable {s : Store β} {s' : Store γ} {summary : Summary}

namespace Query

/-- The rows of an extent query, from the tables alone. -/
def selectedRows (s : Store β) (context : QueryContext)
    (filter : ExtentFilter) : List ExtentRow :=
  let inodes := pathInodes s filter.paths
  ((sortedExtents s.tables.extents).filter
    (acceptsExtent context filter inodes)).map
      fun e => ⟨e, s.tables.shownPath filter.paths e.ino⟩

/-- The rows an extent query builds, in the terms of the selected extents: the
query maps the candidates in table order and keeps what the filter accepts. -/
theorem map_answerRows (s : Store β) (context : QueryContext)
    (filter : ExtentFilter) :
    (answerRows s context filter).map (extentRow s.tables filter)
      = selectedRows s context filter := by
  rw [selectedRows, sortedExtents, List.filter_map, List.map_map]
  rfl

section Shuffled

variable (h : s.tables.Shuffled s'.tables) (context : QueryContext)

include h

theorem pathInodes_shuffled (paths : PathFilter) :
    pathInodes s' paths = pathInodes s paths := by
  unfold pathInodes inodesOfPaths
  rw [h.paths_eq]

/-- The path column is one of the inode's paths, chosen by their order and not
by the order of the rows. -/
theorem shownPath_shuffled (paths : PathFilter) (ino : Int64) :
    s'.tables.shownPath paths ino = s.tables.shownPath paths ino := by
  rw [Tables.shownPath, h.pathsOf_eq, Tables.shownPath]

/-- A query over shuffled extents selects the same rows, though maybe in
another order: extents of an inode that begin at the same place stand in the
order they came in. -/
theorem selectedRows_perm (filter : ExtentFilter) :
    (selectedRows s' context filter).Perm
      (selectedRows s context filter) := by
  unfold selectedRows
  simp only [pathInodes_shuffled h, shownPath_shuffled h]
  exact (h.sorted_perm.filter _).map _

/-- Where no two extents of an inode begin at the same place, nothing is left
to the order of arrival. -/
theorem selectedRows_eq (hapart : s.tables.Apart) (filter : ExtentFilter) :
    selectedRows s' context filter = selectedRows s context filter := by
  unfold selectedRows
  simp only [pathInodes_shuffled h, shownPath_shuffled h,
    h.sortedExtents_eq hapart]

/-- An inode is looked at whatever the order of its extents is. -/
theorem candidate_shuffled (filter : InodeFilter) (ino : Int64) :
    Candidate s'.tables context filter ino ↔
      Candidate s.tables context filter ino := by
  have hnamed : ∀ paths ino,
      Named s'.tables paths ino ↔ Named s.tables paths ino := by
    intro paths ino
    unfold Named
    rw [h.paths_eq]
  have hselects : ∀ filter e, Selects s'.tables context filter e ↔
      Selects s.tables context filter e := by
    intro filter e
    refine ⟨fun h' => ⟨h'.visible, h'.accepted, fun hactive => ?_⟩,
      fun h' => ⟨h'.visible, h'.accepted, fun hactive => ?_⟩⟩
    · exact (hnamed _ _).1 (h'.named hactive)
    · exact (hnamed _ _).2 (h'.named hactive)
  unfold Candidate
  simp only [h.mem_iff, hselects, hnamed, h.inodes_eq]

/-- The candidates of an inode query come from the inode table and the paths,
both kept in order of their keys. -/
theorem inodeCandidates_shuffled (hindex : s.index = .build s.tables)
    (hindex' : s'.index = .build s'.tables) (filter : InodeFilter) :
    inodeCandidates s' context filter = inodeCandidates s context filter := by
  refine Sorting.eq_of_sorted (fun a b hab hba => ?_)
    (inodeCandidates_sorted s' context filter)
    (inodeCandidates_sorted s context filter) fun ino => ?_
  · exact Int64.lt_irrefl (Int64.lt_trans hab hba)
  · rw [mem_inodeCandidates hindex, mem_inodeCandidates hindex',
      candidate_shuffled h]

/-- But for the travel score, an inode is answered whatever the order of
its extents is, if nothing is asked of the score. -/
theorem inodeAnswer_shuffled {filter : InodeFilter}
    (htravel : filter.travel = []) (ino : Int64) :
    (inodeAnswer s'.tables filter ino).map untravelled
      = (inodeAnswer s.tables filter ino).map untravelled := by
  have hstats : ∀ inode,
      filter.acceptsStats (s'.tables.statsOf inode)
        = filter.acceptsStats (s.tables.statsOf inode) := by
    intro inode
    rw [InodeFilter.acceptsStats, InodeFilter.acceptsStats, htravel,
      h.count_statsOf]
    simp only [Span.anyContains, List.isEmpty_nil, Bool.true_or]
  unfold inodeAnswer
  rw [h.inodes_eq]
  cases s.tables.inodes.get? ino with
  | none => rfl
  | some inode =>
    rw [Option.bind_some, Option.bind_some, hstats]
    split
    · simp only [Option.map_some, untravelled, inodeRow, h.pathsOf_eq,
        h.count_statsOf]
    · rfl

/-- Apart from travel, an inode's answer is made of sums over its extents; with
the extents apart, its travel is the same too. -/
theorem inodeAnswer_eq_of_shuffled (hapart : s.tables.Apart)
    (filter : InodeFilter) :
    inodeAnswer s'.tables filter = inodeAnswer s.tables filter := by
  funext ino
  simp only [inodeAnswer, inodeRow, h.inodes_eq, h.statsOf_eq hapart,
    h.pathsOf_eq]

end Shuffled

-- =============================================================== queries

/-- What a query of a finished scan begins with. -/
theorem extents_ready (hfinished : s.tables.Finished summary)
    (context : QueryContext) (filter : ExtentFilter) :
    extents s context filter =
      if context.visible.isEmpty then
        .ok ⟨context, filter, none,
          { pageSize := context.pageSize, pending := [] }⟩
      else (checkPhysical summary filter).map fun _ =>
        rowsFrom s context filter (.picked filter) := by
  unfold extents
  rw [Store.ensureReady_eq_ok_iff.2 hfinished]
  split
  · rfl
  · show (checkPhysical summary filter >>= _) = _
    rw [rowsFrom, ← candidates_eq_picked]
    rfl

/-- After a finish, an inode query begins on the candidates of its filter.
Without a visible type it is empty from the start. -/
theorem inodes_ready (hfinished : s.tables.Finished summary)
    (context : QueryContext) (filter : InodeFilter) :
    inodes s context filter =
      if context.visible.isEmpty then
        .ok ⟨filter, { pageSize := context.pageSize, pending := [] }⟩
      else (checkPhysical summary filter.extent).map fun _ =>
        rowsOf s context filter := by
  unfold inodes
  rw [Store.ensureReady_eq_ok_iff.2 hfinished]
  split
  · rfl
  · show (checkPhysical summary filter.extent >>= _) = _
    rfl

/-- All rows of a query are those that the tables select. -/
theorem allExtents_eq (hindex : s.index = .build s.tables)
    (hfinished : s.tables.Finished summary) (context : QueryContext)
    (filter : ExtentFilter) :
    allExtents s context filter =
      if context.visible.isEmpty then .ok []
      else (checkPhysical summary filter).map fun _ =>
        selectedRows s context filter := by
  rw [allExtents, extents_ready hfinished]
  split
  · rfl
  · cases checkPhysical summary filter with
    | error e => rfl
    | ok =>
      have hanswers := lookExtent_answers s context filter
        (pathInodes s filter.paths)
      refine congrArg Except.ok ?_
      refine (hanswers.all context.pageSize_pos rfl).trans ?_
      refine (filterMap_lookExtent hindex
        (Source.isOffered_picked filter)).trans ?_
      exact map_answerRows s context filter

section Shuffled

variable (h : s.tables.Shuffled s'.tables) (context : QueryContext)

include h

/-- The extent query without pages, as a multiset: this is where the order of
arrival is forgotten. -/
theorem allExtents_shuffled (hindex : s.index = .build s.tables)
    (hindex' : s'.index = .build s'.tables)
    (hfinished : s.tables.Finished summary) (filter : ExtentFilter) :
    (allExtents s' context filter).map Multiset.ofList
      = (allExtents s context filter).map Multiset.ofList := by
  have hfinished' : s'.tables.Finished summary :=
    ⟨h.summary_eq.trans hfinished.1, hfinished.2⟩
  rw [allExtents_eq hindex hfinished, allExtents_eq hindex' hfinished']
  split
  · rfl
  · cases checkPhysical summary filter with
    | error e => rfl
    | ok =>
      exact congrArg Except.ok
        (Multiset.coe_eq_coe.2 (selectedRows_perm h context filter))

/-- Where extents lie apart, extent queries cannot be told apart however
they are asked. -/
theorem toldOfExtents_shuffled (hindex : s.index = .build s.tables)
    (hindex' : s'.index = .build s'.tables)
    (hfinished : s.tables.Finished summary) (hapart : s.tables.Apart)
    (filter : ExtentFilter) (questions : List Question) :
    toldOfExtents s' context filter questions
      = toldOfExtents s context filter questions := by
  have hfinished' : s'.tables.Finished summary :=
    ⟨h.summary_eq.trans hfinished.1, hfinished.2⟩
  rw [toldOfExtents, toldOfExtents, extents_ready hfinished,
    extents_ready hfinished']
  split
  · exact congrArg Except.ok
      (Cursor.told_congr_of_none_left _ questions _ rfl rfl rfl rfl _ _)
  · cases checkPhysical summary filter with
    | error e => rfl
    | ok =>
      have hanswers := lookExtent_answers s context filter
        (pathInodes s filter.paths)
      have hanswers' := lookExtent_answers s' context filter
        (pathInodes s' filter.paths)
      have hoffered := Source.isOffered_picked filter
      -- the numbers of the candidates differ, but the rows behind them do not
      have hlevel : Answers.Level
          (fun id => (lookExtent context filter
            (pathInodes s filter.paths) id s).1)
          (fun id => (lookExtent context filter
            (pathInodes s' filter.paths) id s').1) id id
          (rowsFrom s context filter (.picked filter)).cursor
          (rowsFrom s' context filter (.picked filter)).cursor := by
        refine ⟨rfl, rfl, congrArg (List.map id) ?_⟩
        refine (filterMap_lookExtent hindex' hoffered).trans ?_
        rw [map_answerRows, selectedRows_eq h context hapart,
          ← map_answerRows]
        exact (filterMap_lookExtent hindex hoffered).symm
      have htold := hanswers.told_level hanswers' questions rfl rfl hlevel
      simp only [List.map_id_fun, List.map_id] at htold
      exact congrArg Except.ok htold

/-- Every answer of an inode cursor but its travel is the same, question by
question, unless the filter asks for travel. Travel sums the gaps between
neighbours, and which extents are neighbours depends on the order of those that
begin at the same place. -/
theorem toldOfInodes_shuffled (hs : s.Sound) (hs' : s'.Sound)
    (hfinished : s.tables.Finished summary) {filter : InodeFilter}
    (htravel : filter.travel = []) (questions : List Question) :
    (toldOfInodes s' context filter questions).map
        (List.map (List.map untravelled))
      = (toldOfInodes s context filter questions).map
        (List.map (List.map untravelled)) := by
  have hfinished' : s'.tables.Finished summary :=
    ⟨h.summary_eq.trans hfinished.1, hfinished.2⟩
  rw [toldOfInodes, toldOfInodes, inodes_ready hfinished,
    inodes_ready hfinished']
  split
  · exact congrArg (Except.ok ∘ List.map (List.map untravelled))
      (Cursor.told_congr_of_none_left _ questions _ rfl rfl rfl rfl _ _)
  · cases checkPhysical summary filter.extent with
    | error e => rfl
    | ok =>
      have hanswers := lookInode_answers hfinished filter
      have hanswers' := lookInode_answers hfinished' filter
      -- the candidates are the same, and their answers agree but for the
      -- travel
      have hlevel : Answers.Level (inodeAnswer s.tables filter)
          (inodeAnswer s'.tables filter) untravelled untravelled
          (rowsOf s context filter).cursor
          (rowsOf s' context filter).cursor := by
        refine ⟨rfl, rfl, ?_⟩
        show ((inodeCandidates s' context filter).filterMap
            (inodeAnswer s'.tables filter)).map untravelled
          = ((inodeCandidates s context filter).filterMap
            (inodeAnswer s.tables filter)).map untravelled
        rw [inodeCandidates_shuffled h context
          (hs.indexed summary hfinished) (hs'.indexed summary hfinished'),
          List.map_filterMap, List.map_filterMap]
        simp only [inodeAnswer_shuffled h htravel]
      exact congrArg Except.ok (hanswers.told_level hanswers' questions
        ⟨.refl s, hs⟩ ⟨.refl s', hs'⟩ hlevel)

/-- The strengthened form: with the extents apart the answers agree with their
travel. -/
theorem toldOfInodes_eq_of_shuffled (hs : s.Sound) (hs' : s'.Sound)
    (hfinished : s.tables.Finished summary) (hapart : s.tables.Apart)
    (filter : InodeFilter) (questions : List Question) :
    toldOfInodes s' context filter questions
      = toldOfInodes s context filter questions := by
  have hfinished' : s'.tables.Finished summary :=
    ⟨h.summary_eq.trans hfinished.1, hfinished.2⟩
  rw [toldOfInodes, toldOfInodes, inodes_ready hfinished,
    inodes_ready hfinished']
  split
  · exact congrArg Except.ok
      (Cursor.told_congr_of_none_left _ questions _ rfl rfl rfl rfl _ _)
  · cases checkPhysical summary filter.extent with
    | error e => rfl
    | ok =>
      have hanswers := lookInode_answers hfinished filter
      have hanswers' := lookInode_answers hfinished' filter
      rw [inodeAnswer_eq_of_shuffled h hapart] at hanswers'
      have hrows : rowsOf s' context filter = rowsOf s context filter := by
        rw [rowsOf, inodeCandidates_shuffled h context
          (hs.indexed summary hfinished) (hs'.indexed summary hfinished'),
          rowsOf]
      refine congrArg Except.ok ?_
      dsimp only
      rw [hrows]
      exact hanswers'.told_eq hanswers questions _ ⟨.refl s', hs'⟩
        ⟨.refl s, hs⟩

end Shuffled

end Query

section Stores

variable (h : s.tables.Shuffled s'.tables) (hs : s.Sound) (hs' : s'.Sound)

include h

theorem Store.ensureReady_shuffled : s'.ensureReady = s.ensureReady := by
  unfold ensureReady
  rw [h.summary_eq]

include hs hs'

/-- The overview counts extents by cell, and a count does not see the order of
what it counts. -/
theorem Store.overview_shuffled (cells : UInt64) (force : Bool) :
    (s'.overview cells force).1 = (s.overview cells force).1 := by
  rw [overview_eq hs', overview_eq hs, overviewScan, ensureReady_shuffled h,
    overviewScan]
  simp only [h.overviewOf_eq]

variable (hfinished : s.tables.Finished summary)

include hfinished

/-- Finished stores whose tables differ in the order of extents answer the
same but for that order. -/
theorem Store.sameButOrder_of_shuffled : s.SameButOrder s' := by
  have hfinished' : s'.tables.Finished summary :=
    ⟨h.summary_eq.trans hfinished.1, hfinished.2⟩
  have hindex := hs.indexed summary hfinished
  have hindex' := hs'.indexed summary hfinished'
  refine ⟨?_, overview_shuffled h hs hs', fun context filter => ?_,
    fun context filter questions htravel => ?_⟩
  · unfold Store.report
    rw [ensureReady_shuffled h, h.size_eq, hindex, hindex', h.stretch_eq]
  · exact Query.allExtents_shuffled h context hindex hindex' hfinished filter
  · exact Query.toldOfInodes_shuffled h context hs hs' hfinished htravel
      questions

/-- Where extents lie apart, they answer the same. -/
theorem Store.sameFigures_of_shuffled (hapart : s.tables.Apart)
    (hfsPath : s'.fsPath = s.fsPath) : s.SameFigures s' := by
  have hfinished' : s'.tables.Finished summary :=
    ⟨h.summary_eq.trans hfinished.1, hfinished.2⟩
  have hindex := hs.indexed summary hfinished
  have hindex' := hs'.indexed summary hfinished'
  have hinode : ∀ ino, s'.inode ino = s.inode ino := by
    intro ino
    rw [inode, h.inodes_eq, inode]
  refine ⟨⟨hinode, ?_, fun path => ?_, fun ino => ?_, h.size_eq, ?_,
    (sameButOrder_of_shuffled h hs hs' hfinished).report,
    fun context filter questions => ?_, fun context filter questions => ?_⟩,
    ⟨fun ino => ?_, fun ino => ?_⟩, fun ino => ?_,
    overview_shuffled h hs hs'⟩
  · rw [inodes, h.inodes_eq, inodes]
  · rw [lookupPath, h.paths_eq, lookupPath]
  · rw [listDirectory, h.directories_eq, listDirectory]
  · unfold isStale
    rw [h.summary_eq, hfsPath]
  · exact Query.toldOfExtents_shuffled h context hindex hindex' hfinished
      hapart filter questions
  · exact Query.toldOfInodes_eq_of_shuffled h context hs hs' hfinished hapart
      filter questions
  · rw [pathsOf_eq hindex', h.pathsOf_eq, pathsOf_eq hindex]
  · rw [extentsOf_eq hindex', h.extentsOf_eq hapart, extentsOf_eq hindex]
  · rw [inodeStats_eq hs', inodeStats_eq hs, ensureReady_shuffled h, hinode]
    simp only [h.statsOf_eq hapart]

end Stores

end Selecting

-- =============================================================== offering

/-- A session with some more rows of extents, and some more left out. -/
def Session.taking (x : Session β) (rows : List Extent) (out : Nat) :
    Session β :=
  let t := x.store.tables
  { x.withTables { t with extents := t.extents ++ rows.toArray } with
    discarded := x.discarded + out }

theorem Session.taking_taking (x : Session β) (rows rows' : List Extent)
    (out out' : Nat) :
    (x.taking rows out).taking rows' out'
      = x.taking (rows ++ rows') (out + out') := by
  simp [taking, withTables, Nat.add_assoc]

/-- An inode offered before or after rows that a session took in bulk leaves
the same session, since a bulk of extents touches neither the inodes nor the
paths. -/
theorem Session.insertInode_taking (x : Session β) (rows : List Extent)
    (out : Nat) (row : Inode) (path : String) :
    (x.taking rows out).insertInode row path
      = ((x.insertInode row path).1,
        (x.insertInode row path).2.taking rows out) := by
  unfold insertInode
  rw [show (x.taking rows out).separator = x.separator from rfl]
  cases pathError? x.separator path <;> rfl

namespace Life

namespace Call

def isExtent : Call → Bool
  | .extent _ _ _ => true
  | _ => false

def isDevice : Call → Bool
  | .device _ _ _ => true
  | _ => false

/-- The row that a call puts into the table of extents, if it does. -/
def row? : Call → Option Extent
  | .extent row raw isXattr =>
    let e := Session.extentOf row raw isXattr
    if raw.flags.intersects .uncommitted then none
    else if e.length != 0 && Session.fits e.length e.physical
        && e.logical.all (Session.fits e.length) then some e
    else none
  | _ => none

/-- How many extents a call leaves out. -/
def leavesOut (call : Call) : Bool := call.isExtent && call.row?.isNone

variable {x : Session β} {call : Call}

/-- An extent is put in or left out, and nothing else changes. -/
theorem put_extent (h : call.isExtent = true) :
    call.put x
      = x.taking call.row?.toList (if call.leavesOut then 1 else 0) := by
  cases call with
  | extent row raw isXattr =>
    unfold leavesOut put Session.insertExtent Session.pushExtent
    dsimp only [row?, isExtent]
    split
    · simp [Session.taking, Session.withTables]
    · split
      · simp [Session.taking, Session.withTables]
      · simp [Session.taking, Session.withTables]
  | _ => cases h

/-- Names and inodes are put in whatever extents there are. -/
theorem put_taking (hextent : call.isExtent = false)
    (hdevice : call.isDevice = false) (rows : List Extent) (out : Nat) :
    call.put (x.taking rows out) = (call.put x).taking rows out := by
  cases call with
  | inode row path => simp only [put, Session.insertInode_taking]
  | directory parent names => rfl
  | extent row raw isXattr => cases hextent
  | device wanted map calledOff => cases hdevice

/-- Calls that put in no extent do not look at the extents. -/
theorem puts_taking (calls : List Call)
    (hcalls : ∀ call ∈ calls, call.isExtent = false ∧ call.isDevice = false)
    (x : Session β) (rows : List Extent) (out : Nat) :
    calls.foldl (fun x call => call.put x) (x.taking rows out)
      = (calls.foldl (fun x call => call.put x) x).taking rows out := by
  induction calls generalizing x with
  | nil => rfl
  | cons call rest ih =>
    obtain ⟨hextent, hdevice⟩ := hcalls call List.mem_cons_self
    rw [List.foldl_cons, put_taking hextent hdevice]
    exact ih (fun other hother =>
      hcalls other (List.mem_cons_of_mem _ hother)) _

/-- Calls that map no device come to the same as the calls that put in no
extent, and the extents of the others behind them. -/
theorem puts_eq (calls : List Call)
    (hdevice : ∀ call ∈ calls, call.isDevice = false) (x : Session β) :
    calls.foldl (fun x call => call.put x) x
      = ((calls.filter (!·.isExtent)).foldl (fun x call => call.put x)
          x).taking ((calls.filter (·.isExtent)).filterMap row?)
        ((calls.filter (·.isExtent)).countP leavesOut) := by
  -- an extent is put behind whatever the other calls do, so all extents can be
  -- put at once when the others are done
  induction calls generalizing x with
  | nil => simp [Session.taking, Session.withTables]
  | cons call rest ih =>
    have hrest : ∀ other ∈ rest, other.isDevice = false := fun other hother =>
      hdevice other (List.mem_cons_of_mem _ hother)
    rw [List.foldl_cons, ih hrest]
    cases hextent : call.isExtent with
    | true =>
      have hothers : ∀ other ∈ rest.filter (!·.isExtent),
          other.isExtent = false ∧ other.isDevice = false := by
        intro other hother
        obtain ⟨hmem, hnot⟩ := List.mem_filter.1 hother
        exact ⟨by simpa using hnot, hrest other hmem⟩
      rw [put_extent hextent, puts_taking _ hothers, Session.taking_taking,
        List.filter_cons_of_neg (by simp [hextent]),
        List.filter_cons_of_pos hextent, List.countP_cons, Nat.add_comm]
      congr 1
      cases hrow : call.row? with
      | none => rw [List.filterMap_cons_none hrow, Option.toList_none,
          List.nil_append]
      | some e => rw [List.filterMap_cons_some hrow, Option.toList_some,
          List.singleton_append]
    | false =>
      rw [List.filter_cons_of_pos (by simp [hextent]),
        List.filter_cons_of_neg (by simp [hextent]), List.foldl_cons]

end Call

-- ================================================================= scans

/-- Two scans with the same other calls and the same extents in any
order. -/
structure SameOffers (calls calls' : List Call) : Prop where
  noDevice : ∀ call ∈ calls, call.isDevice = false
  others : calls'.filter (!·.isExtent) = calls.filter (!·.isExtent)
  extents : (calls'.filter (·.isExtent)).Perm (calls.filter (·.isExtent))

namespace SameOffers

variable {calls calls' : List Call}

theorem noDevice' (h : SameOffers calls calls') :
    ∀ call ∈ calls', call.isDevice = false := by
  intro call hcall
  cases hextent : call.isExtent with
  | true =>
    have hmem : call ∈ calls'.filter (·.isExtent) :=
      List.mem_filter.2 ⟨hcall, hextent⟩
    exact h.noDevice call (List.mem_filter.1 (h.extents.mem_iff.1 hmem)).1
  | false =>
    have hmem : call ∈ calls'.filter (!·.isExtent) :=
      List.mem_filter.2 ⟨hcall, by simp [hextent]⟩
    rw [h.others] at hmem
    exact h.noDevice call (List.mem_filter.1 hmem).1

/-- They fill tables that differ in the order of the extents, and leave
out the same number. -/
theorem filled (h : SameOffers calls calls') (fsPath : String)
    (given : Summary) :
    (Life.filled fsPath given calls).store.tables.Shuffled
        (Life.filled fsPath given calls').store.tables ∧
      (Life.filled fsPath given calls').discarded
        = (Life.filled fsPath given calls).discarded := by
  have hrows := h.extents.filterMap Call.row?
  have hout := h.extents.countP_eq Call.leavesOut
  unfold Life.filled
  rw [Call.puts_eq calls h.noDevice, Call.puts_eq calls' h.noDevice',
    h.others, hout]
  refine ⟨⟨rfl, rfl, rfl, rfl, ?_⟩, rfl⟩
  simpa [Session.taking, Session.withTables] using hrows.append_left _

end SameOffers

variable [Backend β] [Backend γ] {fsPath : String} {given : Summary}
  {calls calls' : List Call} {x : Session β} {y : Session γ}

/-- A scan that was begun on any store, and filled by some calls and saved
now and then. -/
inductive ScanOf (fsPath : String) (given : Summary) :
    List Call → Session β → Prop where
  | begun {s s' : Store β} (about : s.fsPath = fsPath)
      (begins : s.beginScanWith given = (.ok (), s')) :
      ScanOf fsPath given [] { store := s' }
  | put {calls : List Call} {x : Session β}
      (before : ScanOf fsPath given calls x) (call : Call) :
      ScanOf fsPath given (calls ++ [call]) (call.put x)
  | saved {calls : List Call} {x : Session β}
      (before : ScanOf fsPath given calls x) :
      ScanOf fsPath given calls x.checkpoint.2

/-- Nothing is computed during a scan, and its rows are those of the
calls. -/
theorem ScanOf.filled (h : ScanOf fsPath given calls x) :
    x.store.fsPath = fsPath ∧ x.store.calculated = .empty ∧
      x = (Life.filled fsPath given calls).within x.store := by
  -- a save moves neither rows nor counters, so only the calls matter
  induction h with
  | @begun s s' about begins =>
    have htwins : (s.cleared given).Twins s' := by
      unfold Store.beginScanWith at begins
      split at begins
      · cases (Prod.mk.inj begins).1
      · have hkept := (s.cleared given).twins_persist
        rwa [begins] at hkept
    obtain ⟨hfsPath, htables, -, hcalculated⟩ := htwins
    refine ⟨hfsPath.trans about, hcalculated, Session.eq_within_iff.2
      ⟨htables.trans ?_, rfl⟩⟩
    rw [← about]
    rfl
  | @put calls x _ call ih =>
    obtain ⟨hfsPath, hnothing, hrows⟩ := ih
    have hstore := (call.put_fills x).store_eq
    refine ⟨?_, ?_, ?_⟩
    · rw [hstore]
      exact hfsPath
    · rw [hstore]
      exact hnothing
    · rw [filled_snoc]
      exact call.eq_within_put hrows
  | @saved calls x _ ih =>
    obtain ⟨hfsPath, hnothing, hrows⟩ := ih
    obtain ⟨htables, hdiscarded⟩ := Session.eq_within_iff.1 hrows
    have hkept := x.store.twins_persist
    exact ⟨hkept.fsPath_eq.trans hfsPath,
      hkept.calculated_eq.trans hnothing,
      Session.eq_within_iff.2 ⟨hkept.tables_eq.trans htables, hdiscarded⟩⟩

/-- Finishing a scan leaves a sound store with the rows of the calls,
whether it can be saved or not. -/
theorem ScanOf.finish (h : ScanOf fsPath given calls x) :
    ∃ summary, (x.finishedStore summary).Twins x.finish.2 ∧
      x.finish.2.Sound ∧
      summary = { given with path := fsPath, finished := false } := by
  obtain ⟨-, hnothing, hrows⟩ := h.filled
  obtain ⟨htables, -⟩ := Session.eq_within_iff.1 hrows
  have hsummary : x.summary
      = some { given with path := fsPath, finished := false } := by
    rw [Session.summary, htables]
    exact summary_filled fsPath given calls
  have htwins : ∀ summary, x.summary = some summary →
      (x.finishedStore summary).Twins x.finish.2 := by
    intro summary hsummary
    have hkept := (x.finishedStore summary).twins_persist
    unfold Session.finish
    rw [hsummary]
    dsimp only
    split
    · next hpersist => rwa [hpersist] at hkept
    · next hpersist => rwa [hpersist] at hkept
  have hkeyed : x.store.tables.Keyed := by
    rw [htables]
    exact (Call.puts_fills calls (blankScan fsPath given)).keyed
      fun _ _ h => nomatch h
  refine ⟨_, htwins _ hsummary, ?_, rfl⟩
  exact (htwins _ hsummary).sound
    (sound_finishedStore hkeyed hnothing _)

/-- Two scans that put in the same names and inodes, and the same extents
in any order, answer the same when they are finished, but for the order of
extents and what follows from it. Where no two extents of an inode begin
at one place in it and on the device, they answer the same altogether. -/
theorem scans_shuffled (hx : ScanOf fsPath given calls x)
    (hy : ScanOf fsPath given calls' y) (h : SameOffers calls calls') :
    y.discarded = x.discarded ∧
      x.finish.2.SameButOrder y.finish.2 ∧
      (x.store.tables.Apart → x.finish.2.SameFigures y.finish.2) := by
  obtain ⟨hfsPathx, -, hrowsx⟩ := hx.filled
  obtain ⟨hfsPathy, -, hrowsy⟩ := hy.filled
  obtain ⟨htablesx, hdiscardedx⟩ := Session.eq_within_iff.1 hrowsx
  obtain ⟨htablesy, hdiscardedy⟩ := Session.eq_within_iff.1 hrowsy
  obtain ⟨hshuffled, hdiscarded⟩ := h.filled fsPath given
  rw [← htablesx, ← htablesy] at hshuffled
  obtain ⟨summary, htwinsx, hsoundx, rfl⟩ := hx.finish
  obtain ⟨-, htwinsy, hsoundy, rfl⟩ := hy.finish
  -- finishing raises the total to the same end on both sides
  have hfinal : x.finish.2.tables.Shuffled y.finish.2.tables := by
    rw [htwinsx.tables_eq, htwinsy.tables_eq]
    refine ⟨?_, hshuffled.inodes_eq, hshuffled.paths_eq,
      hshuffled.directories_eq, hshuffled.perm⟩
    dsimp only [Session.finishedStore]
    rw [Session.raiseTotal_perm _ hshuffled.perm]
  have hfinished : ∃ summary, x.finish.2.tables.Finished summary := by
    rw [htwinsx.tables_eq]
    exact ⟨_, rfl, rfl⟩
  obtain ⟨summary, hfinished⟩ := hfinished
  refine ⟨?_, Store.sameButOrder_of_shuffled hfinal hsoundx hsoundy
    hfinished, fun hapart => ?_⟩
  · rw [hdiscardedx, hdiscardedy, hdiscarded]
  · refine Store.sameFigures_of_shuffled hfinal hsoundx hsoundy hfinished ?_ ?_
    · rw [htwinsx.tables_eq]
      exact hapart
    · rw [htwinsx.fsPath_eq, htwinsy.fsPath_eq]
      exact hfsPathy.trans hfsPathx.symm

/-- Every list of calls makes a scan in a new place in memory. -/
theorem scanOf_filled (fsPath : String) (given : Summary)
    (calls : List Call) :
    ScanOf fsPath given calls
      ((Life.filled fsPath given calls).within (Life.begun fsPath given)) := by
  induction calls using List.reverseRecOn with
  | nil =>
    let blank : Store Vault :=
      { backend := {}, fsPath, tables := .empty, index := .build .empty,
        calculated := .empty, dirty := false }
    exact .begun (s := blank) rfl rfl
  | append_singleton calls call ih =>
    have hput := ih.put call
    rwa [call.within_put, ← filled_snoc] at hput

/-- The calls of a scan that finds one file with two extents. -/
def twoExtents : List Call :=
  [.inode (.bare 7 .file) "/a",
    .extent (.bare 7 .file) ⟨0, 4096, 512, .empty⟩ false,
    .extent (.bare 7 .file) ⟨512, 8192, 512, .empty⟩ false]

/-- The same with the extents the other way round, and one of them before
the file. -/
def twoExtentsBack : List Call :=
  [.extent (.bare 7 .file) ⟨512, 8192, 512, .empty⟩ false,
    .inode (.bare 7 .file) "/a",
    .extent (.bare 7 .file) ⟨0, 4096, 512, .empty⟩ false]

/-- The tables of the two scans are not the same, and all answers are. -/
theorem scans_shuffled_twoExtents :
    let scan := fun calls =>
      (Life.filled "/" (.blank "/") calls).within
        (Life.begun "/" (.blank "/"))
    SameOffers twoExtents twoExtentsBack ∧
      (scan twoExtents).store.tables ≠ (scan twoExtentsBack).store.tables ∧
      (scan twoExtents).finish.2.SameFigures
        (scan twoExtentsBack).finish.2 := by
  intro scan
  have hoffers : SameOffers twoExtents twoExtentsBack := by
    refine ⟨?_, rfl, .swap _ _ _⟩
    intro call hcall
    simp only [twoExtents, List.mem_cons, List.not_mem_nil, or_false] at hcall
    rcases hcall with rfl | rfl | rfl <;> rfl
  have hrows : (scan twoExtents).store.tables.extents.toList
      = [⟨7, 4096, some 0, 512, .empty, .file⟩,
        ⟨7, 8192, some 512, 512, .empty, .file⟩] := rfl
  have hapart : (scan twoExtents).store.tables.Apart := by
    rw [Tables.Apart, hrows]
    simp [Extent.SamePlace]
  obtain ⟨-, -, hsame⟩ :=
    scans_shuffled (scanOf_filled "/" (.blank "/") twoExtents)
      (scanOf_filled "/" (.blank "/") twoExtentsBack) hoffers
  exact ⟨hoffers, by decide, hsame hapart⟩

end Life

end DiskAtlas

/-
The answer to an extent query. It is the table in the order of answers,
without the rows that the query does not accept (`answerRows`), whichever
source the plan reads (`numbers_filter_eq`); checking a candidate a second
time drops what a source finds too much, and every row that is left comes
once, with a path of its owner. So a query hands out just these rows
(`take_rowsFrom`).

A candidate is looked up, checked and shown in one step, and a row that is
shown has been checked. So the sources need only find enough, and which of
them is read cannot be seen in the answer.
-/
import DiskAtlas.Proofs.Query.Meaning
import DiskAtlas.Proofs.Query.Paging
import DiskAtlas.Proofs.Query.Sources

namespace DiskAtlas

/-- The path that is shown with an extent of an inode: its first path, of
those that match if the path dimension is active. -/
def Tables.shownPath (t : Tables) (paths : PathFilter) (ino : Int64) :
    Option String :=
  if paths.isActive then (t.pathsOf ino).find? paths.accepts
  else (t.pathsOf ino).head?

namespace Query

open StoreIndex

variable {β : Type} {s : Store β} {context : QueryContext}
  {filter : ExtentFilter}

-- ================================================================ paths

/-- The path shown with a row, from the tables. Where patterns are asked for,
the owner of a selected row has a path that matches, and the first such path is
shown. -/
theorem rowPath_eq (hindex : s.index = .build s.tables)
    {paths : PathFilter} {ino : Int64}
    (hnamed : paths.isActive = true → Named s.tables paths ino) :
    rowPath s paths ino = s.tables.shownPath paths ino := by
  rw [rowPath, Store.pathsOf_eq hindex, Tables.shownPath]
  split
  · next hactive =>
    -- the owner has a path that matches, so its first path is not asked
    obtain ⟨path, hentry, pattern, hpattern, haccepts⟩ := hnamed hactive
    have hfound : ((s.tables.pathsOf ino).find? paths.accepts).isSome
        = true := by
      rw [List.find?_isSome]
      refine ⟨path, ?_, ?_⟩
      · simpa [Tables.pathsOf] using hentry
      · simp only [PathFilter.accepts, Bool.or_eq_true, List.any_eq_true]
        exact Or.inr ⟨pattern, hpattern, haccepts⟩
    obtain ⟨first, hfirst⟩ := Option.isSome_iff_exists.1 hfound
    rw [hfirst]
    rfl
  · next hinactive =>
    have hall : paths.accepts = fun _ => true := by
      funext path
      simp [PathFilter.accepts, hinactive]
    rw [hall]
    cases s.tables.pathsOf ino <;> rfl

-- ================================================================= rows

/-- The extents of the answer, with their numbers. -/
def answerRows (s : Store β) (context : QueryContext)
    (filter : ExtentFilter) : List NumberedExtent :=
  (sortedRows s.tables.extents).filter fun r =>
    acceptsExtent context filter (pathInodes s filter.paths) r.1

/-- The answer has its rows in strictly ascending order. -/
theorem answerRows_sorted :
    (answerRows s context filter).Pairwise
      fun a b => compareExtents a b = .lt :=
  (sortedRows_sorted s.tables.extents).filter _

/-- The answer has every extent that is selected and no other. -/
theorem mem_answerRows {e : Extent} {id : Nat} :
    (e, id) ∈ answerRows s context filter ↔
      s.tables.extents[id]? = some e ∧ Selects s.tables context filter e := by
  rw [answerRows, List.mem_filter, mem_sortedRows, acceptsExtent_eq_true_iff]

/-- Whatever source is read, what is left of it are the numbers of the
answer. -/
theorem numbers_filter_eq (hindex : s.index = .build s.tables)
    {source : Source} (hoffered : source.isOffered filter = true) :
    (source.numbers s filter).filter (acceptsNumber s context filter)
      = (answerRows s context filter).map (·.2) := by
  rw [Source.filter_numbers hindex context hoffered, hindex, order_build,
    List.filter_map, answerRows]
  congr 1
  refine List.filter_congr fun r hr => ?_
  have hrow : s.tables.extents[r.2]? = some r.1 := mem_sortedRows.1 hr
  rw [Function.comp_apply, acceptsNumber, hrow]
  rfl

-- =============================================================== looking

/-- The row that is shown for an extent of the answer. -/
def extentRow (t : Tables) (filter : ExtentFilter) (r : NumberedExtent) :
    ExtentRow :=
  ⟨r.1, t.shownPath filter.paths r.1.ino⟩

/-- Looking at a candidate leaves the store alone. -/
theorem lookExtent_answers (s : Store β) (context : QueryContext)
    (filter : ExtentFilter) (inodes : Option (List Int64)) :
    Answers (lookExtent context filter inodes) (fun s' => s' = s)
      fun id => (lookExtent context filter inodes id s).1 := by
  refine ⟨fun id s' h => h ▸ rfl, fun id s' h => ?_⟩
  subst h
  unfold lookExtent
  split
  · rfl
  · split
    · rfl
    · rfl

/-- A candidate is answered with its row if it is of the answer, and
otherwise not at all. -/
theorem filterMap_lookExtent (hindex : s.index = .build s.tables)
    {source : Source} (hoffered : source.isOffered filter = true) :
    ((source.numbers s filter).filterMap fun id =>
        (lookExtent context filter (pathInodes s filter.paths) id s).1)
      = (answerRows s context filter).map (extentRow s.tables filter) := by
  have hlook : (fun id =>
      (lookExtent context filter (pathInodes s filter.paths) id s).1)
      = fun id => if acceptsNumber s context filter id then
          s.tables.extents[id]?.map fun e =>
            ⟨e, rowPath s filter.paths e.ino⟩
        else none := by
    funext id
    unfold lookExtent acceptsNumber
    cases s.tables.extents[id]? with
    | none => rfl
    | some e =>
      simp only [Option.any_some, Option.map_some]
      split
      · rfl
      · rfl
  -- a row that is selected has a path the patterns name, if there are any
  have hrows : ∀ r ∈ answerRows s context filter,
      (s.tables.extents[r.2]?.map fun e =>
        (⟨e, rowPath s filter.paths e.ino⟩ : ExtentRow))
        = some (extentRow s.tables filter r) := by
    rintro ⟨e, id⟩ hr
    obtain ⟨hrow, hselects⟩ := mem_answerRows.1 hr
    rw [hrow, Option.map_some, rowPath_eq hindex hselects.named]
    rfl
  rw [hlook, ← List.filterMap_filter, numbers_filter_eq hindex hoffered,
    List.filterMap_map]
  exact List.filterMap_eq_map_iff_forall_eq_some.2 hrows

-- =============================================================== queries

/-- Ranges that begin on the device are looked for. -/
theorem checkPhysical_eq_ok {summary : Summary}
    (h : ∀ r ∈ filter.physical, r.first < summary.totalBytes) :
    checkPhysical summary filter = .ok () := by
  have hnone : filter.physical.find?
      (fun r => decide (summary.totalBytes ≤ r.first)) = none := by
    rw [List.find?_eq_none]
    intro r hr
    simpa using h r hr
  rw [checkPhysical, hnone]

/-- The query with the candidates from some source. -/
def rowsFrom (s : Store β) (context : QueryContext)
    (filter : ExtentFilter) (source : Source) : ExtentRows :=
  { context, filter
    inodes := pathInodes s filter.paths
    cursor :=
      { pageSize := context.pageSize, pending := source.numbers s filter } }

/-- A query begins with the source that its plan picks. -/
theorem extents_eq {summary : Summary}
    (hfinished : s.tables.Finished summary)
    (hvisible : context.visible.isEmpty = false)
    (hphysical : ∀ r ∈ filter.physical, r.first < summary.totalBytes) :
    extents s context filter
      = .ok (rowsFrom s context filter (.picked filter)) := by
  rw [extents, hvisible, if_neg Bool.false_ne_true,
    Store.ensureReady_eq_ok_iff.2 hfinished]
  show (checkPhysical summary filter >>= _) = _
  rw [checkPhysical_eq_ok hphysical, rowsFrom, ← candidates_eq_picked]
  rfl

/-- Whatever source it reads, a query hands out the rows of the answer. -/
theorem take_rowsFrom (hindex : s.index = .build s.tables)
    (context : QueryContext) {source : Source}
    (hoffered : source.isOffered filter = true) (n : Nat) :
    ((rowsFrom s context filter source).cursor.take
        (rowsFrom s context filter source).look n s).1
      = ((answerRows s context filter).map
          (extentRow s.tables filter)).take n := by
  have hanswers := lookExtent_answers s context filter
    (pathInodes s filter.paths)
  obtain ⟨htake, -⟩ :=
    hanswers.take (c := (rowsFrom s context filter source).cursor) n
      context.pageSize_pos rfl
  refine htake.trans (congrArg (List.take n) ?_)
  exact filterMap_lookExtent hindex hoffered

end Query

end DiskAtlas

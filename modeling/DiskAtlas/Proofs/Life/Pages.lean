/-
Answers in pages. A query of a finished scan has one list of rows, whatever
a page holds: its candidates do not depend on the size of a page, and they
are looked at in one order, each once. So row by row, page by page or both
in turn, the rows come in the order of that list, and nothing is handed out
twice or left out (`queries_paged`). For extents the list has just the rows
that the tables select, wherever the store came from; for inodes it has, in
a life that began at a blank place, where statistics that were kept are
those of the tables.

A query is compared with its list of rows and not with another query, so the
size of the page drops out of the statement at once.
-/
import DiskAtlas.Proofs.Life.Shuffling
import DiskAtlas.Proofs.Query.Replies

namespace DiskAtlas

/-- A set without kinds has no kind. -/
theorem KindSet.has_of_isEmpty {s : KindSet} (h : s.isEmpty = true)
    (kind : ExtentKind) : s.has kind = false := by
  obtain rfl : s = empty := beq_iff_eq.1 h
  cases kind <;> rfl

namespace Query

-- ============================================================== beginning

/-- Does a range begin past the end of the device? -/
def BeginsPast (summary : Summary) (filter : ExtentFilter) : Prop :=
  ∃ r ∈ filter.physical, summary.totalBytes ≤ r.first

/-- The one check that refuses a query fails exactly for a physical span that
begins past the end of the file system. -/
theorem beginsPast_of_error {summary : Summary} {filter : ExtentFilter}
    {e : Error} (h : checkPhysical summary filter = .error e) :
    BeginsPast summary filter := by
  unfold checkPhysical at h
  split at h
  · next r hfound =>
    refine ⟨r, List.mem_of_find?_eq_some hfound, ?_⟩
    simpa using List.find?_some hfound
  · cases h

end Query

namespace Life

open Query

variable {β : Type} {s : Store β} {summary : Summary} {visible : KindSet}

/-- The settings of a user who sees some kinds and asks for pages of some
size. -/
def settings (visible : KindSet) (pageSize : Nat) : QueryContext :=
  ({ visible } : QueryContext).withPageSize pageSize

/-- A query hands out some rows, unless it was refused. -/
structure HandsOutRows {ρ α : Type} (query : Except Error ρ)
    (replies : ρ → List Question → List (Option (List α))) (Refused : Prop)
    (rows : List α) (pageSize : Nat) : Prop where
  refused : ∀ e, query = .error e → Refused
  paged : ∀ begun, query = .ok begun → ∀ questions,
    Paged rows pageSize questions (replies begun questions)

namespace HandsOutRows

variable {ρ α : Type} {query : Except Error ρ}
  {replies : ρ → List Question → List (Option (List α))} {Refused : Prop}
  {rows : List α} {pageSize : Nat}

theorem of_ok {begun : ρ} (hquery : query = .ok begun)
    (h : ∀ questions, Paged rows pageSize questions
      (replies begun questions)) :
    HandsOutRows query replies Refused rows pageSize := by
  subst hquery
  constructor
  · intro e he
    cases he
  · intro begun' hbegun
    obtain rfl := Except.ok.inj hbegun
    exact h

theorem of_error {e : Error} (hquery : query = .error e) (h : Refused) :
    HandsOutRows query replies Refused rows pageSize := by
  subst hquery
  constructor
  · exact fun _ _ => h
  · intro begun hbegun
    cases hbegun

end HandsOutRows

-- =============================================================== extents

/-- The rows of an extent query, whatever a page holds. -/
theorem extents_paged (hindex : s.index = .build s.tables)
    (hfinished : s.tables.Finished summary) (filter : ExtentFilter)
    (pageSize : Nat) :
    HandsOutRows (extents s (settings visible pageSize) filter)
      (fun begun questions => begun.cursor.replies begun.look questions s)
      (visible.isEmpty = false ∧ BeginsPast summary filter)
      ((answerRows s { visible } filter).map (extentRow s.tables filter))
      (max pageSize 1) := by
  let context := settings visible pageSize
  have hvisible : context.visible = visible := rfl
  rw [extents_ready hfinished, hvisible]
  by_cases hempty : visible.isEmpty = true
  · rw [if_pos hempty]
    refine .of_ok rfl fun questions => ?_
    -- no extent is of a kind that is seen
    have hnone : answerRows s { visible } filter = [] := by
      rw [List.eq_nil_iff_forall_not_mem]
      rintro ⟨e, id⟩ hmem
      have hseen := (mem_answerRows.1 hmem).2.visible
      rw [QueryContext.isVisible, KindSet.has_of_isEmpty hempty] at hseen
      cases hseen
    rw [hnone]
    exact Cursor.paged_replies _ (c := ⟨context.pageSize, [], []⟩)
      (.fresh context.pageSize_pos rfl) questions s
  · rw [if_neg hempty]
    cases hcheck : checkPhysical summary filter with
    | error e =>
      exact .of_error rfl
        ⟨Bool.not_eq_true _ ▸ hempty, beginsPast_of_error hcheck⟩
    | ok =>
      refine .of_ok rfl fun questions => ?_
      have hanswers := lookExtent_answers s context filter
        (pathInodes s filter.paths)
      have hrows := (Cursor.answered_eq _ hanswers
        (Source.numbers s filter (.picked filter)) rfl).trans
        (filterMap_lookExtent hindex (Source.isOffered_picked filter))
      have hpaged := Cursor.paged_replies
        (lookExtent context filter (pathInodes s filter.paths))
        (c := (rowsFrom s context filter (.picked filter)).cursor)
        (.fresh context.pageSize_pos rfl) questions s
      rw [Cursor.left] at hpaged
      exact hrows ▸ hpaged

-- ================================================================ inodes

/-- The rows of an inode query, as its candidates are answered. -/
def inodeAnswers (s : Store β) (visible : KindSet) (filter : InodeFilter) :
    List InodeRow :=
  if visible.isEmpty then []
  else Cursor.answered (lookInode filter)
    (inodeCandidates s { visible } filter) s

/-- An inode query hands its rows out in pages, which are cut from the naive
list of answers. A page of size zero has one row. -/
theorem inodes_paged (hfinished : s.tables.Finished summary)
    (filter : InodeFilter) (pageSize : Nat) :
    HandsOutRows (inodes s (settings visible pageSize) filter)
      (fun begun questions => begun.cursor.replies begun.look questions s)
      (visible.isEmpty = false ∧ BeginsPast summary filter.extent)
      (inodeAnswers s visible filter) (max pageSize 1) := by
  let context := settings visible pageSize
  have hvisible : context.visible = visible := rfl
  rw [inodes_ready hfinished, hvisible, inodeAnswers]
  by_cases hempty : visible.isEmpty = true
  · rw [if_pos hempty, if_pos hempty]
    refine .of_ok rfl fun questions => ?_
    exact Cursor.paged_replies _ (c := ⟨context.pageSize, [], []⟩)
      (.fresh context.pageSize_pos rfl) questions s
  · rw [if_neg hempty, if_neg hempty]
    cases hcheck : checkPhysical summary filter.extent with
    | error e =>
      exact .of_error rfl
        ⟨Bool.not_eq_true _ ▸ hempty, beginsPast_of_error hcheck⟩
    | ok =>
      refine .of_ok rfl fun questions => ?_
      exact Cursor.paged_replies _ (c := (rowsOf s context filter).cursor)
        (.fresh context.pageSize_pos rfl) questions s

/-- In a sound store these are the rows that the tables alone select. -/
theorem inodeAnswers_eq (hs : s.Sound) (hfinished : s.tables.Finished summary)
    (filter : InodeFilter) :
    inodeAnswers s visible filter = inodeRows s { visible } filter := by
  rw [inodeAnswers]
  by_cases hempty : visible.isEmpty = true
  · rw [if_pos hempty, eq_comm, List.eq_nil_iff_forall_not_mem]
    intro row hmem
    obtain ⟨-, hselects, -⟩ := (mem_inodeRows hs hfinished).1 hmem
    have hhidden := KindSet.has_of_isEmpty hempty
    -- an owner is asked for, and no extent is of a kind that is seen
    have hasks : AsksForExtent { visible } filter.extent :=
      asksForExtent_iff.1 (Bool.or_eq_true _ _ ▸ Or.inr
        (QueryContext.hidesKinds_of_hidden (hhidden .file)))
    obtain ⟨e, -, -, hseen, -⟩ := hselects.owner hasks
    rw [QueryContext.isVisible, hhidden] at hseen
    cases hseen
  · rw [if_neg hempty]
    exact Cursor.answered_eq _ (lookInode_answers hfinished filter) _
      ⟨.refl s, hs⟩

-- =============================================================== queries

variable [Backend β] [LawfulBackend β] {events : List Event} {d : Desk β}

/-- Every query of a finished scan has one list of rows, which it hands out
in order however it is asked and whatever a page holds; and these rows are
the answer. -/
theorem queries_paged {b : β} (h : Run (.closed b) events (.resting d))
    (hready : d.store.ensureReady = .ok summary) (visible : KindSet) :
    (∀ filter : ExtentFilter, ∃ answer,
      ExtentAnswer d.store.tables { visible } filter answer ∧
      ∀ pageSize,
        HandsOutRows (extents d.store (settings visible pageSize) filter)
          (fun begun questions =>
            begun.cursor.replies begun.look questions d.store)
          (visible.isEmpty = false ∧ BeginsPast summary filter)
          (answer.map (extentRow d.store.tables filter)) (max pageSize 1)) ∧
    (∀ filter : InodeFilter, ∃ answer,
      (Blank b → InodeAnswer d.store.tables { visible } filter answer) ∧
      ∀ pageSize,
        HandsOutRows (inodes d.store (settings visible pageSize) filter)
          (fun begun questions =>
            begun.cursor.replies begun.look questions d.store)
          (visible.isEmpty = false ∧ BeginsPast summary filter.extent)
          answer (max pageSize 1)) := by
  have hfinished := Store.ensureReady_eq_ok_iff.1 hready
  have hindex := h.indexed summary hfinished
  constructor
  · intro filter
    refine ⟨answerRows d.store { visible } filter, ⟨answerRows_sorted,
      fun e id => mem_answerRows⟩, fun pageSize => ?_⟩
    exact extents_paged hindex hfinished filter pageSize
  · -- statistics come into the rows of inodes, so a life without computed
    -- values at its start is asked for there, and only there
    intro filter
    refine ⟨inodeAnswers d.store visible filter, fun hb => ?_,
      fun pageSize => inodes_paged hfinished filter pageSize⟩
    have hd : d.Sound := h.sound hb.sound
    rw [inodeAnswers_eq hd.store hfinished filter]
    exact ⟨inodeRows_sorted hd.store.keyed,
      fun row => mem_inodeRows hd.store hfinished⟩

/-- Two extents come on two pages if a page holds none, which counts as
one, and nothing comes behind them. -/
theorem queries_paged_twoExtents :
    let s := scanned "/" (.blank "/") twoExtents
    ∃ answer begun, ExtentAnswer s.tables { visible := .all } {} answer ∧
      (⟨7, 4096, some 0, 512, .empty, .file⟩, 0) ∈ answer ∧
      (⟨7, 8192, some 512, 512, .empty, .file⟩, 1) ∈ answer ∧
      extents s (settings .all 0) {} = .ok begun ∧
      begun.cursor.replies begun.look [.page, .row, .page] s
        = [some [⟨⟨7, 4096, some 0, 512, .empty, .file⟩, some "/a"⟩],
          some [⟨⟨7, 8192, some 512, 512, .empty, .file⟩, some "/a"⟩],
          none] ∧
      ∀ questions, Paged (answer.map (extentRow s.tables {})) 1 questions
        (begun.cursor.replies begun.look questions s) := by
  intro s
  have hready : s.ensureReady
      = .ok { Summary.blank "/" with totalBytes := 8704, finished := true } :=
    rfl
  obtain ⟨answer, hanswer, hpages⟩ :=
    (queries_paged (run_scan "/" (.blank "/") twoExtents) hready .all).1 {}
  have hbegun : extents s (settings .all 0) {}
      = .ok (rowsFrom s (settings .all 0) {} .everything) := rfl
  refine ⟨answer, _, hanswer, ?_, ?_, hbegun, ?_, (hpages 0).paged _ hbegun⟩
  · exact (hanswer.selected _ 0).2 ⟨rfl, rfl, rfl, nofun⟩
  · exact (hanswer.selected _ 1).2 ⟨rfl, rfl, rfl, nofun⟩
  · have hrows : StoreIndex.sortedRows s.tables.extents
        = [(⟨7, 4096, some 0, 512, .empty, .file⟩, 0),
          (⟨7, 8192, some 512, 512, .empty, .file⟩, 1)] :=
      StoreIndex.sortedRows_eq (.refl _) (List.pairwise_pair.2 rfl)
    have hnumbers : Source.everything.numbers s {} = [0, 1] :=
      congrArg (List.map Prod.snd) hrows
    rw [rowsFrom, hnumbers]
    show Cursor.replies (lookExtent (settings .all 0) {} none) _
      { pageSize := 1, pending := [0, 1] }
      (scanned "/" (.blank "/") twoExtents) = _
    rfl

end Life

end DiskAtlas

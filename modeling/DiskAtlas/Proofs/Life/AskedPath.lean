/-
Asking for a path in text. In quotes, its quotes and backslashes escaped, a
path without wildcards is read as it is but for the blanks at its ends,
which are trimmed although the quotes hold them (`read_pathTerm`). So a
stored path that neither begins nor ends with a blank finds just the extents
of the inode it names, each shown with this path, and any other finds those
of the trimmed path instead, whatever that names (`path_asked`).
-/
import DiskAtlas.Proofs.Filter.Terms
import DiskAtlas.Proofs.Life.Answers

namespace DiskAtlas

open Text FilterTerm

namespace Text

/-- Stands no blank at the ends of a text? -/
def HasBareEnds (text : String) : Prop :=
  (∀ c, text.toList.head? = some c → isBlank c = false) ∧
    ∀ c, text.toList.getLast? = some c → isBlank c = false

theorem trimString_eq_self {text : String} (h : HasBareEnds text) :
    trimString text = text := by
  rw [trimString, trim_eq_self h.1 h.2, String.ofList_toList]

end Text

-- ============================================================== reading

/-- The text that asks for a path. -/
def pathTerm (path : String) : String :=
  oneTerm "path" ('"' :: escape isMark path.toList ++ ['"'])

/-- A value without wildcards is one more path. -/
theorem PathFilter.add_exact {path : String} (separator : Char)
    (h : ∀ c ∈ path.toList, PathPattern.isWildcard c = false) :
    PathFilter.none.add path separator = .ok (.patterns [.exact path]) := by
  have hstar : '*' ∉ path.toList := fun hmem =>
    absurd (h '*' hmem) (by decide)
  have hsome : asksForAll path separator = false := by
    rw [asksForAll, Bool.or_eq_false_iff, beq_eq_false_iff_ne,
      beq_eq_false_iff_ne]
    constructor
    · exact fun heq => hstar (heq ▸ List.mem_cons_self)
    · exact fun heq =>
        hstar (heq ▸ List.mem_cons_of_mem _ List.mem_cons_self)
  have hexact : path.toList.any PathPattern.isWildcard = false := by
    rw [List.any_eq_false]
    exact fun c hc => by rw [h c hc]; exact Bool.false_ne_true
  rw [PathFilter.none, add, hsome, if_neg Bool.false_ne_true,
    PathPattern.parse, hexact, if_neg Bool.false_ne_true]
  rfl

/-- A path is read without the blanks at its ends. -/
theorem read_pathTerm (zone : Calendar.Zone) (units : Summary)
    {path : String}
    (h : ∀ c ∈ path.toList, PathPattern.isWildcard c = false) :
    ExtentFilter.read zone units (pathTerm path)
      = if trimString path = "" then .error (.missingValue "path")
        else .ok { paths := .patterns [.exact (trimString path)] } := by
  have hkey : asciiLower "path" = "path" := by decide +kernel
  have hterm : FilterTerm.read (pathTerm path)
      = .ok [⟨"path", trimString path, 0⟩] := by
    rw [pathTerm, read_quoted (List.all_eq_true.1 (by decide)), hkey,
      trimString]
  have hshared : ∀ term ∈ [(⟨"path", trimString path, 0⟩ : FilterTerm)],
      (FilterField.ofKey? term.key).any (·.isInodesOnly) = false := by
    intro term hmem
    rw [List.mem_singleton.1 hmem]
    rfl
  -- trimming brings in no wildcard, so the path is matched as it stands
  have hplain : ∀ c ∈ (trimString path).toList,
      PathPattern.isWildcard c = false := by
    intro c hc
    rw [trimString, String.toList_ofList] at hc
    exact h c (mem_of_mem_trim hc)
  rw [ExtentFilter.read_eq hterm hshared, InodeFilter.read_eq_addTerm hterm,
    InodeFilter.addTerm]
  by_cases hempty : trimString path = ""
  · rw [hempty]
    rfl
  · have hfull : (trimString path).isEmpty = false := by
      simpa using hempty
    have hfield : FilterField.ofKey? "path" = some .path := rfl
    simp only [hfull, hfield, InodeFilter.addValue, if_neg hempty,
      PathFilter.add_exact units.separator hplain, Bool.false_eq_true,
      if_false]
    rfl

-- ============================================================ answering

/-- The extents of an inode are the rows that name it, in whatever order. -/
theorem Tables.extentsOf_perm_rows (t : Tables) (ino : Int64) :
    (t.extentsOf ino).Perm
      (t.extents.toList.filter fun e => decide (e.ino = ino)) := by
  have hnumbered : ((StoreIndex.numbered t.extents).filter
      fun r => decide (r.1.ino = ino)).map (·.1)
        = t.extents.toList.filter fun e => decide (e.ino = ino) := by
    have hrows : (StoreIndex.numbered t.extents).map (·.1)
        = t.extents.toList := List.zipIdx_map_fst _ _
    rw [← hrows, List.filter_map]
    rfl
  rw [← hnumbered]
  exact ((StoreIndex.sortedRows_perm t.extents).filter _).map _

namespace Query

/-- The extents of the inode that a path names, each with this path. -/
def rowsOfPath (t : Tables) (path : String) : List ExtentRow :=
  match t.paths.get? path with
  | none => []
  | some ino => (t.extentsOf ino).map (⟨·, some path⟩)

variable {β : Type} {s : Store β} {path : String}

/-- An inode is named by an exact path if the path names it. -/
theorem named_exact_iff {t : Tables} {ino : Int64} :
    Named t (.patterns [.exact path]) ino ↔ t.paths.get? path = some ino := by
  rw [SortedMap.get?_eq_some_iff]
  constructor
  · rintro ⟨found, hentry, pattern, hpattern, haccepts⟩
    obtain rfl := List.mem_singleton.1 hpattern
    obtain rfl : path = found := beq_iff_eq.1 haccepts
    exact hentry
  · intro hentry
    exact ⟨path, hentry, _, List.mem_singleton_self _, beq_self_eq_true path⟩

/-- What is shown with an extent is the path that was asked for. -/
theorem shownPath_exact {t : Tables} {ino : Int64}
    (h : t.paths.get? path = some ino) :
    t.shownPath (.patterns [.exact path]) ino = some path := by
  have hmem : path ∈ t.pathsOf ino := by
    simpa [Tables.pathsOf] using SortedMap.get?_eq_some_iff.1 h
  have haccepts : (PathFilter.patterns [.exact path]).accepts
      = fun found => path == found := by
    funext found
    simp [PathFilter.accepts, PathFilter.isActive, PathFilter.values,
      PathPattern.accepts]
  have hactive : (PathFilter.patterns [.exact path]).isActive = true := rfl
  rw [Tables.shownPath, if_pos hactive, haccepts]
  generalize t.pathsOf ino = paths at hmem
  induction paths with
  | nil => cases hmem
  | cons first rest ih =>
    by_cases hfirst : path = first
    · rw [List.find?_cons_of_pos (beq_iff_eq.2 hfirst), hfirst]
    · rw [List.find?_cons_of_neg (by simpa using hfirst)]
      exact ih ((List.mem_cons.1 hmem).resolve_left hfirst)

/-- Asked for one path, the answer has the extents of the inode that it
names. -/
theorem answerRows_exact {context : QueryContext}
    (hvisible : context.visible = .all) :
    (answerRows s context { paths := .patterns [.exact path] }).map
        (extentRow s.tables { paths := .patterns [.exact path] })
      = rowsOfPath s.tables path := by
  have haccepts : ∀ e : Extent,
      acceptsExtent context { paths := .patterns [.exact path] }
          (pathInodes s (.patterns [.exact path])) e
        = decide (s.tables.paths.get? path = some e.ino) := by
    intro e
    rw [Bool.eq_iff_iff, decide_eq_true_iff, ← named_exact_iff]
    refine acceptsExtent_eq_true_iff.trans ⟨fun h => h.named rfl, fun h => ?_⟩
    refine ⟨?_, ExtentFilter.accepts_of_flags _ [] e, fun _ => h⟩
    rw [QueryContext.isVisible, hvisible, KindSet.has_all]
  simp only [answerRows, haccepts, rowsOfPath]
  split
  · next hnone => simp [hnone]
  · next ino hsome =>
    have hsame : ∀ e : Extent,
        decide (s.tables.paths.get? path = some e.ino)
          = decide (e.ino = ino) := by
      intro e
      rw [decide_eq_decide, hsome, Option.some_inj, eq_comm]
    simp only [hsame, Tables.extentsOf, List.map_map]
    refine List.map_congr_left fun r hr => ?_
    have hino : r.1.ino = ino := of_decide_eq_true (List.mem_filter.1 hr).2
    rw [extentRow, hino, shownPath_exact hsome]
    rfl

end Query

namespace Life

open Query

/-- A text is read as a filter, and where everything is visible the query
for it gives some rows and no more. -/
def AnswersWith {β : Type} (s : Store β) (zone : Calendar.Zone)
    (units : Summary) (text : String) (rows : List ExtentRow) : Prop :=
  ∃ filter, ExtentFilter.read zone units text = .ok filter ∧
    ∀ context : QueryContext, context.visible = .all →
      ∃ begun, extents s context filter = .ok begun ∧
        ∀ n, (begun.cursor.take begun.look n s).1 = rows.take n

/-- A text has one answer. -/
theorem AnswersWith.unique {β : Type} {s : Store β} {zone : Calendar.Zone}
    {units : Summary} {text : String} {rows rows' : List ExtentRow}
    (h : AnswersWith s zone units text rows)
    (h' : AnswersWith s zone units text rows') : rows = rows' := by
  obtain ⟨filter, hread, hrows⟩ := h
  obtain ⟨filter', hread', hrows'⟩ := h'
  obtain rfl := Except.ok.inj (hread.symm.trans hread')
  obtain ⟨begun, hbegun, htake⟩ := hrows {} rfl
  obtain ⟨begun', hbegun', htake'⟩ := hrows' {} rfl
  obtain rfl := Except.ok.inj (hbegun.symm.trans hbegun')
  have hsame : ∀ n, rows.take n = rows'.take n := fun n =>
    (htake n).symm.trans (htake' n)
  have hall := hsame (max rows.length rows'.length)
  rwa [List.take_of_length_le (Nat.le_max_left _ _),
    List.take_of_length_le (Nat.le_max_right _ _)] at hall

variable {β : Type} [Backend β] [LawfulBackend β] {events : List Event}
  {d : Desk β} {summary : Summary} {path : String}

/-- Whatever a path is, the trimmed one is asked for. -/
theorem answersWith_pathTerm {b : β}
    (h : Run (.closed b) events (.resting d))
    (hready : d.store.ensureReady = .ok summary) (zone : Calendar.Zone)
    (units : Summary)
    (hplain : ∀ c ∈ path.toList, PathPattern.isWildcard c = false)
    (hfull : trimString path ≠ "") :
    AnswersWith d.store zone units (pathTerm path)
      (rowsOfPath d.store.tables (trimString path)) := by
  have hfinished := Store.ensureReady_eq_ok_iff.1 hready
  have hindex := h.indexed summary hfinished
  let filter : ExtentFilter :=
    { paths := .patterns [.exact (trimString path)] }
  refine ⟨filter, ?_, fun context hvisible => ?_⟩
  · rw [read_pathTerm zone units hplain, if_neg hfull]
  · have hseen : context.visible.isEmpty = false := by
      rw [hvisible]
      rfl
    refine ⟨_, extents_eq hfinished hseen nofun, fun n => ?_⟩
    rw [take_rowsFrom hindex context (Source.isOffered_picked filter),
      answerRows_exact hvisible]

/-- A stored path without blanks at its ends finds just the extents of the
inode that it names. Blanks at its ends are lost, though they stand in
quotes: the trimmed path is asked for instead, if anything is left. -/
theorem path_asked {b : β} (h : Run (.closed b) events (.resting d))
    (hready : d.store.ensureReady = .ok summary) {ino : Int64}
    (hstored : d.store.tables.paths.get? path = some ino)
    (hne : path ≠ "")
    (hplain : ∀ c ∈ path.toList, PathPattern.isWildcard c = false)
    (zone : Calendar.Zone) (units : Summary) :
    (HasBareEnds path → AnswersWith d.store zone units (pathTerm path)
      ((d.store.tables.extentsOf ino).map (⟨·, some path⟩))) ∧
    (trimString path = "" → ExtentFilter.read zone units (pathTerm path)
      = .error (.missingValue "path")) ∧
    (trimString path ≠ "" → AnswersWith d.store zone units (pathTerm path)
      (rowsOfPath d.store.tables (trimString path))) := by
  refine ⟨fun hbare => ?_, fun hempty => ?_, fun hfull => ?_⟩
  · have hsame := trimString_eq_self hbare
    have hfull : trimString path ≠ "" := by rwa [hsame]
    have hrows := answersWith_pathTerm h hready zone units hplain hfull
    rwa [hsame, rowsOfPath, hstored] at hrows
  · rw [read_pathTerm zone units hplain, if_pos hempty]
  · exact answersWith_pathTerm h hready zone units hplain hfull

/-- The calls of a scan that finds a file with a blank and a quote in its
name. -/
def quotedName : List Call :=
  [.inode (.bare 7 .file) "/a \"b",
    .extent (.bare 7 .file) ⟨0, 4096, 512, .empty⟩ false]

/-- The file is found by its path. -/
theorem path_asked_quotedName :
    let s := scanned "/" (.blank "/") quotedName
    s.tables.paths.get? "/a \"b" = some 7 ∧
      pathTerm "/a \"b" = "path:\"/a \\\"b\"" ∧
      AnswersWith s .utc (.blank "/") "path:\"/a \\\"b\""
        [⟨⟨7, 4096, some 0, 512, .empty, .file⟩, some "/a \"b"⟩] := by
  intro s
  have hready : s.ensureReady
      = .ok { Summary.blank "/" with totalBytes := 4608, finished := true } :=
    rfl
  have hstored : s.tables.paths.get? "/a \"b" = some 7 := by decide +kernel
  have hplain : ∀ c ∈ "/a \"b".toList, PathPattern.isWildcard c = false :=
    fun c hc => Bool.eq_false_iff.2 (List.any_eq_false.1 (by decide) c hc)
  have hbare : HasBareEnds "/a \"b" := by
    constructor
    · rintro c ⟨⟩
      decide
    · rintro c ⟨⟩
      decide
  have hterm : pathTerm "/a \"b" = "path:\"/a \\\"b\"" := by decide +kernel
  have hextents : s.tables.extentsOf 7
      = [⟨7, 4096, some 0, 512, .empty, .file⟩] := by
    decide +kernel
  obtain ⟨hfound, -, -⟩ := path_asked (run_scan "/" (.blank "/") quotedName)
    hready hstored (by decide) hplain .utc (.blank "/")
  have hanswers := hfound hbare
  rw [hterm, hextents] at hanswers
  exact ⟨hstored, hterm, hanswers⟩

/-- The calls of a scan that finds two files whose names differ in a blank
at the end. -/
def blankEnd : List Call :=
  [.inode (.bare 7 .file) "/a ",
    .extent (.bare 7 .file) ⟨0, 4096, 512, .empty⟩ false,
    .inode (.bare 8 .file) "/a",
    .extent (.bare 8 .file) ⟨0, 8192, 512, .empty⟩ false]

/-- The file with the blank cannot be asked for: the quotes keep the blank,
and it is trimmed all the same, so the other file is found. -/
theorem blankEnd_lost :
    let s := scanned "/" (.blank "/") blankEnd
    s.isStale = false ∧ s.tables.paths.get? "/a " = some 7 ∧
      s.tables.extentsOf 7 = [⟨7, 4096, some 0, 512, .empty, .file⟩] ∧
      pathTerm "/a " = "path:\"/a \"" ∧
      AnswersWith s .utc (.blank "/") "path:\"/a \""
        [⟨⟨8, 8192, some 0, 512, .empty, .file⟩, some "/a"⟩] ∧
      ¬ ∃ rows, AnswersWith s .utc (.blank "/") "path:\"/a \"" rows ∧
        rows.map (·.extent) = s.tables.extentsOf 7 := by
  intro s
  have hready : s.ensureReady
      = .ok { Summary.blank "/" with totalBytes := 8704, finished := true } :=
    rfl
  have hplain : ∀ c ∈ "/a ".toList, PathPattern.isWildcard c = false :=
    fun c hc => Bool.eq_false_iff.2 (List.any_eq_false.1 (by decide) c hc)
  have htrim : trimString "/a " = "/a" := by decide +kernel
  have hterm : pathTerm "/a " = "path:\"/a \"" := by decide +kernel
  -- one extent each, so there is nothing to sort
  have hextents : s.tables.extentsOf 7
      = [⟨7, 4096, some 0, 512, .empty, .file⟩] :=
    List.perm_singleton.1 (s.tables.extentsOf_perm_rows 7)
  have hother : s.tables.extentsOf 8
      = [⟨8, 8192, some 0, 512, .empty, .file⟩] :=
    List.perm_singleton.1 (s.tables.extentsOf_perm_rows 8)
  have hnamed : s.tables.paths.get? "/a" = some 8 := by decide +kernel
  have hrows : rowsOfPath s.tables "/a"
      = [⟨⟨8, 8192, some 0, 512, .empty, .file⟩, some "/a"⟩] := by
    rw [rowsOfPath, hnamed]
    dsimp only
    rw [hother]
    rfl
  have hanswers := answersWith_pathTerm
    (run_scan "/" (.blank "/") blankEnd) hready .utc (.blank "/") hplain
    (by rw [htrim]; decide)
  rw [hterm, htrim, hrows] at hanswers
  refine ⟨rfl, by decide +kernel, hextents, hterm, hanswers, ?_⟩
  rintro ⟨rows, hfound, hsame⟩
  rw [← hanswers.unique hfound, hextents] at hsame
  exact absurd hsame (by decide)

end Life

end DiskAtlas

/-
What filters ask for, said of the tables alone. A dimension without values
is left out, and a value that is missing satisfies only such a dimension.
An extent is selected one at a time (`Selects`); an inode by its row, its
statistics, its paths and, if extents are restricted in any way, by one
extent that satisfies everything at once (`SelectsInode`). The checks that
queries make are these meanings, evaluated.

The meanings are propositions over the tables and mention no index, no order
and no candidate. What a query answers is compared with these alone, so a plan
that reads another index leaves them as they are.
-/
import DiskAtlas.Proofs.Query.Stem
import DiskAtlas.Proofs.Store.Calculated

namespace DiskAtlas

-- ========================================================== dimensions

namespace Span

variable {α : Type} [LE α] [DecidableLE α]

/-- Does a value that may be missing lie in one of the spans, if there are
any? -/
def Admits (spans : List (Span α)) (value : Option α) : Prop :=
  spans = [] ∨
    ∃ v, value = some v ∧ ∃ r ∈ spans, r.first ≤ v ∧ v ≤ r.last

theorem contains_eq_true_iff {r : Span α} {v : α} :
    r.contains v = true ↔ r.first ≤ v ∧ v ≤ r.last := by
  simp [contains]

/-- No span asks for nothing; otherwise some span has to hold the value. -/
theorem anyContains_eq_true_iff {spans : List (Span α)} {v : α} :
    anyContains spans v = true ↔ Admits spans (some v) := by
  simp [anyContains, Admits, contains_eq_true_iff]

/-- A value that is not known is held by no span, so it passes only where no
span is asked for. -/
theorem anyContainsOpt_eq_true_iff {spans : List (Span α)}
    {value : Option α} :
    anyContainsOpt spans value = true ↔ Admits spans value := by
  cases value with
  | none => simp [anyContainsOpt, Admits]
  | some v => exact anyContains_eq_true_iff

end Span

-- =============================================================== kinds

/-- Every place in a table of kinds belongs to a kind. -/
theorem ExtentKind.exists_index {i : Nat} (hi : i < 7) :
    ∃ kind : ExtentKind, kind.index = i := by
  match i, hi with
  | 0, _ => exact ⟨.file, rfl⟩
  | 1, _ => exact ⟨.directory, rfl⟩
  | 2, _ => exact ⟨.extentMap, rfl⟩
  | 3, _ => exact ⟨.metadata, rfl⟩
  | 4, _ => exact ⟨.xattr, rfl⟩
  | 5, _ => exact ⟨.symlink, rfl⟩
  | 6, _ => exact ⟨.freeSpace, rfl⟩

/-- Sets with the same kinds are equal, if every bit of them stands for
one. -/
theorem KindSet.ext_has {s t : KindSet} (hs : s.isNamed = true)
    (ht : t.isNamed = true) (h : ∀ kind, s.has kind = t.has kind) :
    s = t := by
  have hbits : s.bits = t.bits := by
    refine BitVec.eq_of_getLsbD_eq fun i hi => ?_
    obtain hi | rfl : i < 7 ∨ i = 7 := by omega
    · obtain ⟨kind, rfl⟩ := ExtentKind.exists_index hi
      exact h kind
    · rw [isNamed, Bool.not_eq_true'] at hs ht
      rw [hs, ht]
  cases s
  cases t
  cases hbits
  rfl

namespace QueryContext

variable {context : QueryContext}

/-- Where some kind is hidden, the context says so. -/
theorem hidesKinds_of_hidden {kind : ExtentKind}
    (h : context.isVisible kind = false) : context.hidesKinds = true := by
  rw [hidesKinds, bne_iff_ne]
  intro hall
  rw [isVisible, hall, KindSet.has_all] at h
  cases h

/-- A context with no bit but those of kinds says that it hides kinds just
where it hides one. With the bit that stands for none it says so even if
every kind is shown. -/
theorem hidesKinds_eq_true_iff (hnamed : context.visible.isNamed = true) :
    context.hidesKinds = true ↔
      ∃ kind, context.isVisible kind = false := by
  refine ⟨fun h => ?_, fun ⟨_, hhidden⟩ => hidesKinds_of_hidden hhidden⟩
  rw [hidesKinds, bne_iff_ne] at h
  refine Classical.byContradiction fun hnone => h ?_
  refine KindSet.ext_has hnamed rfl fun kind => ?_
  rw [KindSet.has_all, ← Bool.not_eq_false]
  exact fun hhidden => hnone ⟨kind, hhidden⟩

end QueryContext

namespace Query

-- ============================================================= extents

/-- Some path that names the inode matches a pattern. -/
def Named (t : Tables) (paths : PathFilter) (ino : Int64) : Prop :=
  ∃ path, (path, ino) ∈ t.paths.entries ∧
    ∃ pattern ∈ paths.values, pattern.accepts path = true

/-- An extent of an answer. -/
structure Selects (t : Tables) (context : QueryContext)
    (filter : ExtentFilter) (e : Extent) : Prop where
  visible : context.isVisible e.kind = true
  accepted : filter.accepts e = true
  named : filter.paths.isActive = true → Named t filter.paths e.ino

variable {β : Type} {s : Store β} {context : QueryContext}

/-- The test that a query runs on an extent decides whether the extent is
selected. The inode numbers of the paths stand for the paths because an inode
is among them exactly if a pattern matches one of its paths. -/
theorem acceptsExtent_eq_true_iff {filter : ExtentFilter} {e : Extent} :
    acceptsExtent context filter (pathInodes s filter.paths) e = true ↔
      Selects s.tables context filter e := by
  have hnamed : (pathInodes s filter.paths).all (·.contains e.ino) = true ↔
      (filter.paths.isActive = true → Named s.tables filter.paths e.ino) := by
    unfold pathInodes
    split
    · next hactive =>
      rw [Option.all_some, List.contains_iff_mem, mem_inodesOfPaths]
      exact ⟨fun h _ => h, fun h => h hactive⟩
    · next hactive => simp [hactive]
  rw [acceptsExtent, Bool.and_eq_true, Bool.and_eq_true, hnamed]
  exact ⟨fun h => ⟨h.1.1, h.1.2, h.2⟩,
    fun h => ⟨⟨h.visible, h.accepted⟩, h.named⟩⟩

-- ============================================================== inodes

/-- Is it asked of an inode that it owns some extent? It is where a
dimension of extents has values, and where the context hides kinds. -/
def AsksForExtent (context : QueryContext) (filter : ExtentFilter) : Prop :=
  filter.physical ≠ [] ∨ filter.logical ≠ [] ∨ filter.lengths ≠ [] ∨
    filter.kinds ≠ none ∨ filter.flags ≠ [] ∨ context.hidesKinds = true

theorem asksForExtent_iff {filter : ExtentFilter} :
    (filter.restrictsExtents || context.hidesKinds) = true ↔
      AsksForExtent context filter := by
  rw [Bool.or_eq_true, AsksForExtent]
  simp only [ExtentFilter.restrictsExtents, Bool.or_eq_true,
    Bool.not_eq_true', List.isEmpty_eq_false_iff, Option.isSome_iff_ne_none,
    or_assoc]

/-- An inode of an answer. -/
structure SelectsInode (t : Tables) (context : QueryContext)
    (filter : InodeFilter) (inode : Inode) : Prop where
  number : Span.Admits filter.extent.inodes (some inode.ino)
  size : Span.Admits filter.sizes inode.size
  atime : Span.Admits filter.atimes inode.times.atime
  crtime : Span.Admits filter.crtimes inode.times.crtime
  ctime : Span.Admits filter.ctimes inode.times.ctime
  mtime : Span.Admits filter.mtimes inode.times.mtime
  travel : Span.Admits filter.travel (some (t.statsOf inode).travel)
  extentCount :
    Span.Admits filter.extentCounts (some (t.statsOf inode).extents)
  named : filter.extent.paths.isActive = true →
    Named t filter.extent.paths inode.ino
  owner : AsksForExtent context filter.extent →
    ∃ e ∈ t.extents, e.ino = inode.ino ∧
      context.isVisible e.kind = true ∧ filter.extent.accepts e = true

theorem acceptsRow_eq_true_iff {filter : InodeFilter} {inode : Inode} :
    filter.acceptsRow inode = true ↔
      Span.Admits filter.extent.inodes (some inode.ino) ∧
      Span.Admits filter.sizes inode.size ∧
      Span.Admits filter.atimes inode.times.atime ∧
      Span.Admits filter.crtimes inode.times.crtime ∧
      Span.Admits filter.ctimes inode.times.ctime ∧
      Span.Admits filter.mtimes inode.times.mtime := by
  simp only [InodeFilter.acceptsRow, Bool.and_eq_true,
    Span.anyContains_eq_true_iff, Span.anyContainsOpt_eq_true_iff, and_assoc]

theorem acceptsStats_eq_true_iff {filter : InodeFilter}
    {stats : InodeStats} :
    filter.acceptsStats stats = true ↔
      Span.Admits filter.travel (some stats.travel) ∧
      Span.Admits filter.extentCounts (some stats.extents) := by
  simp only [InodeFilter.acceptsStats, Bool.and_eq_true,
    Span.anyContains_eq_true_iff]

end Query

end DiskAtlas

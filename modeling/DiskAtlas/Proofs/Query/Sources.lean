/-
Where the candidates of an extent query come from. There are five sources,
and a plan picks the first that the filter offers (`candidates_eq_picked`).
A source reads numbers off the indexes and puts them in the order of
answers; sorting by rank is filtering the order (`inOrder_eq`), so the
numbers of a source are those rows of the order that it finds. Every
offered source finds each row that the filter accepts (`covers`), and so
they all agree on the rows of the answer (`filter_numbers`).

The lists that the sources read are in the order of an index or of a filter,
with repetitions where spans overlap. Only membership is shown of them, since
ranking puts them in order and takes the repetitions out.
-/
import DiskAtlas.Proofs.Query.Stem
import DiskAtlas.Proofs.Store.Overlap
import DiskAtlas.Proofs.Store.Owners

namespace DiskAtlas

-- =============================================================== indexes

namespace StoreIndex

variable {tables : Tables} {id : Nat}

/-- What the physical index finds are the rows that overlap a stretch of
the device. -/
theorem mem_overlapping_physical {low high : UInt64} :
    id ∈ (build tables).physical.overlapping low high ↔
      ∃ e, tables.extents[id]? = some e ∧
        e.physical ≤ high ∧ low ≤ e.physicalEnd := by
  have hperm := IntervalIndex.overlapping_build_perm
    ((numbered tables.extents).map physicalInterval) low high
  rw [show (build tables).physical
    = .build ((numbered tables.extents).map physicalInterval) from rfl,
    hperm.mem_iff]
  simp only [List.mem_map, List.mem_filter, Interval.overlaps_eq_true_iff,
    Prod.exists, physicalInterval]
  constructor
  · rintro ⟨i, ⟨⟨e, n, hrow, rfl⟩, hlow, hhigh⟩, rfl⟩
    exact ⟨e, mem_numbered.1 hrow, hlow, hhigh⟩
  · rintro ⟨e, hrow, hlow, hhigh⟩
    exact ⟨_, ⟨⟨e, id, mem_numbered.2 hrow, rfl⟩, hlow, hhigh⟩, rfl⟩

/-- What the logical index finds are the rows with an offset that overlap
a stretch of their owner. -/
theorem mem_overlapping_logical {low high : UInt64} :
    id ∈ (build tables).logical.overlapping low high ↔
      ∃ e first last, tables.extents[id]? = some e ∧
        e.logical = some first ∧ e.logicalEnd = some last ∧
        first ≤ high ∧ low ≤ last := by
  have hperm := IntervalIndex.overlapping_build_perm
    ((numbered tables.extents).filterMap logicalInterval) low high
  rw [show (build tables).logical
    = .build ((numbered tables.extents).filterMap logicalInterval) from rfl,
    hperm.mem_iff]
  simp only [List.mem_map, List.mem_filter, List.mem_filterMap,
    Interval.overlaps_eq_true_iff, Prod.exists]
  constructor
  · rintro ⟨i, ⟨⟨e, n, hrow, hinterval⟩, hlow, hhigh⟩, rfl⟩
    unfold logicalInterval at hinterval
    split at hinterval
    · next first last hfirst hlast =>
      obtain rfl := Option.some_inj.1 hinterval
      exact ⟨e, first, last, mem_numbered.1 hrow, hfirst, hlast, hlow, hhigh⟩
    · cases hinterval
  · rintro ⟨e, first, last, hrow, hfirst, hlast, hlow, hhigh⟩
    refine ⟨⟨first, last, id⟩, ⟨⟨e, id, mem_numbered.2 hrow, ?_⟩, hlow,
      hhigh⟩, rfl⟩
    simp [logicalInterval, hfirst, hlast]

end StoreIndex

namespace Query

open StoreIndex

variable {β : Type} {s : Store β} {filter : ExtentFilter}

/-- The numbers of the inodes in a span are those of their rows. -/
theorem mem_idsOfSpan (hindex : s.index = .build s.tables)
    {span : Span Int64} {id : Nat} :
    id ∈ idsOfSpan s span ↔
      ∃ e, s.tables.extents[id]? = some e ∧ span.contains e.ino = true := by
  simp only [idsOfSpan, hindex, List.mem_flatMap, List.mem_filter,
    Prod.exists]
  constructor
  · rintro ⟨ino, first, stop, ⟨hentry, hspan⟩, hid⟩
    rw [between_stretch hentry] at hid
    obtain ⟨⟨e, n⟩, hmem, rfl⟩ := List.mem_map.1 hid
    obtain ⟨hrow, hown⟩ := List.mem_filter.1 hmem
    have hino : e.ino = ino := of_decide_eq_true hown
    exact ⟨e, mem_sortedRows.1 hrow, hino ▸ hspan⟩
  · rintro ⟨e, hrow, hspan⟩
    have hentry := mem_stretch_build.2
      ⟨⟨e, Array.mem_of_getElem? hrow, rfl⟩, rfl, rfl⟩
    refine ⟨e.ino, _, _, ⟨hentry, hspan⟩, ?_⟩
    rw [between_stretch hentry]
    refine List.mem_map.2 ⟨(e, id), List.mem_filter.2 ⟨?_, ?_⟩, rfl⟩
    · exact mem_sortedRows.2 hrow
    · exact decide_eq_true rfl

-- ============================================================ the order

/-- Numbers of rows, put in the order of answers, are what is left of the
order itself. -/
theorem inOrder_eq (hindex : s.index = .build s.tables) {ids : List Nat}
    (hids : ∀ id ∈ ids, id < s.tables.extents.size) :
    inOrder s ids = s.index.order.toList.filter fun id => decide (id ∈ ids) := by
  let rank := (build s.tables).rankOf
  have hsame : inOrder s ids =
      (ids.mergeSort fun a b => decide (rank a ≤ rank b)).eraseReps := by
    rw [inOrder, hindex]
    rfl
  have hperm := List.mergeSort_perm ids fun a b => decide (rank a ≤ rank b)
  have hsorted : (ids.mergeSort fun a b => decide (rank a ≤ rank b)).Pairwise
      fun a b => rank a ≤ rank b := by
    refine (List.pairwise_mergeSort ?_ ?_ ids).imp of_decide_eq_true
    · intro a b c hab hbc
      exact decide_eq_true (Nat.le_trans (of_decide_eq_true hab)
        (of_decide_eq_true hbc))
    · intro a b
      simpa using Nat.le_total (rank a) (rank b)
  -- equal ranks are equal numbers, so taking out repetitions leaves a strict
  -- order, and a strictly sorted list is known by its members
  have hinjective : ∀ a ∈ ids, ∀ b ∈ ids, rank a = rank b → a = b :=
    fun a ha b hb => rankOf_injective (hids a ha) (hids b hb)
  refine Sorting.eq_of_sorted (R := fun a b => rank a < rank b)
    (fun _ _ => Nat.lt_asymm) ?_ ?_ ?_
  · rw [hsame]
    have hstrict := Sorting.sorted_eraseReps (fun a ha b hb hab hba =>
      hinjective a (hperm.mem_iff.1 ha) b (hperm.mem_iff.1 hb)
        (Nat.le_antisymm hab hba)) hsorted
    refine List.Pairwise.imp_of_mem (fun {a b} ha hb hab => ?_) hstrict
    refine Nat.lt_of_le_of_ne hab.1 fun heq => hab.2 ?_
    rw [Sorting.mem_eraseReps, hperm.mem_iff] at ha hb
    exact hinjective a ha b hb heq
  · rw [hindex]
    exact (order_sorted s.tables).filter _
  · intro id
    rw [hsame, Sorting.mem_eraseReps, hperm.mem_iff, List.mem_filter, hindex,
      mem_order_build, decide_eq_true_eq]
    exact ⟨fun hid => ⟨hids id hid, hid⟩, fun h => h.2⟩

-- ============================================================== sources

/-- The ways to the candidates of an extent query. -/
inductive Source where
  | physical
  | logical
  | paths
  | inodes
  | everything
  deriving Repr, DecidableEq

namespace Source

/-- Does the filter restrict what a source needs to be restricted? -/
def isOffered (filter : ExtentFilter) : Source → Bool
  | .physical => !filter.physical.isEmpty
  | .logical => !filter.logical.isEmpty
  | .paths => filter.paths.isActive
  | .inodes => !filter.inodes.isEmpty
  | .everything => true

/-- What a source finds in the indexes. -/
def found (s : Store β) (filter : ExtentFilter) : Source → List Nat
  | .physical =>
    filter.physical.flatMap fun r =>
      s.index.physical.overlapping r.first r.last
  | .logical =>
    filter.logical.flatMap fun r =>
      s.index.logical.overlapping r.first r.last
  | .paths => (inodesOfPaths s filter.paths).flatMap s.index.extentsOf
  | .inodes => filter.inodes.flatMap (idsOfSpan s)
  | .everything => s.index.order.toList

/-- The candidates from a source. -/
def numbers (s : Store β) (filter : ExtentFilter) : Source → List Nat
  | .everything => s.index.order.toList
  | source => inOrder s (source.found s filter)

/-- The source that a plan picks. -/
def picked (filter : ExtentFilter) : Source :=
  if isOffered filter .physical then .physical
  else if isOffered filter .logical then .logical
  else if isOffered filter .paths then .paths
  else if isOffered filter .inodes then .inodes
  else .everything

theorem isOffered_picked (filter : ExtentFilter) :
    (picked filter).isOffered filter = true := by
  unfold picked
  split
  · assumption
  · split
    · assumption
    · split
      · assumption
      · split
        · assumption
        · rfl

end Source

/-- A plan looks at the candidates from the source it picks. -/
theorem candidates_eq_picked (s : Store β) (filter : ExtentFilter) :
    candidates s filter (pathInodes s filter.paths)
      = (Source.picked filter).numbers s filter := by
  unfold candidates Source.picked pathInodes
  simp only [Source.isOffered]
  by_cases hphysical : filter.physical.isEmpty
  · by_cases hlogical : filter.logical.isEmpty
    · by_cases hpaths : filter.paths.isActive
      · simp [hphysical, hlogical, hpaths, Source.numbers, Source.found]
      · by_cases hinodes : filter.inodes.isEmpty
        · simp [hphysical, hlogical, hpaths, hinodes, Source.numbers]
        · simp [hphysical, hlogical, hpaths, hinodes, Source.numbers,
            Source.found]
    · simp [hphysical, hlogical, Source.numbers, Source.found]
  · simp [hphysical, Source.numbers, Source.found]

namespace Source

/-- Sources find nothing but rows. -/
theorem found_lt (hindex : s.index = .build s.tables) {source : Source}
    {id : Nat} (h : id ∈ source.found s filter) :
    id < s.tables.extents.size := by
  have hrow : ∀ {e}, s.tables.extents[id]? = some e →
      id < s.tables.extents.size := fun h =>
    (Array.getElem?_eq_some_iff.1 h).1
  cases source with
  | physical =>
    obtain ⟨r, -, hid⟩ := List.mem_flatMap.1 h
    rw [hindex] at hid
    obtain ⟨e, he, -⟩ := mem_overlapping_physical.1 hid
    exact hrow he
  | logical =>
    obtain ⟨r, -, hid⟩ := List.mem_flatMap.1 h
    rw [hindex] at hid
    obtain ⟨e, -, -, he, -⟩ := mem_overlapping_logical.1 hid
    exact hrow he
  | paths =>
    obtain ⟨ino, -, hid⟩ := List.mem_flatMap.1 h
    rw [hindex] at hid
    obtain ⟨e, he, -⟩ := mem_extentsOf.1 hid
    exact hrow he
  | inodes =>
    obtain ⟨span, -, hid⟩ := List.mem_flatMap.1 h
    obtain ⟨e, he, -⟩ := (mem_idsOfSpan hindex).1 hid
    exact hrow he
  | everything =>
    rw [found, hindex] at h
    exact mem_order_build.1 h

/-- The candidates from a source are what it leaves of the order. -/
theorem numbers_eq (hindex : s.index = .build s.tables) (source : Source) :
    source.numbers s filter =
      s.index.order.toList.filter fun id =>
        decide (id ∈ source.found s filter) := by
  cases source with
  | everything =>
    rw [numbers, eq_comm, List.filter_eq_self]
    intro id hid
    exact decide_eq_true hid
  | physical => exact inOrder_eq hindex fun _ => found_lt hindex
  | logical => exact inOrder_eq hindex fun _ => found_lt hindex
  | paths => exact inOrder_eq hindex fun _ => found_lt hindex
  | inodes => exact inOrder_eq hindex fun _ => found_lt hindex

end Source

-- ============================================================= coverage

/-- Is a number that of an extent of the answer? -/
def acceptsNumber (s : Store β) (context : QueryContext)
    (filter : ExtentFilter) (id : Nat) : Bool :=
  s.tables.extents[id]?.any
    (acceptsExtent context filter (pathInodes s filter.paths))

/-- A dimension with values that a value satisfies has a span for it. -/
private theorem exists_span {α : Type} {spans : List (Span α)}
    {p : Span α → Bool} (hoffered : (!spans.isEmpty) = true)
    (h : (spans.isEmpty || spans.any p) = true) :
    ∃ r ∈ spans, p r = true := by
  rw [Bool.not_eq_true'] at hoffered
  rw [hoffered, Bool.false_or, List.any_eq_true] at h
  exact h

/-- A source that is offered finds every extent of the answer. -/
theorem Source.covers (hindex : s.index = .build s.tables)
    {context : QueryContext} {source : Source}
    (hoffered : source.isOffered filter = true) {id : Nat}
    (h : acceptsNumber s context filter id = true) :
    id ∈ source.found s filter := by
  obtain ⟨e, hrow, haccepts⟩ := (Option.any_eq_true _ _).1 h
  simp only [acceptsExtent, ExtentFilter.accepts, Bool.and_eq_true] at haccepts
  obtain ⟨⟨-, ⟨⟨⟨⟨hino, hphysical⟩, hlogical⟩, -⟩, -⟩, -⟩, hpath⟩ := haccepts
  -- each source looks at one dimension, and an accepted extent passes it
  cases source with
  | physical =>
    obtain ⟨r, hr, hoverlaps⟩ := exists_span hoffered hphysical
    refine List.mem_flatMap.2 ⟨r, hr, ?_⟩
    rw [hindex]
    simp only [Span.overlaps, Bool.and_eq_true, decide_eq_true_eq] at hoverlaps
    exact mem_overlapping_physical.2 ⟨e, hrow, hoverlaps.2, hoverlaps.1⟩
  | logical =>
    unfold ExtentFilter.acceptsLogical at hlogical
    split at hlogical
    · next first last hfirst hlast =>
      obtain ⟨r, hr, hoverlaps⟩ := exists_span hoffered hlogical
      refine List.mem_flatMap.2 ⟨r, hr, ?_⟩
      rw [hindex]
      simp only [Span.overlaps, Bool.and_eq_true, decide_eq_true_eq]
        at hoverlaps
      exact mem_overlapping_logical.2
        ⟨e, first, last, hrow, hfirst, hlast, hoverlaps.2, hoverlaps.1⟩
    · -- an extent without an offset passes no logical dimension
      simp [isOffered, hlogical] at hoffered
  | paths =>
    have hactive : filter.paths.isActive = true := hoffered
    rw [pathInodes, if_pos hactive] at hpath
    refine List.mem_flatMap.2 ⟨e.ino, by simpa using hpath, ?_⟩
    rw [hindex]
    exact mem_extentsOf.2 ⟨e, hrow, rfl⟩
  | inodes =>
    obtain ⟨span, hspan, hcontains⟩ := exists_span hoffered hino
    exact List.mem_flatMap.2
      ⟨span, hspan, (mem_idsOfSpan hindex).2 ⟨e, hrow, hcontains⟩⟩
  | everything =>
    rw [found, hindex]
    exact mem_order_build.2 (Array.getElem?_eq_some_iff.1 hrow).1

/-- Whatever source is read, the same candidates are of the answer. -/
theorem Source.filter_numbers (hindex : s.index = .build s.tables)
    (context : QueryContext) {source : Source}
    (hoffered : source.isOffered filter = true) :
    (source.numbers s filter).filter (acceptsNumber s context filter) =
      s.index.order.toList.filter (acceptsNumber s context filter) := by
  rw [numbers_eq hindex, List.filter_filter]
  refine List.filter_congr fun id _ => ?_
  rw [Bool.and_eq_left_iff_imp]
  intro h
  exact decide_eq_true (covers hindex hoffered h)

end Query

end DiskAtlas

/-
What the indexes of a store say about its tables. Each index is described
by what a reader may conclude from it, in terms of the tables alone: the
order and the ranks undo each other (`Orders`), the stretches cut the order
into one piece for each inode that owns extents (`Cuts`), what is listed of
an inode are its extents and nothing else (`Lists`), the intervals are
those of the extents (`HoldsOnce`), and the lists of paths turn the path
table around (`Inverts`). Building the indexes of any tables makes all of
this true.

The stretch of an inode begins behind the rows of smaller inodes and ends
before those of greater ones, so that the first and the last inode, and one
with a single extent, need no case of their own.
-/
import DiskAtlas.Proofs.Overview.Cells
import DiskAtlas.Proofs.Store.Owners

namespace DiskAtlas

-- ================================================================ order

/-- A row stands before another one of its inode: by offset, none first,
then by place on the device, then by number. -/
def NumberedExtent.BeforeWithin (a b : NumberedExtent) : Prop :=
  a.1.logical < b.1.logical ∨ a.1.logical = b.1.logical ∧
    (a.1.physical < b.1.physical ∨ a.1.physical = b.1.physical ∧ a.2 < b.2)

/-- A row stands before another one: by inode, then within it. -/
def NumberedExtent.Before (a b : NumberedExtent) : Prop :=
  a.1.ino < b.1.ino ∨ a.1.ino = b.1.ino ∧ a.BeforeWithin b

/-- A missing offset is smaller than any other. -/
theorem compare_offset_eq_lt_iff {a b : Option UInt64} :
    compare a b = .lt ↔ a < b := by
  rw [← compareOffset_eq]
  cases a with
  | none => cases b <;> simp [compareOffset]
  | some a =>
    cases b with
    | none => simp [compareOffset]
    | some b => simp [compareOffset, Std.compare_eq_lt]

/-- The order that the index is sorted by, in words of the extents. -/
theorem compareExtents_eq_lt_iff {a b : NumberedExtent} :
    compareExtents a b = .lt ↔ a.Before b := by
  simp only [compareExtents, Ordering.then_eq_lt, Ordering.then_eq_eq,
    compareOffset_eq, compare_offset_eq_lt_iff, Std.compare_eq_lt,
    Std.LawfulEqOrd.compare_eq_iff_eq, NumberedExtent.Before,
    NumberedExtent.BeforeWithin]
  tauto

namespace StoreIndex

variable {tables : Tables}

/-- Two numbers stand for rows that are related. -/
def Related (extents : Array Extent)
    (R : NumberedExtent → NumberedExtent → Prop) (i j : Nat) : Prop :=
  ∃ e f, extents[i]? = some e ∧ extents[j]? = some f ∧ R (e, i) (f, j)

/-- The order has every number once, in the order of the rows, and the
rank of a number is its place there. -/
structure Orders (extents : Array Extent) (order rank : Array Nat) :
    Prop where
  perm : order.toList.Perm (List.range extents.size)
  sorted : order.toList.Pairwise (Related extents NumberedExtent.Before)
  rank_iff : ∀ id place : Nat,
    rank[id]? = some place ↔ order[place]? = some id

/-- Rows in order are related by their numbers. -/
theorem related_of_pairwise {extents : Array Extent}
    {R : NumberedExtent → NumberedExtent → Prop} {rows : List NumberedExtent}
    (hrows : ∀ r ∈ rows, r ∈ sortedRows extents) (h : rows.Pairwise R) :
    (rows.map (·.2)).Pairwise (Related extents R) := by
  rw [List.pairwise_map]
  refine h.imp_of_mem fun {a b} ha hb hR => ?_
  exact ⟨a.1, b.1, mem_sortedRows.1 (hrows a ha),
    mem_sortedRows.1 (hrows b hb), hR⟩

/-- The order that is built has every number once, and the ranks undo it. -/
theorem orders_build (tables : Tables) :
    Orders tables.extents (build tables).order (build tables).rank where
  perm := ids_perm tables.extents
  sorted := related_of_pairwise (fun _ hr => hr)
    ((sortedRows_sorted tables.extents).imp compareExtents_eq_lt_iff.1)
  rank_iff := fun id place => by
    rw [rank_build_iff, Array.getElem?_toList]

-- ============================================================ stretches

/-- The stretches cut the order: there is one for each inode that owns
extents, none is empty, and the rows between its ends are those of its
inode. -/
structure Cuts (extents : Array Extent) (order : Array Nat)
    (stretch : SortedMap Int64 (Nat × Nat)) : Prop where
  key_iff : ∀ ino, ino ∈ stretch.keys ↔ ∃ e ∈ extents, e.ino = ino
  keys_nodup : stretch.keys.Nodup
  nonempty : ∀ ino first stop, (ino, first, stop) ∈ stretch.entries →
    first < stop
  disjoint : stretch.entries.Pairwise fun a b => a.2.2 ≤ b.2.1
  covers : ∀ place, place < order.size ↔
    ∃ ino first stop, (ino, first, stop) ∈ stretch.entries ∧
      first ≤ place ∧ place < stop
  owns : ∀ ino first stop, (ino, first, stop) ∈ stretch.entries →
    ∀ place id e, order[place]? = some id → extents[id]? = some e →
      (first ≤ place ∧ place < stop ↔ e.ino = ino)

/-- The row at a place of the order. -/
theorem getElem?_order_build {place id : Nat} {e : Extent}
    (hid : (build tables).order[place]? = some id)
    (he : tables.extents[id]? = some e) :
    (sortedRows tables.extents)[place]? = some (e, id) := by
  rw [← Array.getElem?_toList, order_build, List.getElem?_map,
    Option.map_eq_some_iff] at hid
  obtain ⟨⟨e', id'⟩, hrow, rfl⟩ := hid
  have he' := mem_sortedRows.1 (List.mem_of_getElem? hrow)
  rw [Option.some_inj.1 (he.symm.trans he'), hrow]

/-- A row stands between the ends of a stretch if it is of its inode. -/
theorem between_ends_iff {ino : Int64} {place : Nat} {r : NumberedExtent}
    (hrow : (sortedRows tables.extents)[place]? = some r) :
    (sortedRows tables.extents).countP (fun r => decide (r.1.ino < ino))
        ≤ place ∧
      place < (sortedRows tables.extents).countP
        (fun r => decide (r.1.ino ≤ ino)) ↔ r.1.ino = ino := by
  have hinos := List.pairwise_map.1 (inos_sorted tables.extents)
  have hbelow := Sorting.lt_countP_iff
    (p := fun r : NumberedExtent => decide (r.1.ino < ino))
    (hinos.imp fun hab hb => by
      rw [decide_eq_true_eq] at *
      exact Int64.lt_of_le_of_lt hab hb) hrow
  have hupTo := Sorting.lt_countP_iff
    (p := fun r : NumberedExtent => decide (r.1.ino ≤ ino))
    (hinos.imp fun hab hb => by
      rw [decide_eq_true_eq] at *
      exact Int64.le_trans hab hb) hrow
  rw [decide_eq_true_eq] at hbelow hupTo
  rw [hupTo, ← Nat.not_lt, hbelow, Int64.not_lt]
  constructor
  · rintro ⟨hge, hle⟩
    exact Int64.le_antisymm hle hge
  · rintro rfl
    exact ⟨Int64.le_refl _, Int64.le_refl _⟩

/-- Each inode with extents has its own stretch of the order, and the stretches
follow each other without a gap. That is so because the order is sorted by
inode first. -/
theorem cuts_build (tables : Tables) :
    Cuts tables.extents (build tables).order (build tables).stretch where
  key_iff := fun ino => by
    simp only [SortedMap.keys, List.mem_map, Prod.exists, mem_stretch_build]
    constructor
    · rintro ⟨_, first, stop, ⟨howned, -⟩, rfl⟩
      exact howned
    · exact fun howned => ⟨ino, _, _, ⟨howned, rfl, rfl⟩, rfl⟩
  keys_nodup := (build tables).stretch.keys_sorted.imp fun {a b} hlt => by
    rintro rfl
    exact Int64.lt_irrefl (Std.compare_eq_lt.1 hlt)
  nonempty := fun ino first stop hentry => by
    obtain ⟨⟨e, he, rfl⟩, rfl, rfl⟩ := mem_stretch_build.1 hentry
    obtain ⟨id, hid⟩ := Array.mem_iff_getElem?.1 he
    obtain ⟨place, hplace⟩ :=
      List.mem_iff_getElem?.1 (mem_sortedRows.2 hid)
    obtain ⟨hfirst, hstop⟩ := (between_ends_iff hplace).2 rfl
    exact Nat.lt_of_le_of_lt hfirst hstop
  -- the entries of the stretch are in order of their inodes, and so are the
  -- rows; what is before the rows of one inode is not behind them
  disjoint := by
    refine (build tables).stretch.sorted.imp_of_mem ?_
    rintro ⟨ino, first, stop⟩ ⟨ino', first', stop'⟩ h h' hlt
    obtain ⟨-, -, rfl⟩ := mem_stretch_build.1 h
    obtain ⟨-, rfl, -⟩ := mem_stretch_build.1 h'
    refine List.countP_mono_left fun r _ hle => ?_
    rw [decide_eq_true_eq] at *
    exact Int64.lt_of_le_of_lt hle (Std.compare_eq_lt.1 hlt)
  covers := fun place => by
    constructor
    · intro hplace
      have hrow : place < (sortedRows tables.extents).length := by
        simpa [build, sortedRows] using hplace
      have hget := List.getElem?_eq_getElem hrow
      have hmem := mem_sortedRows.1 (List.mem_of_getElem? hget)
      exact ⟨_, _, _, mem_stretch_build.2
        ⟨⟨_, Array.mem_of_getElem? hmem, rfl⟩, rfl, rfl⟩,
        (between_ends_iff hget).2 rfl⟩
    · rintro ⟨ino, first, stop, hentry, -, hplace⟩
      obtain ⟨-, -, rfl⟩ := mem_stretch_build.1 hentry
      have hrows : place < (sortedRows tables.extents).length :=
        Nat.lt_of_lt_of_le hplace List.countP_le_length
      simpa [build, sortedRows] using hrows
  owns := fun ino first stop hentry place id e hid he => by
    obtain ⟨-, rfl, rfl⟩ := mem_stretch_build.1 hentry
    exact between_ends_iff (getElem?_order_build hid he)

-- ======================================================= extents of inodes

/-- What is listed of an inode are its extents, each once and in order. -/
structure Lists (extents : Array Extent) (index : StoreIndex) : Prop where
  mem_iff : ∀ ino id, id ∈ index.extentsOf ino ↔
    ∃ e, extents[id]? = some e ∧ e.ino = ino
  nodup : ∀ ino, (index.extentsOf ino).Nodup
  sorted : ∀ ino, (index.extentsOf ino).Pairwise
    (Related extents NumberedExtent.BeforeWithin)

theorem lists_build (tables : Tables) :
    Lists tables.extents (build tables) where
  mem_iff := fun _ _ => mem_extentsOf
  nodup := fun ino => by
    rw [extentsOf_build]
    exact (ids_nodup tables.extents).sublist
      (List.filter_sublist.map _)
  sorted := fun ino => by
    rw [extentsOf_build]
    refine related_of_pairwise (fun r hr => (List.mem_filter.1 hr).1) ?_
    refine ((sortedRows_sorted tables.extents).filter _).imp_of_mem
      fun {a b} ha hb hlt => ?_
    have haino := of_decide_eq_true (List.mem_filter.1 ha).2
    have hbino := of_decide_eq_true (List.mem_filter.1 hb).2
    rcases compareExtents_eq_lt_iff.1 hlt with hino | ⟨-, hwithin⟩
    · rw [haino, hbino] at hino
      exact absurd hino Int64.lt_irrefl
    · exact hwithin

-- ============================================================ intervals

/-- The index holds the intervals that are wanted, each under a number of
its own. -/
def HoldsOnce (index : IntervalIndex) (Wanted : Interval → Prop) : Prop :=
  (index.entries.toList.map (·.id)).Nodup ∧
    ∀ i, i ∈ index.entries ↔ Wanted i

/-- An index of intervals that are numbered apart holds them. -/
theorem holdsOnce_build {intervals : List Interval}
    {Wanted : Interval → Prop} (hids : (intervals.map (·.id)).Nodup)
    (hwanted : ∀ i, i ∈ intervals ↔ Wanted i) :
    HoldsOnce (.build intervals) Wanted := by
  have hperm := List.mergeSort_perm intervals Interval.le
  refine ⟨(hperm.map _).nodup_iff.2 hids, fun i => ?_⟩
  rw [← hwanted, IntervalIndex.build, List.mem_toArray, hperm.mem_iff]

/-- There is one interval for each extent, with its place on the device. -/
theorem holdsOnce_physical (tables : Tables) :
    HoldsOnce (build tables).physical fun i =>
      ∃ e, tables.extents[i.id]? = some e ∧ i.first = e.physical ∧
        i.last = e.physicalEnd := by
  refine holdsOnce_build ?_ fun i => ?_
  · rw [List.map_map]
    exact (ids_numbered tables.extents).symm ▸ List.nodup_range
  · simp only [List.mem_map, Prod.exists, mem_numbered, physicalInterval]
    constructor
    · rintro ⟨e, id, he, rfl⟩
      exact ⟨e, he, rfl, rfl⟩
    · rintro ⟨e, he, hfirst, hlast⟩
      exact ⟨e, i.id, he, by rw [← hfirst, ← hlast]⟩

/-- An extent without an offset in a file has no interval there. -/
theorem logicalInterval_eq_some_iff {e : Extent} {id : Nat} {i : Interval} :
    logicalInterval (e, id) = some i ↔
      i.id = id ∧ e.logical = some i.first ∧
        i.last = Extent.lastByte i.first e.length := by
  obtain ⟨first, last, id'⟩ := i
  cases hlogical : e.logical with
  | none => simp [logicalInterval, hlogical]
  | some offset =>
    simp only [logicalInterval, hlogical, Extent.logicalEnd, Option.map_some,
      Option.some_inj, Interval.mk.injEq]
    constructor
    · rintro ⟨rfl, rfl, rfl⟩
      exact ⟨rfl, rfl, rfl⟩
    · rintro ⟨rfl, rfl, rfl⟩
      exact ⟨rfl, rfl, rfl⟩

/-- There is one interval for each extent that has an offset in its file. -/
theorem holdsOnce_logical (tables : Tables) :
    HoldsOnce (build tables).logical fun i =>
      ∃ e, tables.extents[i.id]? = some e ∧ e.logical = some i.first ∧
        i.last = Extent.lastByte i.first e.length := by
  refine holdsOnce_build ?_ fun i => ?_
  · have hids : ((numbered tables.extents).map (·.2)).Nodup :=
      ids_numbered tables.extents ▸ List.nodup_range
    rw [List.Nodup, List.pairwise_map, List.pairwise_filterMap]
    refine (List.pairwise_map.1 hids).imp fun {r r'} hne i hi i' hi' => ?_
    rw [(logicalInterval_eq_some_iff.1 hi).1,
      (logicalInterval_eq_some_iff.1 hi').1]
    exact hne
  · simp only [List.mem_filterMap, Prod.exists, mem_numbered,
      logicalInterval_eq_some_iff]
    constructor
    · rintro ⟨e, id, he, rfl, hlogical, hlast⟩
      exact ⟨e, he, hlogical, hlast⟩
    · rintro ⟨e, he, hlogical, hlast⟩
      exact ⟨e, i.id, he, rfl, hlogical, hlast⟩

-- ================================================================ paths

/-- The lists of paths turn the path table around: an inode has a list
exactly if a path names it, and the list has these paths in ascending
order, none of them twice. -/
structure Inverts (paths : SortedMap String Int64)
    (byInode : SortedMap Int64 (List String)) : Prop where
  mem_iff : ∀ ino path,
    (∃ listed, byInode.get? ino = some listed ∧ path ∈ listed) ↔
      paths.get? path = some ino
  nonempty : ∀ ino listed, byInode.get? ino = some listed → listed ≠ []
  sorted : ∀ ino listed, byInode.get? ino = some listed →
    listed.Pairwise (· < ·)

/-- Adding paths leaves no inode with an empty list. -/
private theorem foldl_addPath_ne_nil (entries : List (String × Int64))
    {paths : SortedMap Int64 (List String)}
    (h : ∀ ino listed, paths.get? ino = some listed → listed ≠ []) :
    ∀ ino listed, (entries.foldl addPath paths).get? ino = some listed →
      listed ≠ [] := by
  induction entries generalizing paths with
  | nil => exact h
  | cons e rest ih =>
    refine ih fun ino listed hget => ?_
    by_cases hino : e.2 = ino
    · subst hino
      rw [addPath, SortedMap.get?_insert_self, Option.some_inj] at hget
      rw [← hget]
      exact List.append_ne_nil_of_right_ne_nil _ (List.cons_ne_nil _ _)
    · rw [addPath, SortedMap.get?_insert_of_ne _ _ hino] at hget
      exact h ino listed hget

/-- A path is listed under an inode exactly if it names it, and the paths of an
inode are in order since the path table is. -/
theorem inverts_build (tables : Tables) :
    Inverts tables.paths (build tables).pathsByInode := by
  have hlisted : ∀ {ino listed},
      (build tables).pathsByInode.get? ino = some listed →
        listed = (tables.paths.entries.filter
          fun e => decide (e.2 = ino)).map (·.1) := by
    intro ino listed hget
    rw [← pathsOf_build, pathsOf, hget, Option.getD_some]
  refine ⟨fun ino path => ?_, ?_, fun ino listed hget => ?_⟩
  · have hmem : path ∈ (build tables).pathsOf ino ↔
        tables.paths.get? path = some ino := by
      rw [pathsOf_build, SortedMap.get?_eq_some_iff]
      simp
    rw [← hmem, pathsOf]
    cases (build tables).pathsByInode.get? ino <;> simp
  · exact foldl_addPath_ne_nil tables.paths.entries
      fun _ _ hget => by cases hget
  · rw [hlisted hget, List.pairwise_map]
    exact (tables.paths.sorted.imp compareOfLessAndEq_eq_lt.1).filter _

-- =============================================================== counts

/-- Counting rows adds, for each kind, the number of rows of this kind. -/
private theorem count_foldl_add (rows : List NumberedExtent)
    (c : Overview.Cell) (kind : ExtentKind) :
    (rows.foldl (fun c r => c.add r.1.kind) c).count kind =
      c.count kind + UInt64.ofNat
        (rows.countP fun r => decide (r.1.kind = kind)) := by
  induction rows generalizing c with
  | nil => simp
  | cons r rest ih =>
    rw [List.foldl_cons, ih, Overview.Cell.count_add, List.countP_cons,
      UInt64.ofNat_add]
    by_cases hkind : r.1.kind = kind
    · simp only [hkind, if_true, decide_true, UInt64.ofNat_one]
      ac_rfl
    · simp [hkind]

/-- The counter of a kind counts its extents. A counter that is a word is exact
as long as there are fewer than `2 ^ 64` of them. -/
theorem kindCounts_build (hfits : tables.extents.size < UInt64.size)
    (kind : ExtentKind) :
    ((build tables).kindCounts.count kind).toNat =
      tables.extents.countP fun e => decide (e.kind = kind) := by
  have hrows : (numbered tables.extents).countP
      (fun r => decide (r.1.kind = kind))
        = tables.extents.countP fun e => decide (e.kind = kind) := by
    rw [← Array.countP_toList, ← List.zipIdx_map_fst 0 tables.extents.toList,
      List.countP_map]
    rfl
  have hcount : (build tables).kindCounts.count kind = UInt64.ofNat
      (tables.extents.countP fun e => decide (e.kind = kind)) := by
    have hfold := count_foldl_add (numbered tables.extents) .empty kind
    rw [hrows] at hfold
    rwa [Overview.Cell.count_empty, UInt64.zero_add] at hfold
  rw [hcount, UInt64.toNat_ofNat', Nat.mod_eq_of_lt]
  exact Nat.lt_of_le_of_lt Array.countP_le_size hfits

-- ============================================================ all of them

/-- An index says of its tables what they hold. -/
structure Represents (index : StoreIndex) (tables : Tables) : Prop where
  orders : Orders tables.extents index.order index.rank
  cuts : Cuts tables.extents index.order index.stretch
  lists : Lists tables.extents index
  physical : HoldsOnce index.physical fun i =>
    ∃ e, tables.extents[i.id]? = some e ∧ i.first = e.physical ∧
      i.last = e.physicalEnd
  logical : HoldsOnce index.logical fun i =>
    ∃ e, tables.extents[i.id]? = some e ∧ e.logical = some i.first ∧
      i.last = Extent.lastByte i.first e.length
  inverts : Inverts tables.paths index.pathsByInode
  counts : ∀ kind, (index.kindCounts.count kind).toNat =
    tables.extents.countP fun e => decide (e.kind = kind)
  /-- Numbers of rows and their ranks fit half a word. -/
  fits : (∀ id ∈ index.order, id < UInt32.size) ∧
    ∀ place ∈ index.rank, place < UInt32.size

/-- The indexes of tables represent them, as long as half a word can number
the extents. -/
theorem build_represents (tables : Tables)
    (hfits : tables.extents.size < UInt32.size) :
    (build tables).Represents tables where
  orders := orders_build tables
  cuts := cuts_build tables
  lists := lists_build tables
  physical := holdsOnce_physical tables
  logical := holdsOnce_logical tables
  inverts := inverts_build tables
  counts := kindCounts_build (Nat.lt_trans hfits (by decide))
  fits := by
    constructor
    · intro id hid
      exact Nat.lt_trans (mem_order_build.1 (Array.mem_toList_iff.2 hid)) hfits
    · intro place hplace
      obtain ⟨id, hid⟩ := Array.mem_iff_getElem?.1 hplace
      have horder := rank_build_iff.1 hid
      have hlt := (List.getElem?_eq_some_iff.1 horder).1
      rw [length_order_build] at hlt
      exact Nat.lt_trans hlt hfits

/-- Three inodes, of which the middle one owns a single extent. Of the
others' extents some tie in offset, some in everything but their number,
and one ends past the largest place on the device. -/
def tiedTables : Tables :=
  { Tables.empty with
    paths := .ofList [("/b", 9), ("/a", 9), ("", 5)]
    extents := #[⟨9, 8192, some 4096, 512, .empty, .file⟩,
      ⟨-4, 0, none, 4096, .empty, .freeSpace⟩,
      ⟨9, 512, none, 512, .empty, .xattr⟩,
      ⟨9, 4096, some 4096, 512, .empty, .file⟩,
      ⟨5, maxWord, some 0, 512, .empty, .directory⟩,
      ⟨-4, 0, none, 4096, .empty, .freeSpace⟩] }

/-- Two rows of free space agree in all but their numbers, one row of a file
has no offset, and one inode has a single row. -/
theorem build_represents_tiedTables :
    tiedTables.extents.size < UInt32.size ∧
      (build tiedTables).Represents tiedTables ∧
      (build tiedTables).order.toList = [1, 5, 4, 2, 3, 0] ∧
      (build tiedTables).extentsOf 5 = [4] ∧
      (build tiedTables).extentsOf 9 = [2, 3, 0] ∧
      (build tiedTables).pathsOf 9 = ["/a", "/b"] := by
  have hfits : tiedTables.extents.size < UInt32.size := by decide
  have hsorted : sortedRows tiedTables.extents =
      [1, 5, 4, 2, 3, 0].filterMap
        fun id => tiedTables.extents[id]?.map (·, id) :=
    sortedRows_eq (by decide) (by decide)
  refine ⟨hfits, build_represents tiedTables hfits, ?_, ?_, ?_, ?_⟩
  · rw [order_build, hsorted]
    rfl
  · rw [extentsOf_build, hsorted]
    rfl
  · rw [extentsOf_build, hsorted]
    rfl
  · decide +kernel

end StoreIndex

end DiskAtlas

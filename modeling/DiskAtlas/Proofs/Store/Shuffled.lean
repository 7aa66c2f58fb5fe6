/-
Tables that differ in the order of their extents. The number of an extent
is its place in the table, and orders, ranks and stretches are all made of
numbers; but numbers only settle which of two extents comes first that
belong to one inode and begin at the same place in it and on the device.
So whatever is counted over all extents is the same in both tables, and
where no two extents agree in these three they come in one and the same
order in the answers (`Shuffled.sortedExtents_eq`), with all that depends
on it.
-/
import DiskAtlas.Proofs.Store.Ingested
import DiskAtlas.Proofs.Query.Meaning
import DiskAtlas.Proofs.Overview.Cells

namespace DiskAtlas

open StoreIndex

-- =============================================================== extents

/-- The order of the answers as far as the extents themselves tell. -/
def comparePlaces (a b : Extent) : Ordering :=
  (compare a.ino b.ino)
    |>.then (compareOffset a.logical b.logical)
    |>.then (compare a.physical b.physical)

/-- The order of the answers looks at the places first, and at the numbers only
where they tie. -/
theorem compareExtents_eq_then (a b : NumberedExtent) :
    compareExtents a b = (comparePlaces a.1 b.1).then (compare a.2 b.2) :=
  rfl

/-- Two extents belong to one inode and begin at the same place in it and
on the device. -/
def Extent.SamePlace (a b : Extent) : Prop :=
  a.ino = b.ino ∧ a.logical = b.logical ∧ a.physical = b.physical

theorem Extent.SamePlace.symm {a b : Extent} (h : a.SamePlace b) :
    b.SamePlace a :=
  ⟨h.1.symm, h.2.1.symm, h.2.2.symm⟩

/-- Places tie where inode, offset and place on the device are the same. -/
theorem comparePlaces_eq_eq_iff {a b : Extent} :
    comparePlaces a b = .eq ↔ a.SamePlace b := by
  rw [comparePlaces, Ordering.then_eq_eq, Ordering.then_eq_eq,
    compareOffset_eq, Std.LawfulEqOrd.compare_eq_iff_eq,
    Std.LawfulEqOrd.compare_eq_iff_eq, Std.LawfulEqOrd.compare_eq_iff_eq,
    and_assoc]
  rfl

/-- All extents, in the order of the answers. -/
def StoreIndex.sortedExtents (extents : Array Extent) : List Extent :=
  (sortedRows extents).map (·.1)

/-- The extents in the order of the answers are the extents of the table. -/
theorem StoreIndex.sortedExtents_perm (extents : Array Extent) :
    (sortedExtents extents).Perm extents.toList := by
  have hrows := (sortedRows_perm extents).map (·.1)
  rwa [numbered, List.zipIdx_map_fst] at hrows

namespace Tables

variable {t t' : Tables}

/-- No two extents of an inode agree in where they begin. -/
def Apart (t : Tables) : Prop :=
  t.extents.toList.Pairwise fun a b => ¬ a.SamePlace b

/-- Where extents lie apart they are ordered by where they begin. -/
theorem Apart.sorted (h : t.Apart) :
    (sortedExtents t.extents).Pairwise
      fun a b => comparePlaces a b = .lt := by
  have hsorted := sortedRows_sorted t.extents
  have hapart : (sortedExtents t.extents).Pairwise
      fun a b => ¬ a.SamePlace b :=
    ((sortedExtents_perm t.extents).pairwise_iff fun h h' => h h'.symm).2 h
  rw [sortedExtents, List.pairwise_map] at hapart ⊢
  refine (hsorted.and hapart).imp fun {a b} ⟨hlt, hnot⟩ => ?_
  rw [compareExtents_eq_then, Ordering.then_eq_lt] at hlt
  exact hlt.resolve_right fun heq => hnot (comparePlaces_eq_eq_iff.1 heq.1)

/-- The extents of an inode, cut from the list of all in their order. -/
theorem extentsOf_eq_filter (t : Tables) (ino : Int64) :
    t.extentsOf ino
      = (sortedExtents t.extents).filter fun e => decide (e.ino = ino) := by
  rw [sortedExtents, List.filter_map]
  rfl

-- ============================================================== shuffling

/-- Two tables that differ at most in the order of their extents. -/
structure Shuffled (t t' : Tables) : Prop where
  summary_eq : t'.summary = t.summary
  inodes_eq : t'.inodes = t.inodes
  paths_eq : t'.paths = t.paths
  directories_eq : t'.directories = t.directories
  perm : t'.extents.toList.Perm t.extents.toList

namespace Shuffled

theorem size_eq (h : t.Shuffled t') : t'.extents.size = t.extents.size := by
  simpa using h.perm.length_eq

theorem mem_iff (h : t.Shuffled t') {e : Extent} :
    e ∈ t'.extents ↔ e ∈ t.extents := by
  rw [← Array.mem_toList_iff, h.perm.mem_iff, Array.mem_toList_iff]

theorem sorted_perm (h : t.Shuffled t') :
    (sortedExtents t'.extents).Perm (sortedExtents t.extents) :=
  (sortedExtents_perm _).trans (h.perm.trans (sortedExtents_perm _).symm)

/-- Where extents lie apart, the order of the answers forgets the order of
the table. -/
theorem sortedExtents_eq (h : t.Shuffled t') (hapart : t.Apart) :
    sortedExtents t'.extents = sortedExtents t.extents := by
  have hapart' : t'.Apart := 
    (h.perm.pairwise_iff fun h h' => h h'.symm).2 hapart
  refine h.sorted_perm.eq_of_pairwise (fun a b _ _ hab hba => ?_)
    hapart'.sorted hapart.sorted
  have hswap : comparePlaces b a = (comparePlaces a b).swap := by
    simp only [comparePlaces, compareOffset_eq, Ordering.swap_then,
      ← Std.OrientedCmp.eq_swap]
  rw [hswap, hab] at hba
  cases hba

theorem pathsOf_eq (h : t.Shuffled t') (ino : Int64) :
    t'.pathsOf ino = t.pathsOf ino := by
  rw [pathsOf, h.paths_eq, pathsOf]

theorem extentsOf_perm (h : t.Shuffled t') (ino : Int64) :
    (t'.extentsOf ino).Perm (t.extentsOf ino) := by
  rw [extentsOf_eq_filter, extentsOf_eq_filter]
  exact h.sorted_perm.filter _

/-- Where no two extents are at the same place, each inode has them in the same
order. -/
theorem extentsOf_eq (h : t.Shuffled t') (hapart : t.Apart)
    (ino : Int64) : t'.extentsOf ino = t.extentsOf ino := by
  rw [extentsOf_eq_filter, extentsOf_eq_filter, h.sortedExtents_eq hapart]

theorem statsOf_eq (h : t.Shuffled t') (hapart : t.Apart)
    (inode : Inode) : t'.statsOf inode = t.statsOf inode := by
  rw [statsOf, h.extentsOf_eq hapart, statsOf]

end Shuffled

end Tables

/-- Travelling through extents counts them. -/
theorem Travel.count_foldl (extents : List Extent) (t : Travel) :
    (extents.foldl Travel.step t).count
      = t.count + UInt64.ofNat extents.length := by
  induction extents generalizing t with
  | nil => simp
  | cons e rest ih =>
    have hstep : (t.step e).count = t.count + 1 := by
      unfold Travel.step
      dsimp only
      split <;> rfl
    rw [List.foldl_cons, ih, hstep, List.length_cons, UInt64.ofNat_add,
      UInt64.add_assoc, UInt64.add_comm 1]
    rfl

/-- The order of its extents plays no part in how many an inode has. -/
theorem Tables.Shuffled.count_statsOf {t t' : Tables} (h : t.Shuffled t')
    (inode : Inode) :
    (t'.statsOf inode).extents = (t.statsOf inode).extents := by
  have hcount : ∀ t : Tables, (t.statsOf inode).extents
      = UInt64.ofNat ((t.extentsOf inode.ino).filter
        fun e => e.kind == inode.kind.primary).length := by
    intro t
    refine (Travel.count_foldl _ {}).trans ?_
    exact UInt64.zero_add _
  rw [hcount, hcount, ((h.extentsOf_perm inode.ino).filter _).length_eq]

-- ================================================================ counts

/-- The extents of one inode take up one stretch of the order, which begins
and ends behind a number of extents that does not depend on their order. -/
theorem Tables.Shuffled.stretch_eq {t t' : Tables} (h : t.Shuffled t') :
    (build t').stretch = (build t).stretch := by
  have hcount : ∀ p : Extent → Bool,
      (sortedRows t'.extents).countP (fun r => p r.1)
        = (sortedRows t.extents).countP (fun r => p r.1) := by
    intro p
    have hsorted := h.sorted_perm.countP_eq p
    rwa [sortedExtents, sortedExtents, List.countP_map, List.countP_map]
      at hsorted
  refine SortedMap.ext (Sorting.eq_of_sorted (fun a b hab hba => ?_)
    (build t').stretch.sorted (build t).stretch.sorted ?_)
  · have hgt : compare b.1 a.1 = .gt := Std.OrientedCmp.gt_of_lt hab
    cases hgt.symm.trans hba
  · rintro ⟨ino, first, stop⟩
    rw [mem_stretch_build, mem_stretch_build,
      hcount fun e => decide (e.ino < ino),
      hcount fun e => decide (e.ino ≤ ino)]
    simp only [h.mem_iff]

/-- Cells with the same counts are equal. -/
theorem Overview.Cell.ext_count {c c' : Cell}
    (h : ∀ kind, c.count kind = c'.count kind) : c = c' := by
  have hcounts : c.counts = c'.counts := by
    refine Vector.ext fun i hi => ?_
    obtain ⟨kind, rfl⟩ := ExtentKind.exists_index hi
    exact h kind
  cases c
  cases c'
  cases hcounts
  rfl

/-- What is counted in cells does not depend on the order. -/
theorem Overview.countAll_perm (cells total : UInt64)
    {extents extents' : List Extent} (h : extents'.Perm extents) :
    countAll cells total extents' = countAll cells total extents := by
  refine Array.ext_getElem? fun cell => ?_
  by_cases hcell : cell < cells.toNat
  · obtain ⟨c, hc, hcount⟩ := count_countAll cells total extents hcell
    obtain ⟨c', hc', hcount'⟩ := count_countAll cells total extents' hcell
    rw [hc, hc']
    refine congrArg some (Cell.ext_count fun kind => ?_)
    rw [hcount, hcount', h.countP_eq]
  · rw [Array.getElem?_eq_none, Array.getElem?_eq_none]
    all_goals
      rw [size_countAll]
      omega

/-- A cell counts the extents that meet it, in whatever order they come. -/
theorem Tables.Shuffled.overviewOf_eq {t t' : Tables} (h : t.Shuffled t')
    (cells total : UInt64) :
    t'.overviewOf cells total = t.overviewOf cells total :=
  Overview.countAll_perm cells total h.perm

/-- The last byte that an extent holds is the same in any order. -/
theorem Session.maxEnd_perm {extents extents' : Array Extent}
    (h : extents'.toList.Perm extents.toList) :
    maxEnd extents' = maxEnd extents := by
  have hends := h.map (·.physicalEnd)
  unfold maxEnd
  cases hmax : (extents.toList.map (·.physicalEnd)).max? with
  | none =>
    rw [List.max?_eq_none_iff] at hmax ⊢
    rw [hmax] at hends
    exact hends.eq_nil
  | some last =>
    rw [List.max?_eq_some_iff] at hmax ⊢
    exact ⟨hends.mem_iff.2 hmax.1, fun b hb =>
      hmax.2 b (hends.mem_iff.1 hb)⟩

/-- The total is raised to the greatest end of an extent, which does not depend
on their order. -/
theorem Session.raiseTotal_perm (summary : Summary)
    {extents extents' : Array Extent}
    (h : extents'.toList.Perm extents.toList) :
    raiseTotal summary extents' = raiseTotal summary extents := by
  rw [raiseTotal, maxEnd_perm h, raiseTotal]

end DiskAtlas

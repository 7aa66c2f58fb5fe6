/-
The order of answers. Extents are compared by inode, offset, place on the
device and number, and since numbers differ no two rows compare equal: the
order of a store's index is the one strictly ascending list of all rows
(`sortedRows_sorted`, `mem_sortedRows`). The rank of a number is its place
in that list (`rankOf_build`), so sorting by rank is sorting by the order.
-/
import DiskAtlas.Store.Index
import DiskAtlas.Proofs.Sorting

namespace DiskAtlas

-- ========================================================== comparison

/-- Missing offsets come first, as a missing value does in every
comparison of optional values. -/
theorem compareOffset_eq (a b : Option UInt64) :
    compareOffset a b = compare a b := by
  cases a <;> cases b <;> rfl

/-- The order of the index is lexicographic in four keys. The laws of an order
are then the library's, for each key and for the combination. -/
theorem compareExtents_eq :
    compareExtents =
      compareLex
        (compareLex
          (compareLex (compareOn (·.1.ino))
            (compareOn (·.1.logical)))
          (compareOn (·.1.physical)))
        (compareOn (·.2)) := by
  funext a b
  simp only [compareExtents, compareOffset_eq, compareLex, compareOn]

instance : Std.TransCmp compareExtents := by
  rw [compareExtents_eq]
  infer_instance

/-- Rows that compare equal have one number. -/
theorem id_eq_of_compareExtents {a b : NumberedExtent}
    (h : compareExtents a b = .eq) : a.2 = b.2 := by
  simp only [compareExtents, Ordering.then_eq_eq] at h
  exact Std.LawfulEqOrd.compare_eq_iff_eq.1 h.2

/-- Rows in the order of answers have their inodes in order. -/
theorem ino_le_of_compareExtents {a b : NumberedExtent}
    (h : (compareExtents a b).isLE = true) : a.1.ino ≤ b.1.ino := by
  rw [compareExtents_eq] at h
  simp only [compareLex, Ordering.isLE_then_iff_and, compareOn] at h
  exact (Std.LawfulOrderOrd.isLE_compare _ _).1 h.1.1.1

namespace StoreIndex

-- ================================================================ rows

/-- All rows, in the order of answers. -/
def sortedRows (extents : Array Extent) : List NumberedExtent :=
  (numbered extents).mergeSort fun a b => (compareExtents a b).isLE

/-- The number of an extent is its index in the table. -/
theorem mem_numbered {extents : Array Extent} {e : Extent} {id : Nat} :
    (e, id) ∈ numbered extents ↔ extents[id]? = some e := by
  simp [numbered, List.mem_zipIdx_iff_getElem?]

/-- Sorting the rows loses none and repeats none. What is said of all rows, or
of how many there are, carries over to the sorted ones by this alone. -/
theorem sortedRows_perm (extents : Array Extent) :
    (sortedRows extents).Perm (numbered extents) :=
  List.mergeSort_perm _ _

theorem mem_sortedRows {extents : Array Extent} {e : Extent} {id : Nat} :
    (e, id) ∈ sortedRows extents ↔ extents[id]? = some e :=
  (sortedRows_perm extents).mem_iff.trans mem_numbered

/-- The rows are numbered from zero on. -/
theorem ids_numbered (extents : Array Extent) :
    (numbered extents).map (·.2) = List.range extents.size := by
  simp [numbered, List.zipIdx_map_snd, List.range_eq_range']

/-- Every number stands in the order once. -/
theorem ids_perm (extents : Array Extent) :
    ((sortedRows extents).map (·.2)).Perm (List.range extents.size) :=
  ids_numbered extents ▸ (sortedRows_perm extents).map _

/-- Every number belongs to one row. -/
theorem ids_nodup (extents : Array Extent) :
    ((sortedRows extents).map (·.2)).Nodup :=
  (ids_perm extents).nodup_iff.2 List.nodup_range

/-- The rows stand in strictly ascending order. -/
theorem sortedRows_sorted (extents : Array Extent) :
    (sortedRows extents).Pairwise fun a b => compareExtents a b = .lt := by
  have hle : (sortedRows extents).Pairwise
      fun a b => (compareExtents a b).isLE = true :=
    List.pairwise_mergeSort
      (fun _ _ _ => Std.TransCmp.isLE_trans)
      (fun a b => by
        have hswap : compareExtents b a = (compareExtents a b).swap :=
          Std.OrientedCmp.eq_swap
        rw [hswap]
        cases compareExtents a b <;> rfl)
      _
  have hne := List.pairwise_map.1 (ids_nodup extents)
  refine (hle.and hne).imp fun {a b} ⟨hab, hid⟩ => ?_
  refine Ordering.isLE_iff_eq_lt_or_eq_eq.1 hab |>.resolve_right fun heq => ?_
  exact hid (id_eq_of_compareExtents heq)

-- =============================================================== order

/-- No other list of the rows is in order. -/
theorem sortedRows_eq {extents : Array Extent} {rows : List NumberedExtent}
    (hperm : rows.Perm (numbered extents))
    (hsorted : rows.Pairwise fun a b => compareExtents a b = .lt) :
    sortedRows extents = rows := by
  refine Sorting.eq_of_sorted (fun a b hab hba => ?_)
    (sortedRows_sorted extents) hsorted fun row =>
      ((sortedRows_perm extents).trans hperm.symm).mem_iff
  have hswap : compareExtents b a = (compareExtents a b).swap :=
    Std.OrientedCmp.eq_swap
  rw [hab, hba] at hswap
  cases hswap

theorem order_build (tables : Tables) :
    (build tables).order.toList = (sortedRows tables.extents).map (·.2) :=
  rfl

theorem mem_order_build {tables : Tables} {id : Nat} :
    id ∈ (build tables).order.toList ↔ id < tables.extents.size := by
  rw [order_build, List.mem_map]
  constructor
  · rintro ⟨⟨e, i⟩, hrow, rfl⟩
    exact (Array.getElem?_eq_some_iff.1 (mem_sortedRows.1 hrow)).1
  · intro h
    exact ⟨(tables.extents[id], id),
      mem_sortedRows.2 (Array.getElem?_eq_getElem h), rfl⟩

/-- No number stands twice in the order, as no two extents have the same
number. -/
theorem order_nodup (tables : Tables) :
    (build tables).order.toList.Nodup :=
  ids_nodup tables.extents

-- =============================================================== ranks

/-- Writing places down changes those of the numbers written, each of
which comes once. -/
private theorem foldl_place {rows : List (Nat × Nat)} {places : Array Nat}
    (hrows : (rows.map (·.1)).Nodup) {id place : Nat}
    (hsize : id < places.size) :
    (id ∉ rows.map (·.1) →
      (rows.foldl (fun ranks (id, place) => ranks.setIfInBounds id place)
        places)[id]? = places[id]?) ∧
    ((id, place) ∈ rows →
      (rows.foldl (fun ranks (id, place) => ranks.setIfInBounds id place)
        places)[id]? = some place) := by
  induction rows generalizing places with
  | nil => exact ⟨fun _ => rfl, fun h => absurd h List.not_mem_nil⟩
  | cons row rest ih =>
    obtain ⟨hnot, hrest⟩ := List.nodup_cons.1 hrows
    have hsize' : id < (places.setIfInBounds row.1 row.2).size := by
      rwa [Array.size_setIfInBounds]
    have ih := ih hrest hsize'
    constructor
    · intro hid
      rw [List.map_cons, List.mem_cons, not_or] at hid
      rw [List.foldl_cons, ih.1 hid.2, Array.getElem?_setIfInBounds,
        if_neg (Ne.symm hid.1)]
    · intro hmem
      rw [List.foldl_cons]
      rcases List.mem_cons.1 hmem with rfl | hmem
      · rw [ih.1 hnot, Array.getElem?_setIfInBounds, if_pos rfl,
          if_pos hsize]
      · exact ih.2 hmem

/-- The rank of a number is the place where it stands in the order. -/
theorem getElem?_ranks {order : List Nat} (hnodup : order.Nodup)
    {id place : Nat} (hid : id < order.length)
    (hplace : order[place]? = some id) :
    (ranks order)[id]? = some place := by
  have hrows : (order.zipIdx.map (·.1)).Nodup := by
    rwa [List.zipIdx_map_fst]
  refine (foldl_place hrows ?_).2 ?_
  · simpa using hid
  · exact List.mk_mem_zipIdx_iff_getElem?.2 hplace

/-- Every number of an ordering has a rank, and nothing else has. -/
theorem size_ranks (order : List Nat) : (ranks order).size = order.length := by
  have hsize : ∀ (rows : List (Nat × Nat)) (places : Array Nat),
      (rows.foldl (fun ranks (id, place) => ranks.setIfInBounds id place)
        places).size = places.size := by
    intro rows
    induction rows with
    | nil => exact fun _ => rfl
    | cons row rest ih =>
      intro places
      rw [List.foldl_cons, ih, Array.size_setIfInBounds]
  rw [ranks, hsize, Array.size_replicate]

theorem length_order_build (tables : Tables) :
    (build tables).order.toList.length = tables.extents.size := by
  rw [order_build, (ids_perm tables.extents).length_eq, List.length_range]

/-- Ranks and places undo each other. -/
theorem rank_build_iff {tables : Tables} {id place : Nat} :
    (build tables).rank[id]? = some place ↔
      (build tables).order.toList[place]? = some id := by
  have hrank : ∀ {i p : Nat}, (build tables).order.toList[p]? = some i →
      (build tables).rank[i]? = some p := by
    intro i p h
    have hid := mem_order_build.1 (List.mem_of_getElem? h)
    exact getElem?_ranks (order_nodup tables)
      (length_order_build tables ▸ hid) h
  refine ⟨fun h => ?_, hrank⟩
  have hid : id < tables.extents.size := by
    have hlt := (Array.getElem?_eq_some_iff.1 h).1
    rwa [show (build tables).rank = ranks (build tables).order.toList
      from rfl, size_ranks, length_order_build] at hlt
  -- a number in range has a place, and its rank is that place
  obtain ⟨p, hp⟩ := List.mem_iff_getElem?.1 (mem_order_build.2 hid)
  have hplace := (hrank hp).symm.trans h
  rwa [Option.some_inj.1 hplace] at hp

/-- The rank of a row, as queries read it. -/
def rankOf (index : StoreIndex) (id : Nat) : Nat := (index.rank[id]?).getD 0

theorem rankOf_build {tables : Tables} {id place : Nat}
    (h : (build tables).order.toList[place]? = some id) :
    (build tables).rankOf id = place := by
  rw [rankOf, rank_build_iff.2 h, Option.getD_some]

/-- The order is ascending in rank. -/
theorem order_sorted (tables : Tables) :
    (build tables).order.toList.Pairwise fun a b =>
      (build tables).rankOf a < (build tables).rankOf b := by
  rw [List.pairwise_iff_getElem]
  intro i j hi hj hij
  rw [rankOf_build (List.getElem?_eq_getElem hi),
    rankOf_build (List.getElem?_eq_getElem hj)]
  exact hij

/-- Numbers of rows with one rank are one number. -/
theorem rankOf_injective {tables : Tables} {a b : Nat}
    (ha : a < tables.extents.size) (hb : b < tables.extents.size)
    (h : (build tables).rankOf a = (build tables).rankOf b) : a = b := by
  obtain ⟨i, hi⟩ := List.mem_iff_getElem?.1 (mem_order_build.2 ha)
  obtain ⟨j, hj⟩ := List.mem_iff_getElem?.1 (mem_order_build.2 hb)
  rw [rankOf_build hi, rankOf_build hj] at h
  subst h
  exact Option.some_inj.1 (hi.symm.trans hj)

end StoreIndex

end DiskAtlas

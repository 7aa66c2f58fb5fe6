/-
What belongs to an inode. Its extents are one stretch of the order, which
begins behind the rows of all smaller inodes and ends behind its own
(`mem_stretches`); so the numbers read off a stretch are those of the
inode's rows, in order, whether the inode has any or not
(`extentsOf_build`). Its paths are those of the path table that name it, in
the order of the table (`pathsOf_build`).

A stretch is found without looking at the rows of its inode, from how many
rows come before. So the proofs count, and an inode without extents has an
empty stretch like any other.
-/
import DiskAtlas.Proofs.SortedMap
import DiskAtlas.Proofs.Store.Order

namespace DiskAtlas

-- ============================================================ stretches

/-- The first inode of a list in order is the smallest. -/
private theorem head_le {ino : Int64} {inos : List Int64}
    (hsorted : inos.Pairwise fun a b => a ≤ b)
    (h : inos.head? = some ino) : ∀ j ∈ inos, ino ≤ j := by
  obtain ⟨rest, rfl⟩ := List.head?_eq_some_iff.1 h
  intro j hj
  rcases List.mem_cons.1 hj with rfl | hj
  · exact Int64.le_refl _
  · exact List.rel_of_pairwise_cons hsorted hj

/-- Behind a stretch every inode is greater. -/
private theorem lt_of_head_ne {i : Int64} {rest : List Int64}
    (hsorted : (i :: rest).Pairwise fun a b => a ≤ b)
    (h : rest.head? ≠ some i) : ∀ j ∈ rest, i < j := by
  obtain ⟨hi, hrest⟩ := List.pairwise_cons.1 hsorted
  intro j hj
  cases rest with
  | nil => cases hj
  | cons k rest =>
    have hk : i < k := Int64.lt_of_le_of_ne (hi k List.mem_cons_self)
      fun heq => h (by simp [heq])
    exact Int64.lt_of_lt_of_le hk (head_le hrest rfl j hj)

/-- The stretches of a list in ascending order. A stretch begins where the
smaller inodes end, but the first one began at `start`, and it ends where
the greater inodes begin. -/
theorem mem_stretches {inos : List Int64} {ino : Int64}
    {start place first stop : Nat}
    (hsorted : inos.Pairwise fun a b => a ≤ b) :
    (ino, first, stop) ∈ stretches start place inos ↔
      ino ∈ inos ∧
      first = (if inos.head? = some ino then start
        else place + inos.countP fun i => decide (i < ino)) ∧
      stop = place + inos.countP fun i => decide (i ≤ ino) := by
  induction inos generalizing start place with
  | nil => simp [stretches]
  | cons i rest ih =>
    obtain ⟨hi, hrest⟩ := List.pairwise_cons.1 hsorted
    unfold stretches
    split
    · next hhead =>
      -- the stretch of `i` goes on
      have hmem : i ∈ rest := List.mem_of_head? hhead
      rw [ih hrest, hhead, List.head?_cons]
      by_cases heq : i = ino
      · subst heq
        simp [hmem, Nat.add_assoc, Nat.add_comm]
      · have hcons : ino ∈ i :: rest ↔ ino ∈ rest := by
          simp [Ne.symm heq]
        rw [hcons]
        refine and_congr_right fun hino => ?_
        have hlt : i < ino := Int64.lt_of_le_of_ne (hi ino hino) heq
        simp [heq, hlt, Int64.le_of_lt hlt, Nat.add_assoc, Nat.add_comm]
    · next hhead =>
      -- the stretch of `i` ends here
      have hlater := lt_of_head_ne hsorted hhead
      rw [List.mem_cons, ih hrest, List.head?_cons]
      by_cases heq : i = ino
      · subst heq
        have hnot : i ∉ rest := fun h => Int64.lt_irrefl (hlater i h)
        have hnone : rest.countP (fun j => decide (j ≤ i)) = 0 := by
          rw [List.countP_eq_zero]
          intro j hj
          simpa using hlater j hj
        simp [hnot, hnone]
      · have hcons : ino ∈ i :: rest ↔ ino ∈ rest := by
          simp [Ne.symm heq]
        rw [hcons, Prod.mk.injEq, or_iff_right fun h => heq h.1.symm]
        refine and_congr_right fun hino => ?_
        have hlt := hlater ino hino
        have hsmaller : rest.head? = some ino →
            rest.countP (fun j => decide (j < ino)) = 0 := by
          intro hfirst
          rw [List.countP_eq_zero]
          intro j hj
          simpa using head_le hrest hfirst j hj
        simp only [Option.some.injEq, heq, if_false, List.countP_cons, hlt,
          Int64.le_of_lt hlt, decide_true, if_true]
        split
        · next hfirst =>
          rw [hsmaller hfirst]
          omega
        · omega

/-- No inode has two stretches, and they are in ascending order. -/
theorem stretches_sorted {inos : List Int64} {start place : Nat}
    (hsorted : inos.Pairwise fun a b => a ≤ b) :
    (stretches start place inos).Pairwise
      fun a b => compare a.1 b.1 = .lt := by
  induction inos generalizing start place with
  | nil => exact List.Pairwise.nil
  | cons i rest ih =>
    obtain ⟨hi, hrest⟩ := List.pairwise_cons.1 hsorted
    unfold stretches
    split
    · exact ih hrest
    · next hhead =>
      refine List.pairwise_cons.2 ⟨fun ⟨j, a, b⟩ hj => ?_, ih hrest⟩
      have hmem := ((mem_stretches hrest).1 hj).1
      exact Std.compare_eq_lt.2 (lt_of_head_ne hsorted hhead j hmem)

namespace StoreIndex

-- ============================================================== extents

/-- The inodes of the rows in order. -/
theorem inos_sorted (extents : Array Extent) :
    ((sortedRows extents).map (·.1.ino)).Pairwise fun a b => a ≤ b := by
  rw [List.pairwise_map]
  exact (sortedRows_sorted extents).imp fun h =>
    ino_le_of_compareExtents (by simp [h])

theorem mem_inos {extents : Array Extent} {ino : Int64} :
    ino ∈ (sortedRows extents).map (·.1.ino) ↔
      ∃ e ∈ extents, e.ino = ino := by
  simp only [List.mem_map, Prod.exists, mem_sortedRows,
    Array.mem_iff_getElem?]
  constructor
  · rintro ⟨e, id, hid, rfl⟩
    exact ⟨e, ⟨id, hid⟩, rfl⟩
  · rintro ⟨e, ⟨id, hid⟩, rfl⟩
    exact ⟨e, id, hid, rfl⟩

/-- The stretch of an inode lies between the rows of smaller inodes and
those of greater ones. -/
theorem mem_stretch_build {tables : Tables} {ino : Int64}
    {first stop : Nat} :
    (ino, first, stop) ∈ (build tables).stretch.entries ↔
      (∃ e ∈ tables.extents, e.ino = ino) ∧
      first = (sortedRows tables.extents).countP
        (fun r => decide (r.1.ino < ino)) ∧
      stop = (sortedRows tables.extents).countP
        (fun r => decide (r.1.ino ≤ ino)) := by
  have hsorted := inos_sorted tables.extents
  have hentries : (build tables).stretch.entries =
      stretches 0 0 ((sortedRows tables.extents).map (·.1.ino)) :=
    SortedMap.entries_ofList (stretches_sorted hsorted)
  have hfirst : ((sortedRows tables.extents).map (·.1.ino)).head? = some ino →
      (sortedRows tables.extents).countP (fun r => decide (r.1.ino < ino))
        = 0 := by
    intro h
    rw [List.countP_eq_zero]
    intro r hr
    simpa using head_le hsorted h _ (List.mem_map_of_mem hr)
  rw [hentries, mem_stretches hsorted]
  simp only [mem_inos, List.countP_map, Nat.zero_add]
  refine and_congr_right fun _ => and_congr_left fun _ => ?_
  split
  · next h =>
    rw [hfirst h]
  · rfl

/-- What stands between the ends of a stretch are the numbers of its
inode's rows. -/
theorem between_stretch {tables : Tables} {ino : Int64} {ends : Nat × Nat}
    (h : (ino, ends) ∈ (build tables).stretch.entries) :
    (build tables).between ends =
      ((sortedRows tables.extents).filter
        fun r => decide (r.1.ino = ino)).map (·.2) := by
  obtain ⟨-, hfirst, hstop⟩ := mem_stretch_build.1 h
  let rows := sortedRows tables.extents
  have hino : rows.Pairwise fun a b => a.1.ino ≤ b.1.ino :=
    List.pairwise_map.1 (inos_sorted tables.extents)
  -- both ends are counts, and in sorted rows what is counted comes first
  have hbetween := Sorting.filter_eq_between
    (p := fun r : NumberedExtent => decide (r.1.ino < ino))
    (q := fun r : NumberedExtent => decide (r.1.ino ≤ ino))
    (hino.imp fun hab hb => by
      rw [decide_eq_true_eq] at *
      exact Int64.lt_of_le_of_lt hab hb)
    (hino.imp fun hab hb => by
      rw [decide_eq_true_eq] at *
      exact Int64.le_trans hab hb)
    (fun r hr => by
      rw [decide_eq_true_eq] at *
      exact Int64.le_of_lt hr)
  have hown : ∀ r ∈ rows, (!decide (r.1.ino < ino) && decide (r.1.ino ≤ ino))
      = decide (r.1.ino = ino) := by
    intro r _
    rw [Bool.eq_iff_iff]
    simp only [Bool.and_eq_true, Bool.not_eq_true', decide_eq_false_iff_not,
      decide_eq_true_eq]
    constructor
    · rintro ⟨hge, hle⟩
      exact Int64.le_antisymm hle (Int64.not_lt.1 hge)
    · rintro rfl
      exact ⟨Int64.lt_irrefl, Int64.le_refl _⟩
  rw [between, Array.toList_extract, List.extract_eq_take_drop,
    order_build, hfirst, hstop, ← List.map_drop, ← List.map_take, hbetween,
    List.filter_congr hown]

/-- The numbers of an inode's extents are those of its rows, in order. -/
theorem extentsOf_build (tables : Tables) (ino : Int64) :
    (build tables).extentsOf ino =
      ((sortedRows tables.extents).filter
        fun r => decide (r.1.ino = ino)).map (·.2) := by
  unfold extentsOf
  split
  · next ends hends =>
    exact between_stretch (SortedMap.get?_eq_some_iff.1 hends)
  · next hnone =>
    have hrows : ∀ r ∈ sortedRows tables.extents, r.1.ino ≠ ino := by
      intro r hr heq
      have hmem : ino ∈ (sortedRows tables.extents).map (·.1.ino) :=
        List.mem_map.2 ⟨r, hr, heq⟩
      have hin := mem_stretch_build.2 ⟨mem_inos.1 hmem, rfl, rfl⟩
      rw [← SortedMap.get?_eq_some_iff, hnone] at hin
      cases hin
    rw [List.filter_eq_nil_iff.2 fun r hr => by simpa using hrows r hr]
    rfl

/-- The numbers of an inode are those of its rows. -/
theorem mem_extentsOf {tables : Tables} {ino : Int64} {id : Nat} :
    id ∈ (build tables).extentsOf ino ↔
      ∃ e, tables.extents[id]? = some e ∧ e.ino = ino := by
  simp [extentsOf_build, mem_sortedRows]

-- ================================================================ paths

/-- Paths are added behind those of their inode that are there. -/
private theorem pathsOf_foldl (entries : List (String × Int64))
    (paths : SortedMap Int64 (List String)) (ino : Int64) :
    ((entries.foldl addPath paths).get? ino).getD [] =
      (paths.get? ino).getD [] ++
        (entries.filter fun e => decide (e.2 = ino)).map (·.1) := by
  induction entries generalizing paths with
  | nil => simp
  | cons e rest ih =>
    rw [List.foldl_cons, ih]
    by_cases h : e.2 = ino
    · subst h
      simp [addPath, SortedMap.get?_insert_self]
    · simp [addPath, SortedMap.get?_insert_of_ne _ _ h, h]

/-- The paths of an inode are the paths that name it, in order. -/
theorem pathsOf_build (tables : Tables) (ino : Int64) :
    (build tables).pathsOf ino =
      (tables.paths.entries.filter fun e => decide (e.2 = ino)).map (·.1) :=
  pathsOf_foldl tables.paths.entries .empty ino

end StoreIndex

end DiskAtlas

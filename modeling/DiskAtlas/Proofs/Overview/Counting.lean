/-
Counting an overview some extents at a time. Whatever the sizes of the
batches, a scan has counted exactly the rows before its next one
(`CountsUpTo`): a start has, every step keeps it, and a scan that is done
has counted the whole table (`cells_of_done`). So the cells that are kept
in the end are those of one pass over the table (`Tables.overviewOf`),
however the scan got there (`cells_complete`).
-/
import DiskAtlas.Overview.Scan

namespace DiskAtlas

open Overview

-- ================================================================ cells

/-- The cells of some extents, counted in one pass. -/
def Overview.countAll (resolution total : UInt64) (extents : List Extent) :
    Array Cell :=
  extents.foldl (addExtent resolution total)
    (Array.replicate resolution.toNat .empty)

/-- The overview of tables as it follows from the extent table. -/
def Tables.overviewOf (t : Tables) (resolution total : UInt64) : Array Cell :=
  countAll resolution total t.extents.toList

namespace Overview

/-- Counting an extent neither adds cells nor takes any away. -/
theorem size_addExtent (resolution total : UInt64) (cells : Array Cell)
    (e : Extent) : (addExtent resolution total cells e).size = cells.size := by
  have hmodify : ∀ (places : List Nat) (cells : Array Cell),
      (places.foldl (fun cells i => cells.modify i (·.add e.kind)) cells).size
        = cells.size := by
    intro places
    induction places with
    | nil => exact fun _ => rfl
    | cons i rest ih =>
      intro cells
      rw [List.foldl_cons, ih, Array.size_modify]
  unfold addExtent
  split
  · rfl
  · exact hmodify _ _

/-- An overview has as many cells as were asked for. -/
theorem size_countAll (resolution total : UInt64) (extents : List Extent) :
    (countAll resolution total extents).size = resolution.toNat := by
  have hsize : ∀ cells : Array Cell,
      (extents.foldl (addExtent resolution total) cells).size
        = cells.size := by
    induction extents with
    | nil => exact fun _ => rfl
    | cons e rest ih =>
      intro cells
      rw [List.foldl_cons, ih, size_addExtent]
  rw [countAll, hsize, Array.size_replicate]

-- ================================================================ scans

namespace Scan

variable {extents : Array Extent} {scan : Scan}

/-- The cells hold the counts of the extents before the next one. -/
structure CountsUpTo (extents : Array Extent) (scan : Scan) : Prop where
  next_le : scan.next ≤ extents.size
  cells_eq : scan.cells =
    countAll scan.resolution scan.total (extents.toList.take scan.next)

theorem countsUpTo_start (resolution total : UInt64) :
    (start resolution total).CountsUpTo extents :=
  ⟨Nat.zero_le _, rfl⟩

/-- A step counts the extents that it moves over. -/
theorem CountsUpTo.step (h : scan.CountsUpTo extents) (batch : Nat) :
    (scan.step extents batch).CountsUpTo extents := by
  have hle := h.next_le
  refine ⟨Nat.min_le_right _ _, ?_⟩
  let stop := min (scan.next + max batch 1) extents.size
  have hstop : scan.next ≤ stop := by omega
  have hsplit : extents.toList.take scan.next ++
        (extents.extract scan.next stop).toList
      = extents.toList.take stop := by
    rw [Array.toList_extract, List.extract_eq_drop_take',
      ← Nat.min_eq_left hstop, ← List.take_take, Nat.min_eq_left hstop,
      List.take_append_drop]
  show List.foldl _ scan.cells (extents.extract scan.next stop).toList
    = countAll scan.resolution scan.total (extents.toList.take stop)
  rw [← hsplit, h.cells_eq, countAll, countAll, List.foldl_append]

/-- A scan that is done has counted every extent. -/
theorem CountsUpTo.cells_of_done (h : scan.CountsUpTo extents)
    (hdone : extents.size ≤ scan.next) :
    scan.cells = countAll scan.resolution scan.total extents.toList := by
  rw [h.cells_eq, List.take_of_length_le (by simpa using hdone)]

@[simp] theorem resolution_step (batch : Nat) :
    (scan.step extents batch).resolution = scan.resolution := rfl

@[simp] theorem total_step (batch : Nat) :
    (scan.step extents batch).total = scan.total := rfl

/-- A step after which extents are left leaves fewer than before. -/
theorem left_lt_of_step {batch : Nat}
    (hmore : ¬ extents.size ≤ (scan.step extents batch).next) :
    extents.size - (scan.step extents batch).next
      < extents.size - scan.next := by
  have hnext : (scan.step extents batch).next
      = min (scan.next + max batch 1) extents.size := rfl
  omega

/-- A run asks before every batch and ends when it is done. -/
theorem runFrom_succ (calledOff : Nat → Bool) (extents : Array Extent)
    (batches done : Nat) (scan : Scan) :
    scan.runFrom calledOff extents (batches + 1) done =
      if calledOff done then none
      else if extents.size ≤ (scan.step extents batchSize).next then
        some (scan.step extents batchSize)
      else
        (scan.step extents batchSize).runFrom calledOff extents batches
          (done + 1) := by
  rw [Scan.runFrom]
  simp only [isDone, decide_eq_true_eq]

/-- A run that is given batches enough, and is not called off, counts
every extent. -/
theorem CountsUpTo.runFrom {calledOff : Nat → Bool} {batches done : Nat}
    {last : Scan} (h : scan.CountsUpTo extents)
    (hbatches : extents.size - scan.next < batches)
    (hrun : scan.runFrom calledOff extents batches done = some last) :
    last.CountsUpTo extents ∧ last.resolution = scan.resolution ∧
      last.total = scan.total ∧ extents.size ≤ last.next := by
  induction batches generalizing done scan with
  | zero => omega
  | succ batches ih =>
    rw [runFrom_succ] at hrun
    split at hrun
    · cases hrun
    · split at hrun
      · next hdone =>
        obtain rfl := Option.some_inj.1 hrun
        exact ⟨h.step _, resolution_step _, total_step _, hdone⟩
      · next hmore =>
        have hfewer := left_lt_of_step hmore
        have henough : extents.size - (scan.step extents batchSize).next
            < batches := by omega
        have hlast := ih (h.step batchSize) henough hrun
        rwa [resolution_step, total_step] at hlast

/-- A run that nobody calls off comes to an end. -/
theorem isSome_runFrom (extents : Array Extent) (batches done : Nat)
    (scan : Scan) :
    (scan.runFrom (fun _ => false) extents batches done).isSome = true := by
  induction batches generalizing done scan with
  | zero => rfl
  | succ batches ih =>
    rw [runFrom_succ, if_neg Bool.false_ne_true]
    split
    · rfl
    · exact ih _ _

/-- Whatever was counted in whatever batches before, completing a scan
gives the cells of one pass over all extents. -/
theorem CountsUpTo.cells_complete (h : scan.CountsUpTo extents) :
    (scan.complete extents).cells =
      countAll scan.resolution scan.total extents.toList := by
  obtain ⟨last, hrun⟩ := Option.isSome_iff_exists.1
    (isSome_runFrom extents (extents.size - scan.next + 1) 0 scan)
  obtain ⟨hcounts, hresolution, htotal, hdone⟩ :=
    h.runFrom (Nat.lt_succ_self _) hrun
  rw [complete, hrun, Option.getD_some, hcounts.cells_of_done hdone,
    hresolution, htotal]

end Scan

end Overview

end DiskAtlas

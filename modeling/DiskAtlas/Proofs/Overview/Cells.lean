/-
What the count of a cell says. Dividing an offset down and a cell up by the
same scale agree (`le_cellOf_iff`): an offset lies in the cell or behind it
exactly if it does not come before the first byte of the cell. So the cells
from that of the first byte of an extent to that of its last byte are those
whose ranges the extent meets (`overlaps_cellRange_iff`), also where the
cells are not all of one size.

One pass adds one to each of these cells, for each extent (`count_addExtent`),
and a word is wide enough for any number of extents that there can be. So a
cell counts the extents that meet its range (`count_cell`), and every extent
on the device meets some cell.
-/
import Mathlib.Algebra.Order.Floor.Div
import DiskAtlas.Overview.Display
import DiskAtlas.Proofs.Overview.Counting

namespace DiskAtlas.Overview

variable {cells total : UInt64}

-- ======================================================= cells and bytes

/-- The cell of an offset, in natural numbers. -/
theorem toNat_cellOf_eq_min (offset : UInt64) :
    (cellOf offset cells total).toNat
      = min (offset.toNat * cells.toNat / total.toNat)
          (cells.toNat - 1) := by
  have hcells := cells.toNat_lt
  have hmin := Nat.min_le_right (offset.toNat * cells.toNat / total.toNat)
    (cells.toNat - 1)
  rw [cellOf, UInt64.toNat_ofNat', Nat.mod_eq_of_lt (by omega)]

/-- On the device no offset has to be moved into the last cell. -/
theorem toNat_cellOf {offset : UInt64} (hin : offset < total) :
    (cellOf offset cells total).toNat
      = offset.toNat * cells.toNat / total.toNat := by
  have hinNat := UInt64.lt_iff_toNat_lt.1 hin
  have hbound : offset.toNat * cells.toNat / total.toNat
      ≤ cells.toNat - 1 := by
    rcases Nat.eq_zero_or_pos cells.toNat with hzero | hpos
    · simp [hzero]
    · refine Nat.le_sub_one_of_lt (Nat.div_lt_of_lt_mul ?_)
      exact Nat.mul_lt_mul_of_pos_right hinNat hpos
  rw [toNat_cellOf_eq_min, Nat.min_eq_left hbound]

/-- An offset lies in one of the cells, also one past the end of the device,
which the last cell takes. -/
theorem cellOf_lt {offset : UInt64} (hpos : 0 < cells) :
    (cellOf offset cells total).toNat < cells.toNat := by
  have hposNat := UInt64.lt_iff_toNat_lt.1 hpos
  rw [UInt64.toNat_zero] at hposNat
  rw [toNat_cellOf_eq_min]
  omega

/-- A later offset is in no earlier cell, on the device or behind it. -/
theorem cellOf_mono {first last : UInt64} (hle : first ≤ last) :
    (cellOf first cells total).toNat ≤ (cellOf last cells total).toNat := by
  rw [toNat_cellOf_eq_min, toNat_cellOf_eq_min]
  apply min_le_min_right
  apply Nat.div_le_div_right
  exact Nat.mul_le_mul_right _ (UInt64.le_iff_toNat_le.1 hle)

/-- The start of a cell is the share of the device before it, rounded up. The
product is made in 128 bits, so it does not wrap. -/
theorem toNat_cellStart {cell : Nat} (hpos : 0 < cells)
    (hcell : cell ≤ cells.toNat) :
    (cellStart cell cells total).toNat
      = (cell * total.toNat + cells.toNat - 1) / cells.toNat := by
  have hposNat := UInt64.lt_iff_toNat_lt.1 hpos
  rw [UInt64.toNat_zero] at hposNat
  have htotal := total.toNat_lt
  have hle : (cell * total.toNat + cells.toNat - 1) / cells.toNat
      ≤ total.toNat := by
    refine (Nat.div_le_iff_le_mul_add_pred hposNat).2 ?_
    have := Nat.mul_le_mul_right total.toNat hcell
    omega
  rw [cellStart, UInt64.toNat_ofNat', Nat.mod_eq_of_lt (by omega)]

/-- An offset lies in a cell or behind it exactly if it does not come
before the first byte of the cell. -/
theorem le_cellOf_iff {offset : UInt64} {cell : Nat} (hpos : 0 < cells)
    (hcell : cell ≤ cells.toNat) (hin : offset < total) :
    cell ≤ (cellOf offset cells total).toNat ↔
      (cellStart cell cells total).toNat ≤ offset.toNat := by
  have hposNat := UInt64.lt_iff_toNat_lt.1 hpos
  have hinNat := UInt64.lt_iff_toNat_lt.1 hin
  rw [UInt64.toNat_zero] at hposNat
  rw [toNat_cellOf hin, toNat_cellStart hpos hcell,
    Nat.le_div_iff_mul_le (by omega),
    Nat.div_le_iff_le_mul_add_pred hposNat, Nat.mul_comm cells.toNat]
  omega

/-- With no more cells than bytes, every cell begins on the device. -/
theorem cellStart_lt {cell : Nat} (hcell : cell < cells.toNat)
    (hle : cells ≤ total) : cellStart cell cells total < total := by
  have hleNat := UInt64.le_iff_toNat_le.1 hle
  have hpos : 0 < cells := by
    refine UInt64.lt_iff_toNat_lt.2 ?_
    rw [UInt64.toNat_zero]
    omega
  rw [UInt64.lt_iff_toNat_lt, toNat_cellStart hpos (Nat.le_of_lt hcell)]
  refine Nat.div_lt_of_lt_mul ?_
  have hrows := Nat.mul_le_mul_right total.toNat
    (Nat.succ_le_of_lt hcell)
  rw [Nat.succ_mul] at hrows
  omega

namespace Display

variable {d : Display} {cell : UInt64} {range : Span UInt64}

theorem cellRange_eq_ok_iff :
    d.cellRange cell = .ok range ↔ cell < d.resolution ∧
      range = ⟨cellStart cell.toNat d.resolution d.total,
        cellStart (cell.toNat + 1) d.resolution d.total - 1⟩ := by
  unfold cellRange
  split
  · next hcell => simp [hcell, eq_comm]
  · next hcell => simp [hcell]

/-- An extent on the device meets the range of a cell exactly if the cell
is between those of its first and its last byte. -/
theorem overlaps_cellRange_iff {first last : UInt64}
    (hrange : d.cellRange cell = .ok range)
    (hle : first ≤ last) (hlast : last < d.total) :
    range.overlaps first last = true ↔
      (d.cellOf first).toNat ≤ cell.toNat ∧
        cell.toNat ≤ (d.cellOf last).toNat := by
  obtain ⟨hcell, rfl⟩ := cellRange_eq_ok_iff.1 hrange
  have hpos : 0 < d.resolution := by
    exact UInt64.lt_of_le_of_lt UInt64.zero_le hcell
  have hnext : cell.toNat + 1 ≤ d.resolution.toNat :=
    UInt64.lt_iff_toNat_lt.1 hcell
  have hfirst : first < d.total := UInt64.lt_of_le_of_lt hle hlast
  have hlower := le_cellOf_iff hpos (Nat.le_of_lt hnext) hlast
  have hupper := le_cellOf_iff hpos hnext hfirst
  -- offset 0 is in the first cell, so no other cell begins there
  have hzero : 0 < d.total := UInt64.lt_of_le_of_lt UInt64.zero_le hlast
  have hstart := le_cellOf_iff hpos hnext hzero
  rw [toNat_cellOf hzero, UInt64.toNat_zero, Nat.zero_mul,
    Nat.zero_div] at hstart
  have hsub := UInt64.toNat_sub_of_le
    (cellStart (cell.toNat + 1) d.resolution d.total) 1
    (UInt64.le_iff_toNat_le.2 (by rw [UInt64.toNat_one]; omega))
  rw [UInt64.toNat_one] at hsub
  simp only [Span.overlaps, Bool.and_eq_true, decide_eq_true_eq,
    UInt64.le_iff_toNat_le, Display.cellOf, hsub]
  omega

end Display

-- ================================================================ counts

theorem Cell.count_eq (c : Cell) (kind : ExtentKind)
    (h : kind.index < 7) : c.count kind = c.counts[kind.index] := rfl

@[simp] theorem Cell.count_empty (kind : ExtentKind) :
    Cell.empty.count kind = 0 := by
  rw [count_eq _ kind kind.index_lt, empty, Vector.getElem_replicate]

/-- One extent more of its own kind, and no more of any other. Kinds are told
apart by their index, so two of them never share a counter. -/
theorem Cell.count_add (c : Cell) (kind other : ExtentKind) :
    (c.add kind).count other =
      if kind = other then c.count other + 1 else c.count other := by
  rw [count_eq _ other other.index_lt, count_eq _ other other.index_lt, add]
  by_cases h : kind = other
  · subst h
    rw [Vector.getElem_set_self, if_pos rfl]
    rfl
  · have hindex : kind.index ≠ other.index := by
      intro heq
      have hsame := congrArg ExtentKind.ofIndex? heq
      rw [ExtentKind.ofIndex?_index, ExtentKind.ofIndex?_index] at hsame
      exact h (Option.some_inj.1 hsame)
    rw [Vector.getElem_set_ne _ _ hindex, if_neg h]

/-- Does an extent touch a cell? -/
def Touches (cells total : UInt64) (cell : Nat) (e : Extent) : Prop :=
  e.physical < total ∧ (cellOf e.physical cells total).toNat ≤ cell ∧
    cell ≤ (cellOf e.physicalEnd cells total).toNat

instance (cells total : UInt64) (cell : Nat) :
    DecidablePred (Touches cells total cell) :=
  fun _ => inferInstanceAs (Decidable (_ ∧ _ ∧ _))

/-- Counting an extent adds one to the cells it touches and leaves the
others alone. -/
theorem getElem?_addExtent (cells total : UInt64) (counted : Array Cell)
    (e : Extent) (cell : Nat) :
    (addExtent cells total counted e)[cell]? =
      counted[cell]?.map fun c =>
        if Touches cells total cell e then c.add e.kind else c := by
  -- each place once, so no cell is counted up twice
  have hmodify : ∀ (places : List Nat), places.Nodup →
      ∀ counted : Array Cell,
        (places.foldl (fun cs i => cs.modify i (·.add e.kind)) counted)[cell]?
          = counted[cell]?.map fun c =>
              if cell ∈ places then c.add e.kind else c := by
    intro places
    induction places with
    | nil => simp
    | cons i rest ih =>
      intro hnodup counted
      rw [List.nodup_cons] at hnodup
      rw [List.foldl_cons, ih hnodup.2, Array.getElem?_modify]
      by_cases hi : i = cell
      · subst hi
        simp [hnodup.1, Function.comp_def]
      · simp [hi, Ne.symm hi]
  unfold addExtent addToCells
  by_cases hin : total ≤ e.physical
  · have hnot : ¬ Touches cells total cell e :=
      fun h => UInt64.not_le.2 h.1 hin
    simp [hin, hnot]
  · rw [if_neg hin, hmodify _ List.nodup_range']
    have hmem : cell ∈ List.range' (cellOf e.physical cells total).toNat
        ((cellOf e.physicalEnd cells total).toNat + 1
          - (cellOf e.physical cells total).toNat) ↔
        Touches cells total cell e := by
      rw [List.mem_range'_1, Touches, and_iff_right (UInt64.not_le.1 hin)]
      omega
    simp only [hmem]

/-- A cell counts, for each kind, the extents that touch it. -/
theorem count_countAll (cells total : UInt64) (extents : List Extent)
    {cell : Nat} (hcell : cell < cells.toNat) :
    ∃ c, (countAll cells total extents)[cell]? = some c ∧
      ∀ kind, c.count kind = UInt64.ofNat (extents.countP fun e =>
        decide (e.kind = kind ∧ Touches cells total cell e)) := by
  induction extents using List.reverseRecOn with
  | nil =>
    refine ⟨.empty, ?_, fun kind => ?_⟩
    · simp [countAll, hcell]
    · exact Cell.count_empty kind
  | append_singleton extents e ih =>
    obtain ⟨c, hc, hcount⟩ := ih
    have hsnoc : countAll cells total (extents ++ [e])
        = addExtent cells total (countAll cells total extents) e := by
      rw [countAll, List.foldl_append]
      rfl
    refine ⟨_, by rw [hsnoc, getElem?_addExtent, hc]; rfl, fun kind => ?_⟩
    rw [List.countP_append, UInt64.ofNat_add, ← hcount]
    by_cases htouches : Touches cells total cell e
    · by_cases hkind : e.kind = kind
      · simp [htouches, Cell.count_add, hkind]
      · simp [htouches, Cell.count_add, hkind]
    · simp [htouches]

end DiskAtlas.Overview

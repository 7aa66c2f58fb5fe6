/-
The cells of a display cut its device. The first byte of a cell is found by
dividing up, the cell of a byte by dividing down, and both divide by the
same scale; so a byte lies in the range of its cell and in no other, and
the range of a cell ends where the next one begins. With no more cells than
bytes, every cell has a byte (`Display.start_lt_start`), and all ranges
together go from the first byte of the device to the last
(`Display.partitions_ranges`).

All of this is computed in words. A product of two words needs a double
word, and what it is divided down to fits a word again, also for an offset
far behind the device (`Display.exact`).
-/
import Mathlib.Data.List.Range
import DiskAtlas.Proofs.Overview.Cells

namespace DiskAtlas.Overview

variable {cells total : UInt64}

/-- With no more cells than bytes, dividing down leads from no offset to a
cell behind it. -/
theorem scaledDown_le (hle : cells ≤ total) (offset : UInt64) :
    offset.toNat * cells.toNat / total.toNat ≤ offset.toNat := by
  apply Nat.div_le_of_le_mul
  rw [Nat.mul_comm]
  exact Nat.mul_le_mul_right _ (UInt64.le_iff_toNat_le.1 hle)

/-- What lies behind the device is in the last cell. -/
theorem toNat_cellOf_of_le {offset : UInt64} (hpos : 0 < total)
    (hout : total ≤ offset) :
    (cellOf offset cells total).toNat = cells.toNat - 1 := by
  have hposNat := UInt64.lt_iff_toNat_lt.1 hpos
  rw [UInt64.toNat_zero] at hposNat
  have hrow : cells.toNat ≤ offset.toNat * cells.toNat / total.toNat := by
    rw [Nat.le_div_iff_mul_le hposNat, Nat.mul_comm]
    exact Nat.mul_le_mul_right _ (UInt64.le_iff_toNat_le.1 hout)
  rw [toNat_cellOf_eq_min]
  omega

/-- The first byte of a cell, divided up. -/
theorem toNat_cellStart_eq_ceilDiv {cell : Nat} (hpos : 0 < cells)
    (hcell : cell ≤ cells.toNat) :
    (cellStart cell cells total).toNat
      = (cell * total.toNat) ⌈/⌉ cells.toNat := by
  rw [toNat_cellStart hpos hcell, Nat.ceilDiv_eq_add_pred_div]

namespace Display

variable {d : Display}

/-- A display that cuts its device into no more cells than it has bytes,
and into one cell at least. -/
structure Fits (d : Display) : Prop where
  pos : 1 ≤ d.resolution
  le : d.resolution ≤ d.total

/-- The byte ranges of all cells, in order. -/
def ranges (d : Display) : List (Span UInt64) :=
  (List.range d.resolution.toNat).map fun cell =>
    ⟨cellStart cell d.resolution d.total,
      cellStart (cell + 1) d.resolution d.total - 1⟩

/-- The ranges by their index: that of a cell for each cell, and none behind
the last. -/
theorem getElem?_ranges (d : Display) (cell : Nat) :
    d.ranges[cell]? = if cell < d.resolution.toNat then
      some ⟨cellStart cell d.resolution d.total,
        cellStart (cell + 1) d.resolution d.total - 1⟩ else none := by
  rw [ranges, List.getElem?_map]
  split
  · next hcell => rw [List.getElem?_range hcell, Option.map_some]
  · next hcell =>
    rw [List.getElem?_eq_none (by simpa using hcell), Option.map_none]

/-- Ranges that cut a device: each cell has one, every other number is
refused, and the ranges follow one another without a gap from the first
byte to the last. -/
structure Partitions (d : Display) (ranges : List (Span UInt64)) : Prop where
  length_eq : ranges.length = d.resolution.toNat
  cellRange_eq : ∀ cell, d.cellRange cell =
    match ranges[cell.toNat]? with
    | some range => .ok range
    | none => .error (.range (.beyondOverview cell d.resolution))
  first_le_last : ∀ range ∈ ranges, range.first ≤ range.last
  starts : ranges.head?.map (·.first.toNat) = some 0
  follows : ranges.IsChain fun range next =>
    range.last.toNat + 1 = next.first.toNat
  ends : ranges.getLast?.map (·.last.toNat + 1) = some d.total.toNat

/-- Where offsets lie: those on the device in the cell in whose range they
are, all others in the last cell. -/
structure Locates (d : Display) : Prop where
  contains_iff : ∀ offset < d.total, ∀ cell range,
    d.cellRange cell = .ok range →
      (range.contains offset = true ↔ d.cellOf offset = cell)
  behind : ∀ offset, d.total ≤ offset →
    (d.cellOf offset).toNat + 1 = d.resolution.toNat
  mono : ∀ first last, first ≤ last → d.cellOf first ≤ d.cellOf last

/-- Products fit a double word, quotients fit a word, and nothing is taken
from less; so what is computed in words is what the numbers say. -/
structure Exact (d : Display) : Prop where
  cellOf_eq : ∀ offset : UInt64,
    let scaled := offset.toNat * d.resolution.toNat
    scaled < UInt64.size * UInt64.size ∧
      scaled / d.total.toNat ≤ maxWord.toNat ∧
      d.cellOf offset
        = min (.ofNat (scaled / d.total.toNat)) (d.resolution - 1) ∧
      (d.cellOf offset).toNat
        = min (scaled / d.total.toNat) (d.resolution.toNat - 1)
  cellStart_eq : ∀ cell ≤ d.resolution.toNat,
    let scaled := cell * d.total.toNat
    scaled < UInt64.size * UInt64.size ∧
      scaled ⌈/⌉ d.resolution.toNat ≤ maxWord.toNat ∧
      (cellStart cell d.resolution d.total).toNat
        = scaled ⌈/⌉ d.resolution.toNat
  cellRange_eq : ∀ cell range, d.cellRange cell = .ok range →
    range.first.toNat
        = (cell.toNat * d.total.toNat) ⌈/⌉ d.resolution.toNat ∧
      range.last.toNat + 1
        = ((cell.toNat + 1) * d.total.toNat) ⌈/⌉ d.resolution.toNat

namespace Fits

variable (h : d.Fits)

include h

theorem resolution_pos : 0 < d.resolution :=
  UInt64.lt_of_lt_of_le (by decide) h.pos

theorem one_le_toNat : 1 ≤ d.resolution.toNat :=
  UInt64.le_iff_toNat_le.1 h.pos

theorem total_pos : 0 < d.total :=
  UInt64.lt_of_lt_of_le h.resolution_pos h.le

/-- No display has more cells than its device has bytes, so no cell is empty.
-/
theorem toNat_le : d.resolution.toNat ≤ d.total.toNat :=
  UInt64.le_iff_toNat_le.1 h.le

-- ================================================================ ranges

/-- A cell begins before the next one does, or before the end of the
device. -/
theorem start_lt_start {cell : Nat} (hcell : cell < d.resolution.toNat) :
    (cellStart cell d.resolution d.total).toNat
      < (cellStart (cell + 1) d.resolution d.total).toNat := by
  have hpos := h.one_le_toNat
  have hle := h.toNat_le
  rw [toNat_cellStart h.resolution_pos (Nat.le_of_lt hcell),
    toNat_cellStart h.resolution_pos hcell, Nat.succ_mul]
  -- a cell has at least one unit of the scale
  have hunit : (cell * d.total.toNat + d.resolution.toNat - 1
        + d.resolution.toNat) / d.resolution.toNat
      ≤ (cell * d.total.toNat + d.total.toNat + d.resolution.toNat - 1)
        / d.resolution.toNat :=
    Nat.div_le_div_right (by omega)
  rw [Nat.add_div_right _ hpos] at hunit
  exact hunit

/-- The range of a cell ends right before the next one begins. -/
theorem toNat_last {cell : Nat} (hcell : cell < d.resolution.toNat) :
    (cellStart (cell + 1) d.resolution d.total - 1).toNat + 1
      = (cellStart (cell + 1) d.resolution d.total).toNat := by
  have hlt := h.start_lt_start hcell
  rw [UInt64.toNat_sub_of_le _ _ (UInt64.le_iff_toNat_le.2 (by
    rw [UInt64.toNat_one]
    omega)), UInt64.toNat_one]
  omega

theorem first_le_last {cell : UInt64} {range : Span UInt64}
    (hrange : d.cellRange cell = .ok range) : range.first ≤ range.last := by
  obtain ⟨hcell, rfl⟩ := cellRange_eq_ok_iff.1 hrange
  have hcellNat := UInt64.lt_iff_toNat_lt.1 hcell
  have hlt := h.start_lt_start hcellNat
  have hlast := h.toNat_last hcellNat
  rw [UInt64.le_iff_toNat_le]
  dsimp only
  omega

/-- Neighbouring cells meet without a gap, the first begins at zero and the
last ends with the device. -/
theorem partitions_ranges : d.Partitions d.ranges := by
  -- all but the last clause speak of one cell or of two neighbours, and the
  -- last of the end of the last cell, which is the total since `n * t / n = t`
  have hpos := h.one_le_toNat
  constructor
  · simp [ranges]
  · intro cell
    rw [getElem?_ranges, cellRange]
    simp only [UInt64.lt_iff_toNat_lt]
    split <;> rfl
  · intro range hrange
    obtain ⟨cell, hcell, rfl⟩ := List.mem_map.1 hrange
    have hlt := h.start_lt_start (List.mem_range.1 hcell)
    have hlast := h.toNat_last (List.mem_range.1 hcell)
    rw [UInt64.le_iff_toNat_le]
    dsimp only
    omega
  · have hzero : (cellStart 0 d.resolution d.total).toNat = 0 := by
      rw [toNat_cellStart_eq_ceilDiv h.resolution_pos (Nat.zero_le _),
        Nat.zero_mul, zero_ceilDiv]
    rw [List.head?_eq_getElem?, getElem?_ranges,
      if_pos (Nat.lt_of_succ_le hpos), Option.map_some, hzero]
  · rw [ranges, List.isChain_map, List.isChain_range]
    intro cell hcell
    exact h.toNat_last (by omega)
  · have hlast : (cellStart d.resolution.toNat d.resolution d.total).toNat
        = d.total.toNat := by
      rw [toNat_cellStart_eq_ceilDiv h.resolution_pos (Nat.le_refl _),
        ← smul_eq_mul, smul_ceilDiv hpos]
    have hcell : d.resolution.toNat - 1 < d.resolution.toNat := by omega
    have hend := h.toNat_last hcell
    rw [Nat.sub_add_cancel hpos] at hend
    rw [List.getLast?_eq_getElem?, ranges, List.length_map,
      List.length_range, ← ranges, getElem?_ranges, if_pos hcell,
      Option.map_some, Nat.sub_add_cancel hpos, hend, hlast]

-- =============================================================== offsets

/-- A byte of the device lies in the range of its cell and in no other. -/
theorem locates : d.Locates where
  contains_iff := by
    intro offset hin cell range hrange
    have hmeets := overlaps_cellRange_iff hrange (UInt64.le_refl offset) hin
    rw [← UInt64.toNat_inj, Nat.eq_iff_le_and_ge]
    exact hmeets
  behind := by
    intro offset hout
    have hpos := h.one_le_toNat
    rw [Display.cellOf, toNat_cellOf_of_le h.total_pos hout]
    omega
  mono := fun _ _ hle => UInt64.le_iff_toNat_le.2 (cellOf_mono hle)

/-- Offsets and cells in natural numbers: no intermediate product needs more
than 128 bits, and each result is a word. -/
theorem exact : d.Exact where
  cellOf_eq := by
    intro offset scaled
    have hoffset := offset.toNat_lt
    have hcells := d.resolution.toNat_lt
    have hdown := scaledDown_le h.le offset
    have hproduct : scaled < UInt64.size * UInt64.size :=
      Nat.mul_lt_mul'' hoffset hcells
    -- there are no more cells than bytes, so scaling down shrinks the offset
    have hfits : scaled / d.total.toNat ≤ maxWord.toNat :=
      Nat.le_trans hdown (Nat.le_of_lt_succ hoffset)
    refine ⟨hproduct, hfits, ?_, toNat_cellOf_eq_min offset⟩
    rw [← UInt64.toNat_inj, UInt64.toNat_min, Display.cellOf,
      toNat_cellOf_eq_min, UInt64.toNat_ofNat',
      UInt64.toNat_sub_of_le _ _ h.pos, UInt64.toNat_one,
      Nat.mod_eq_of_lt]
    exact Nat.lt_of_le_of_lt hdown hoffset
  cellStart_eq := by
    intro cell hcell scaled
    have hcells := d.resolution.toNat_lt
    have htotal := d.total.toNat_lt
    have hstart : (cellStart cell d.resolution d.total).toNat
        = scaled ⌈/⌉ d.resolution.toNat :=
      toNat_cellStart_eq_ceilDiv h.resolution_pos hcell
    have hword := (cellStart cell d.resolution d.total).toNat_lt
    refine ⟨Nat.mul_lt_mul'' (Nat.lt_of_le_of_lt hcell hcells) htotal,
      ?_, hstart⟩
    rw [← hstart, toNat_maxWord]
    omega
  cellRange_eq := by
    intro cell range hrange
    obtain ⟨hcell, rfl⟩ := cellRange_eq_ok_iff.1 hrange
    have hcellNat := UInt64.lt_iff_toNat_lt.1 hcell
    refine ⟨toNat_cellStart_eq_ceilDiv h.resolution_pos
      (Nat.le_of_lt hcellNat), ?_⟩
    rw [h.toNat_last hcellNat,
      toNat_cellStart_eq_ceilDiv h.resolution_pos hcellNat]

end Fits

/-- However many cells a device is cut into, from one to one for each byte,
their ranges cut it from end to end, each byte lies in the range of its
cell, and no number on the way is too large or too small for its word. -/
theorem cells_partition (hpos : 1 ≤ d.resolution)
    (hle : d.resolution ≤ d.total) :
    (∃ ranges, d.Partitions ranges) ∧ d.Locates ∧ d.Exact := by
  have h : d.Fits := ⟨hpos, hle⟩
  exact ⟨⟨d.ranges, h.partitions_ranges⟩, h.locates, h.exact⟩

/-- The largest device, which has an odd number of bytes, in two cells. -/
theorem cells_partition_largestDevice :
    let d : Display := ⟨2, maxWord, []⟩
    1 ≤ d.resolution ∧ d.resolution ≤ d.total ∧
      d.cellRange 0 = .ok ⟨0, 0x7FFFFFFFFFFFFFFF⟩ ∧
      d.cellRange 1 = .ok ⟨0x8000000000000000, 0xFFFFFFFFFFFFFFFE⟩ ∧
      (∃ ranges, d.Partitions ranges) ∧ d.Locates ∧ d.Exact := by
  intro d
  have hpos : 1 ≤ d.resolution := by decide
  have hle : d.resolution ≤ d.total := by decide
  exact ⟨hpos, hle, by decide, by decide, cells_partition hpos hle⟩

end Display

end DiskAtlas.Overview

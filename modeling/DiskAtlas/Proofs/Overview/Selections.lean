/-
Cells that are selected, and their bytes. A selection is a list of ranges
of cells in any order, and its bytes are given in ranges again. Sorting
puts the range that begins first in front, and joining lets it grow by
every range that begins in it or right behind it. So the ranges that come
out stand apart (`apart_merge`) and have the bytes of those that went in
(`covers_merge`). Ranges that stand apart are known by their bytes
(`Span.Apart.eq_of_covers`), so it makes no difference which of two ranges
with the same first byte is sorted before the other.

A range of cells has a byte exactly if it has the cell of the byte
(`Fits.contains_cellsRange`), and every cell has a byte. So bytes lead back
to cells: the bytes of a selection light the selected cells and no other
(`Fits.standsFor`).
-/
import DiskAtlas.Proofs.Overview.Highlights

namespace DiskAtlas

-- ========================================================== ranges apart

namespace Span

variable {r : Span UInt64} {ranges others : List (Span UInt64)}

/-- Is a value in one of the ranges? -/
def Covers (ranges : List (Span UInt64)) (value : UInt64) : Prop :=
  ∃ r ∈ ranges, r.contains value = true

/-- Ranges in ascending order, with a value at least between one range and
the next. -/
structure Apart (ranges : List (Span UInt64)) : Prop where
  first_le_last : ∀ r ∈ ranges, r.first ≤ r.last
  gap : ranges.Pairwise fun a b => a.last.toNat + 1 < b.first.toNat

theorem contains_iff_toNat {value : UInt64} : r.contains value = true ↔
    r.first.toNat ≤ value.toNat ∧ value.toNat ≤ r.last.toNat := by
  simp [contains, UInt64.le_iff_toNat_le]

theorem covers_cons {value : UInt64} : Covers (r :: ranges) value ↔
    r.contains value = true ∨ Covers ranges value := by
  simp [Covers]

theorem Covers.lt {value bound : UInt64} (h : Covers ranges value)
    (hlast : ∀ r ∈ ranges, r.last < bound) : value < bound := by
  obtain ⟨r, hr, hin⟩ := h
  have hbound := UInt64.lt_iff_toNat_lt.1 (hlast r hr)
  rw [contains_iff_toNat] at hin
  exact UInt64.lt_iff_toNat_lt.2 (by omega)

theorem covers_first (h : r.first ≤ r.last) : Covers (r :: ranges) r.first :=
  covers_cons.2 (Or.inl (by simpa [contains] using h))

namespace Apart

theorem tail (h : Apart (r :: ranges)) : Apart ranges :=
  ⟨fun a ha => h.first_le_last a (List.mem_cons_of_mem _ ha),
    (List.pairwise_cons.1 h.gap).2⟩

/-- What the ranges behind the first one have lies behind a gap. -/
theorem gap_of_covers (h : Apart (r :: ranges)) {value : UInt64}
    (hvalue : Covers ranges value) : r.last.toNat + 1 < value.toNat := by
  obtain ⟨a, ha, hin⟩ := hvalue
  have hgap := (List.pairwise_cons.1 h.gap).1 a ha
  rw [contains_iff_toNat] at hin
  omega

/-- No value comes before the first one. -/
theorem first_le_of_covers (h : Apart (r :: ranges)) {value : UInt64}
    (hvalue : Covers (r :: ranges) value) :
    r.first.toNat ≤ value.toNat := by
  have hle := UInt64.le_iff_toNat_le.1 (h.first_le_last r List.mem_cons_self)
  rcases covers_cons.1 hvalue with hin | hbehind
  · exact (contains_iff_toNat.1 hin).1
  · have hgap := h.gap_of_covers hbehind
    omega

/-- A first range does not end before another one that begins with it and
has no values but those of all. -/
theorem last_le_of_covers {a b : Span UInt64} (ha : Apart (a :: ranges))
    (hfirst : a.first = b.first)
    (hsame : ∀ value, b.contains value = true → Covers (a :: ranges) value) :
    b.last.toNat ≤ a.last.toNat := by
  by_contra hlonger
  have hle := UInt64.le_iff_toNat_le.1 (ha.first_le_last a List.mem_cons_self)
  have hword := b.last.toNat_lt
  -- the value behind the shorter range is in the longer one
  have hnext : (UInt64.ofNat (a.last.toNat + 1)).toNat
      = a.last.toNat + 1 := by
    rw [UInt64.toNat_ofNat', Nat.mod_eq_of_lt (by omega)]
  have hin : b.contains (UInt64.ofNat (a.last.toNat + 1)) = true := by
    rw [contains_iff_toNat, hnext, ← hfirst]
    omega
  rcases covers_cons.1 (hsame _ hin) with h | h
  · rw [contains_iff_toNat, hnext] at h
    omega
  · have hgap := ha.gap_of_covers h
    omega

/-- Ranges that stand apart are known by their values. -/
theorem eq_of_covers (h : Apart ranges) (h' : Apart others)
    (hsame : ∀ value, Covers ranges value ↔ Covers others value) :
    ranges = others := by
  induction ranges generalizing others with
  | nil =>
    cases others with
    | nil => rfl
    | cons b others =>
      have hb : Covers (b :: others) b.first :=
        covers_first (h'.first_le_last b List.mem_cons_self)
      simpa [Covers] using (hsame b.first).2 hb
  | cons a ranges ih =>
    have ha := h.first_le_last a List.mem_cons_self
    cases others with
    | nil => simpa [Covers] using (hsame a.first).1 (covers_first ha)
    | cons b others =>
      have hb := h'.first_le_last b List.mem_cons_self
      have hfirst : a.first = b.first := by
        apply UInt64.toNat_inj.1
        apply Nat.le_antisymm
        · exact h.first_le_of_covers ((hsame _).2 (covers_first hb))
        · exact h'.first_le_of_covers ((hsame _).1 (covers_first ha))
      have hlast : a.last = b.last := by
        apply UInt64.toNat_inj.1
        apply Nat.le_antisymm
        · exact h'.last_le_of_covers hfirst.symm fun value hin =>
            (hsame value).1 (covers_cons.2 (Or.inl hin))
        · exact h.last_le_of_covers hfirst fun value hin =>
            (hsame value).2 (covers_cons.2 (Or.inl hin))
      obtain rfl : a = b := by
        cases a
        cases b
        simp_all
      refine congrArg (a :: ·) (ih h.tail h'.tail fun value => ?_)
      -- behind the gap the two first ranges have no value
      have hbehind : ∀ {value : UInt64}, a.last.toNat + 1 < value.toNat →
          a.contains value ≠ true := by
        intro value hgap hin
        rw [contains_iff_toNat] at hin
        omega
      constructor
      · intro hvalue
        have hcovers := (hsame value).1 (covers_cons.2 (Or.inr hvalue))
        exact (covers_cons.1 hcovers).resolve_left
          (hbehind (h.gap_of_covers hvalue))
      · intro hvalue
        have hcovers := (hsame value).2 (covers_cons.2 (Or.inr hvalue))
        exact (covers_cons.1 hcovers).resolve_left
          (hbehind (h'.gap_of_covers hvalue))

end Apart

end Span

namespace Overview.Display

open DiskAtlas.Span

-- =============================================================== joining

/-- Ranges as they are joined: sorted by their first values. -/
structure Ascending (ranges : List (Span UInt64)) : Prop where
  first_le_last : ∀ r ∈ ranges, r.first ≤ r.last
  sorted : ranges.Pairwise fun a b => a.first ≤ b.first

/-- The sum does not have to be cut off: nothing begins behind the largest
word. -/
theorem joins_iff {held r : Span UInt64} : r.first ≤ satAdd held.last 1 ↔
    r.first.toNat ≤ held.last.toNat + 1 := by
  have hfirst := r.first.toNat_lt
  rw [UInt64.le_iff_toNat_le, toNat_satAdd, toNat_maxWord, UInt64.toNat_one]
  omega

namespace Ascending

variable {held r : Span UInt64} {rest : List (Span UInt64)}

theorem tail (h : Ascending (r :: rest)) : Ascending rest :=
  ⟨fun a ha => h.first_le_last a (List.mem_cons_of_mem _ ha),
    (List.pairwise_cons.1 h.sorted).2⟩

theorem first_le (h : Ascending (held :: r :: rest)) :
    held.first.toNat ≤ r.first.toNat :=
  UInt64.le_iff_toNat_le.1
    ((List.pairwise_cons.1 h.sorted).1 r List.mem_cons_self)

theorem le (h : Ascending (r :: rest)) : r.first.toNat ≤ r.last.toNat :=
  UInt64.le_iff_toNat_le.1 (h.first_le_last r List.mem_cons_self)

/-- A range that has grown stands where it stood. -/
theorem grow (h : Ascending (held :: r :: rest)) :
    Ascending (⟨held.first, max held.last r.last⟩ :: rest) := by
  have hle := h.le
  have hsorted := List.pairwise_cons.1 h.sorted
  constructor
  · intro a ha
    rcases List.mem_cons.1 ha with rfl | ha
    · rw [UInt64.le_iff_toNat_le]
      show held.first.toNat ≤ (max held.last r.last).toNat
      rw [UInt64.toNat_max]
      omega
    · exact h.tail.tail.first_le_last a ha
  · refine List.pairwise_cons.2 ⟨fun a ha => ?_, h.tail.tail.sorted⟩
    exact hsorted.1 a (List.mem_cons_of_mem _ ha)

/-- A range that grows by one that it touches has the values of both. -/
theorem contains_grow (h : Ascending (held :: r :: rest))
    (hjoins : r.first.toNat ≤ held.last.toNat + 1) (value : UInt64) :
    (⟨held.first, max held.last r.last⟩ : Span UInt64).contains value = true
      ↔ held.contains value = true ∨ r.contains value = true := by
  have hfirst := h.first_le
  simp only [contains_iff_toNat, UInt64.toNat_max]
  omega

end Ascending

section Merging

variable {held : Span UInt64} {rest ranges : List (Span UInt64)}

/-- Nothing that is joined begins before the range that is held. -/
theorem first_le_of_mem_mergeFrom (h : Ascending (held :: rest)) :
    ∀ s ∈ mergeFrom held rest, held.first.toNat ≤ s.first.toNat := by
  induction rest generalizing held with
  | nil => simp [mergeFrom]
  | cons r rest ih =>
    intro s hs
    rw [mergeFrom] at hs
    split at hs
    · exact ih h.grow s hs
    · rcases List.mem_cons.1 hs with rfl | hs
      · exact Nat.le_refl _
      · exact Nat.le_trans h.first_le (ih h.tail s hs)

/-- Joined ranges stand apart. -/
theorem apart_mergeFrom (h : Ascending (held :: rest)) :
    Apart (mergeFrom held rest) := by
  induction rest generalizing held with
  | nil => exact ⟨h.first_le_last, List.pairwise_singleton _ _⟩
  | cons r rest ih =>
    rw [mergeFrom]
    split
    · exact ih h.grow
    · next hjoins =>
      rw [joins_iff] at hjoins
      have hrest := ih h.tail
      constructor
      · intro s hs
        rcases List.mem_cons.1 hs with rfl | hs
        · exact h.first_le_last _ List.mem_cons_self
        · exact hrest.first_le_last s hs
      · refine List.pairwise_cons.2 ⟨fun s hs => ?_, hrest.gap⟩
        have hfirst := first_le_of_mem_mergeFrom h.tail s hs
        omega

/-- Joining neither gains nor loses a value. -/
theorem covers_mergeFrom (h : Ascending (held :: rest)) (value : UInt64) :
    Covers (mergeFrom held rest) value ↔ Covers (held :: rest) value := by
  induction rest generalizing held with
  | nil => rfl
  | cons r rest ih =>
    rw [mergeFrom]
    split
    · next hjoins =>
      rw [ih h.grow, covers_cons, h.contains_grow (joins_iff.1 hjoins),
        covers_cons, covers_cons, or_assoc]
    · rw [covers_cons, ih h.tail, ← covers_cons]

/-- Ranges in whatever order are sorted before they are joined. -/
theorem merge_cases (hranges : ∀ r ∈ ranges, r.first ≤ r.last) :
    ∃ sorted, sorted.Perm ranges ∧ Ascending sorted ∧
      merge ranges = match sorted with
        | [] => []
        | held :: rest => mergeFrom held rest := by
  have hperm := List.mergeSort_perm ranges fun a b =>
    decide (a.first ≤ b.first)
  refine ⟨_, hperm, ⟨fun r hr => hranges r (hperm.mem_iff.1 hr), ?_⟩, rfl⟩
  refine (List.pairwise_mergeSort ?_ ?_ ranges).imp of_decide_eq_true
  · intro a b c hab hbc
    exact decide_eq_true (UInt64.le_trans (of_decide_eq_true hab)
      (of_decide_eq_true hbc))
  · intro a b
    simpa using UInt64.le_total a.first b.first

/-- Merged ranges are in order with a gap between any two. Sorting comes first,
so `absorb` meets each range with the one it may touch. -/
theorem apart_merge (hranges : ∀ r ∈ ranges, r.first ≤ r.last) :
    Apart (merge ranges) := by
  obtain ⟨sorted, -, hsorted, hmerge⟩ := merge_cases hranges
  rw [hmerge]
  cases sorted with
  | nil => exact ⟨fun r hr => absurd hr List.not_mem_nil, .nil⟩
  | cons held rest => exact apart_mergeFrom hsorted

/-- Merging covers what was covered and no more: ranges are joined only where
they touch. -/
theorem covers_merge (hranges : ∀ r ∈ ranges, r.first ≤ r.last)
    (value : UInt64) : Covers (merge ranges) value ↔ Covers ranges value := by
  obtain ⟨sorted, hperm, hsorted, hmerge⟩ := merge_cases hranges
  have hsame : Covers sorted value ↔ Covers ranges value := by
    simp only [Covers, hperm.mem_iff]
  rw [hmerge, ← hsame]
  cases sorted with
  | nil => rfl
  | cons held rest => exact covers_mergeFrom hsorted value

end Merging

-- ================================================================ cells

variable {d : Display} {s : Span UInt64} {selection : List (Span UInt64)}
  {cell offset : UInt64}

/-- The bytes of a range of cells, from the first of its first cell to the
last of its last cell. -/
def bytesOf (d : Display) (s : Span UInt64) : Span UInt64 :=
  ⟨cellStart s.first.toNat d.resolution d.total,
    cellStart (s.last.toNat + 1) d.resolution d.total - 1⟩

theorem cellRange_eq_bytesOf (hcell : cell < d.resolution) :
    d.cellRange cell = .ok (d.bytesOf (.single cell)) :=
  cellRange_eq_ok_iff.2 ⟨hcell, rfl⟩

namespace Fits

variable (h : d.Fits)

include h

/-- A later cell begins no earlier, and none begins behind the device. -/
theorem start_le_start {first last : Nat} (hle : first ≤ last)
    (hlast : last ≤ d.resolution.toNat) :
    (cellStart first d.resolution d.total).toNat
        ≤ (cellStart last d.resolution d.total).toNat ∧
      (cellStart last d.resolution d.total).toNat ≤ d.total.toNat := by
  have hpos := h.one_le_toNat
  rw [toNat_cellStart h.resolution_pos (Nat.le_trans hle hlast),
    toNat_cellStart h.resolution_pos hlast]
  constructor
  · have hrows := Nat.mul_le_mul_right d.total.toNat hle
    exact Nat.div_le_div_right (by omega)
  · rw [Nat.div_le_iff_le_mul_add_pred hpos]
    have hrows := Nat.mul_le_mul_right d.total.toNat hlast
    omega

/-- A byte is one of a range of cells exactly if it is on the device and
its cell is in the range. -/
theorem contains_bytesOf (hs : s.first ≤ s.last)
    (hlast : s.last < d.resolution) :
    (d.bytesOf s).contains offset = true ↔
      offset < d.total ∧ s.contains (d.cellOf offset) = true := by
  rw [UInt64.le_iff_toNat_le] at hs
  have hcell : s.last.toNat + 1 ≤ d.resolution.toNat :=
    UInt64.lt_iff_toNat_lt.1 hlast
  have hend := h.toNat_last hcell
  obtain ⟨-, hdevice⟩ := h.start_le_start (Nat.le_refl _) hcell
  rw [contains_iff_toNat, contains_iff_toNat, UInt64.lt_iff_toNat_lt]
  show (cellStart s.first.toNat d.resolution d.total).toNat ≤ offset.toNat ∧
      offset.toNat
        ≤ (cellStart (s.last.toNat + 1) d.resolution d.total - 1).toNat ↔ _
  by_cases hin : offset < d.total
  · have hstart : s.first.toNat ≤ (d.cellOf offset).toNat ↔ _ :=
      le_cellOf_iff h.resolution_pos (by omega) hin
    have hnext : s.last.toNat + 1 ≤ (d.cellOf offset).toNat ↔ _ :=
      le_cellOf_iff h.resolution_pos hcell hin
    rw [UInt64.lt_iff_toNat_lt] at hin
    omega
  · rw [UInt64.lt_iff_toNat_lt] at hin
    omega

/-- An ordered selection of cells has ordered bytes, as no cell is empty. -/
theorem bytesOf_first_le_last (hs : s.first ≤ s.last)
    (hlast : s.last < d.resolution) :
    (d.bytesOf s).first ≤ (d.bytesOf s).last := by
  rw [UInt64.le_iff_toNat_le] at hs ⊢
  have hcell := UInt64.lt_iff_toNat_lt.1 hlast
  have hlt := h.start_lt_start hcell
  have hend := h.toNat_last hcell
  obtain ⟨hle, -⟩ := h.start_le_start hs (Nat.le_of_lt hcell)
  show (cellStart s.first.toNat d.resolution d.total).toNat
    ≤ (cellStart (s.last.toNat + 1) d.resolution d.total - 1).toNat
  omega

/-- The range of a cell has the bytes of the cell. -/
theorem contains_cellRange {range : Span UInt64}
    (hrange : d.cellRange cell = .ok range) :
    range.contains offset = true ↔
      offset < d.total ∧ d.cellOf offset = cell := by
  have hcell := (cellRange_eq_ok_iff.1 hrange).1
  rw [cellRange_eq_bytesOf hcell] at hrange
  obtain rfl := Except.ok.inj hrange
  rw [h.contains_bytesOf (UInt64.le_refl _) hcell, contains_iff_toNat,
    ← UInt64.toNat_inj]
  refine and_congr_right fun _ => ?_
  show cell.toNat ≤ (d.cellOf offset).toNat ∧
    (d.cellOf offset).toNat ≤ cell.toNat ↔ _
  omega

/-- Every cell has a byte. -/
theorem exists_byte (hcell : cell < d.resolution) :
    ∃ offset < d.total, d.cellOf offset = cell := by
  refine ⟨(d.bytesOf (.single cell)).first, ?_⟩
  rw [← h.contains_cellRange (cellRange_eq_bytesOf hcell)]
  have hle := h.bytesOf_first_le_last (s := .single cell)
    (UInt64.le_refl cell) hcell
  simpa [contains] using hle

-- ============================================================ selections

/-- A range of cells is turned into its bytes, unless it reaches a cell
that the overview does not have. -/
theorem cellsRange_cases (hs : s.first ≤ s.last) :
    (s.last < d.resolution ∧ d.cellsRange s = .ok (d.bytesOf s)) ∨
      ∃ cell, s.contains cell = true ∧ d.resolution ≤ cell ∧
        d.cellsRange s
          = .error (.range (.beyondOverview cell d.resolution)) := by
  unfold cellsRange
  by_cases hfirst : s.first < d.resolution
  · by_cases hlast : s.last < d.resolution
    · left
      have hle := h.bytesOf_first_le_last hs hlast
      rw [cellRange_eq_bytesOf hfirst, cellRange_eq_bytesOf hlast]
      refine ⟨hlast, congrArg Except.ok ?_⟩
      exact if_neg (UInt64.not_lt.2 hle)
    · right
      refine ⟨s.last, by simpa [contains] using hs, UInt64.not_lt.1 hlast, ?_⟩
      rw [cellRange_eq_bytesOf hfirst, cellRange, if_neg hlast]
      rfl
  · right
    refine ⟨s.first, by simpa [contains] using hs, UInt64.not_lt.1 hfirst, ?_⟩
    rw [cellRange, if_neg hfirst]
    rfl

/-- The ranges of a selection are turned into their bytes one by one. -/
private theorem mapM_cellsRange_cases
    (hselection : ∀ s ∈ selection, s.first ≤ s.last) :
    ((∀ s ∈ selection, s.last < d.resolution) ∧
        selection.mapM d.cellsRange = .ok (selection.map d.bytesOf)) ∨
      ∃ cell, Covers selection cell ∧ d.resolution ≤ cell ∧
        selection.mapM d.cellsRange
          = .error (.range (.beyondOverview cell d.resolution)) := by
  induction selection with
  | nil => exact Or.inl ⟨by simp, rfl⟩
  | cons s rest ih =>
    obtain ⟨hs, hrest⟩ := List.forall_mem_cons.1 hselection
    rw [List.mapM_cons]
    rcases h.cellsRange_cases hs with ⟨hlast, hbytes⟩ | hfailed
    · rw [hbytes]
      rcases ih hrest with ⟨hlasts, hall⟩ | ⟨cell, hcell, hbeyond, hfailed⟩
      · rw [hall]
        exact Or.inl ⟨List.forall_mem_cons.2 ⟨hlast, hlasts⟩, rfl⟩
      · rw [hfailed]
        exact Or.inr ⟨cell, covers_cons.2 (Or.inr hcell), hbeyond, rfl⟩
    · obtain ⟨cell, hcell, hbeyond, hfailed⟩ := hfailed
      rw [hfailed]
      exact Or.inr ⟨cell, covers_cons.2 (Or.inl hcell), hbeyond, rfl⟩

/-- A selection is turned into its bytes, unless it reaches a cell that the
overview does not have. -/
theorem cellsToRanges_cases (hselection : ∀ s ∈ selection, s.first ≤ s.last) :
    ((∀ s ∈ selection, s.last < d.resolution) ∧
        d.cellsToRanges selection = .ok (merge (selection.map d.bytesOf))) ∨
      ∃ cell, Covers selection cell ∧ d.resolution ≤ cell ∧
        d.cellsToRanges selection
          = .error (.range (.beyondOverview cell d.resolution)) := by
  unfold cellsToRanges
  rcases h.mapM_cellsRange_cases hselection with
    ⟨hlasts, hall⟩ | ⟨cell, hcell, hbeyond, hfailed⟩
  · rw [hall]
    exact Or.inl ⟨hlasts, rfl⟩
  · rw [hfailed]
    exact Or.inr ⟨cell, hcell, hbeyond, rfl⟩

/-- The bytes of a selection are those on the device whose cells are
selected. -/
theorem covers_bytes (hselection : ∀ s ∈ selection, s.first ≤ s.last)
    (hlasts : ∀ s ∈ selection, s.last < d.resolution) :
    Covers (selection.map d.bytesOf) offset ↔
      offset < d.total ∧ Covers selection (d.cellOf offset) := by
  constructor
  · rintro ⟨r, hr, hin⟩
    obtain ⟨s, hs, rfl⟩ := List.mem_map.1 hr
    obtain ⟨hdevice, hcell⟩ :=
      (h.contains_bytesOf (hselection s hs) (hlasts s hs)).1 hin
    exact ⟨hdevice, s, hs, hcell⟩
  · rintro ⟨hdevice, s, hs, hcell⟩
    refine ⟨_, List.mem_map_of_mem hs, ?_⟩
    exact (h.contains_bytesOf (hselection s hs) (hlasts s hs)).2
      ⟨hdevice, hcell⟩

end Fits

-- ================================================================ bytes

/-- Byte ranges that are another way to say which cells are selected. -/
structure StandsFor (d : Display) (selection ranges : List (Span UInt64)) :
    Prop where
  apart : Apart ranges
  /-- The bytes are those of the selected cells, all of them and no other. -/
  covers_iff : ∀ offset, Covers ranges offset ↔
    ∃ cell, Covers selection cell ∧
      ∃ range, d.cellRange cell = .ok range ∧ range.contains offset = true
  length_mask : (d.highlight ranges).mask.length = d.resolution.toNat
  /-- Highlighted, they light the selected cells, all of them and no
  other. -/
  lit_iff : ∀ cell < d.resolution,
    (d.highlight ranges).mask[cell.toNat]? = some true ↔ Covers selection cell

/-- The merged bytes of a selection stand for it: they cover the bytes of its
cells and no others. -/
theorem Fits.standsFor (h : d.Fits)
    (hselection : ∀ s ∈ selection, s.first ≤ s.last)
    (hlasts : ∀ s ∈ selection, s.last < d.resolution) :
    d.StandsFor selection (merge (selection.map d.bytesOf)) := by
  have hordered : ∀ r ∈ selection.map d.bytesOf, r.first ≤ r.last := by
    intro r hr
    obtain ⟨s, hs, rfl⟩ := List.mem_map.1 hr
    exact h.bytesOf_first_le_last (hselection s hs) (hlasts s hs)
  have hbytes : ∀ offset, Covers (merge (selection.map d.bytesOf)) offset ↔
      offset < d.total ∧ Covers selection (d.cellOf offset) := by
    intro offset
    rw [covers_merge hordered, h.covers_bytes hselection hlasts]
  have hapart := apart_merge hordered
  have hfits : (d.highlight (merge (selection.map d.bytesOf))).Fits :=
    ⟨h.pos, h.le⟩
  have hlights := hfits.lights hapart.first_le_last
  refine ⟨hapart, fun offset => ?_, hlights.length_eq, fun cell hcell => ?_⟩
  · rw [hbytes]
    constructor
    · rintro ⟨hdevice, hcell⟩
      have hrange := cellRange_eq_bytesOf (hcell.lt hlasts)
      exact ⟨_, hcell, _, hrange,
        (h.contains_cellRange hrange).2 ⟨hdevice, rfl⟩⟩
    · rintro ⟨cell, hcell, range, hrange, hoffset⟩
      obtain ⟨hdevice, rfl⟩ := (h.contains_cellRange hrange).1 hoffset
      exact ⟨hdevice, hcell⟩
  · obtain ⟨range, hrange, hlit⟩ := hlights.lit_iff cell hcell
    have hown : ∀ {offset}, range.contains offset = true ↔
        offset < d.total ∧ d.cellOf offset = cell :=
      h.contains_cellRange hrange
    rw [hlit]
    constructor
    · rintro ⟨r, hr, offset, -, hoffset, hinCell⟩
      obtain ⟨-, hcovers⟩ := (hbytes offset).1 ⟨r, hr, hoffset⟩
      rwa [(hown.1 hinCell).2] at hcovers
    · intro hcovers
      -- a byte of the cell tells of it
      obtain ⟨offset, hdevice, rfl⟩ := h.exists_byte hcell
      obtain ⟨r, hr, hoffset⟩ := (hbytes offset).2 ⟨hdevice, hcovers⟩
      exact ⟨r, hr, offset, hdevice, hoffset, hown.2 ⟨hdevice, rfl⟩⟩

/-- Ranges that stand for the same cells are the same ranges. -/
theorem StandsFor.eq {others ranges ranges' : List (Span UInt64)}
    (h : d.StandsFor selection ranges) (h' : d.StandsFor others ranges')
    (hsame : ∀ cell, Covers others cell ↔ Covers selection cell) :
    ranges' = ranges := by
  refine h'.apart.eq_of_covers h.apart fun offset => ?_
  rw [h.covers_iff, h'.covers_iff]
  simp only [hsame]

/-- A selection of cells that there are has byte ranges. -/
theorem Fits.exists_ranges (h : d.Fits)
    (hselection : ∀ s ∈ selection, s.first ≤ s.last)
    (hin : ∀ cell, Covers selection cell → cell < d.resolution) :
    ∃ ranges, d.cellsToRanges selection = .ok ranges ∧
      d.StandsFor selection ranges := by
  rcases h.cellsToRanges_cases hselection with
    ⟨hlasts, hranges⟩ | ⟨cell, hcell, hbeyond, -⟩
  · exact ⟨_, hranges, h.standsFor hselection hlasts⟩
  · exact absurd (hin cell hcell) (UInt64.not_lt.2 hbeyond)

/-- However a display was used, a selection of cells is refused exactly if
it reaches a cell that there is not. Any other selection has byte ranges
that stand for it, and selections of the same cells have the same ones. -/
theorem cells_inverted {cells total : UInt64} {made : Display}
    (hmake : make cells total = .ok made) (acts : List Act)
    (hselection : ∀ s ∈ selection, s.first ≤ s.last) :
    let d := made.run acts
    ((∃ e, d.cellsToRanges selection = .error (.range e)) ↔
      ∃ cell, Covers selection cell ∧ d.resolution ≤ cell) ∧
    ((∀ cell, Covers selection cell → cell < d.resolution) →
      ∃ ranges, d.cellsToRanges selection = .ok ranges ∧
        d.StandsFor selection ranges ∧
        ∀ others, (∀ s ∈ others, s.first ≤ s.last) →
          (∀ cell, Covers others cell ↔ Covers selection cell) →
          d.cellsToRanges others = .ok ranges) := by
  intro d
  have h : d.Fits := (proper_of_make hmake).2.toFits.run acts
  refine ⟨⟨?_, ?_⟩, ?_⟩
  · rintro ⟨e, hrefused⟩
    by_contra hnone
    have hin : ∀ cell, Covers selection cell → cell < d.resolution :=
      fun cell hcell => UInt64.not_le.1 fun hbeyond =>
        hnone ⟨cell, hcell, hbeyond⟩
    obtain ⟨ranges, hranges, -⟩ := h.exists_ranges hselection hin
    rw [hranges] at hrefused
    cases hrefused
  · rintro ⟨cell, hcell, hbeyond⟩
    rcases h.cellsToRanges_cases hselection with
      ⟨hlasts, -⟩ | ⟨other, -, -, hrefused⟩
    · exact absurd (hcell.lt hlasts) (UInt64.not_lt.2 hbeyond)
    · exact ⟨_, hrefused⟩
  · intro hin
    obtain ⟨ranges, hranges, hstands⟩ := h.exists_ranges hselection hin
    refine ⟨ranges, hranges, hstands, fun others hothers hsame => ?_⟩
    obtain ⟨ranges', hranges', hstands'⟩ := h.exists_ranges hothers
      fun cell hcell => hin cell ((hsame cell).1 hcell)
    rw [hranges', hstands.eq hstands' hsame]

/-- Ten bytes in three cells, the last of which is selected twice and out
of order. -/
theorem cells_inverted_tenBytes :
    let d : Display := ⟨3, 10, []⟩
    let selection : List (Span UInt64) := [⟨2, 2⟩, ⟨0, 0⟩, ⟨2, 2⟩]
    make 3 10 = .ok d ∧ (∀ s ∈ selection, s.first ≤ s.last) ∧
      d.cellsToRanges selection = .ok [⟨0, 3⟩, ⟨7, 9⟩] ∧
      d.StandsFor selection [⟨0, 3⟩, ⟨7, 9⟩] := by
  intro d selection
  have hmake : make 3 10 = .ok d := by rfl
  have hselection : ∀ s ∈ selection, s.first ≤ s.last := by decide
  have hin : ∀ cell, Covers selection cell → cell < d.resolution :=
    fun cell hcell => hcell.lt (by decide)
  have hranges : d.cellsToRanges selection = .ok [⟨0, 3⟩, ⟨7, 9⟩] := by
    have hfirst : d.cellRange 0 = .ok ⟨0, 3⟩ := by
      simp [d, cellRange, cellStart]
    have hlast : d.cellRange 2 = .ok ⟨7, 9⟩ := by
      simp [d, cellRange, cellStart]
    have hbytes : selection.mapM d.cellsRange
        = .ok [⟨7, 9⟩, ⟨0, 3⟩, ⟨7, 9⟩] := by
      simp only [selection, List.mapM_cons, List.mapM_nil, cellsRange,
        hfirst, hlast]
      rfl
    have hsorted : [(⟨7, 9⟩ : Span UInt64), ⟨0, 3⟩, ⟨7, 9⟩].mergeSort
        (fun a b => decide (a.first ≤ b.first))
          = [⟨0, 3⟩, ⟨7, 9⟩, ⟨7, 9⟩] := by
      simp [List.mergeSort, List.MergeSort.Internal.splitInTwo]
    rw [cellsToRanges, hbytes]
    show Except.ok (merge _) = _
    rw [merge, hsorted]
    rfl
  obtain ⟨ranges, heq, hstands, -⟩ :=
    (cells_inverted hmake [] hselection).2 hin
  obtain rfl := Except.ok.inj (heq.symm.trans hranges)
  exact ⟨hmake, hselection, hranges, hstands⟩

end Overview.Display

end DiskAtlas

/-
The rows that a scan leaves. What is asked of each row before it is put in
is true of all of them at any time (`Tables.Ingested`), and every extent
that was offered is either a row or counted as left out (`Fills.offered`).
Because no row ends past the largest offset, the device that is said to
hold them at the end is just as large as the rows and the facts ask for
(`isGreatest_raiseTotal`), and every row ends on it.

The checks before an insertion make these facts, and no later step takes them
away: a row is replaced, if at all, by one that was checked as well.
-/
import Mathlib.Order.Bounds.Basic
import DiskAtlas.Proofs.Store.Filling

namespace DiskAtlas

-- ================================================================= tables

/-- Tables as a scan fills them: their rows are as they are put in, and
their paths name inodes that there are. -/
structure Tables.Ingested (separator : Char) (t : Tables) : Prop where
  stored : ∀ e ∈ t.extents, e.Stored
  keys : ∀ path ino, t.paths.get? path = some ino →
    IsPathKey separator path
  named : ∀ path ino, t.paths.get? path = some ino →
    ∃ row, t.inodes.get? ino = some row

namespace Tables.Ingested

variable {separator : Char} {t : Tables}

/-- The tables of a scan that has just begun have no rows. -/
theorem of_empty (summary : Option Summary) :
    Ingested separator { Tables.empty with summary } := by
  refine ⟨?_, ?_, ?_⟩
  · intro e he
    exact absurd he (Array.not_mem_empty e)
  · intro path ino hpath
    cases hpath
  · intro path ino hpath
    cases hpath

/-- Putting in an inode, under a path that may name it. -/
theorem insert (h : t.Ingested separator) (row : Inode) {path : String}
    (hgood : IsPathKey separator path) :
    Ingested separator
      { t with inodes := t.inodes.insert row.ino row
               paths := t.paths.insert path row.ino } := by
  -- the path is the new one, or was there before
  have hpaths : ∀ p ino,
      (t.paths.insert path row.ino).get? p = some ino →
        (p = path ∧ ino = row.ino) ∨ t.paths.get? p = some ino := by
    intro p ino hp
    by_cases hpath : path = p
    · subst hpath
      rw [SortedMap.get?_insert_self] at hp
      exact Or.inl ⟨rfl, (Option.some_inj.1 hp).symm⟩
    · rw [SortedMap.get?_insert_of_ne _ _ hpath] at hp
      exact Or.inr hp
  refine ⟨h.stored, ?_, ?_⟩
  · intro p ino hp
    rcases hpaths p ino hp with ⟨rfl, -⟩ | hold
    · exact hgood
    · exact h.keys p ino hold
  · intro p ino hp
    show ∃ found, (t.inodes.insert row.ino row).get? ino = some found
    by_cases hino : row.ino = ino
    · subst hino
      exact ⟨row, SortedMap.get?_insert_self _ _ _⟩
    · rw [SortedMap.get?_insert_of_ne _ _ hino]
      rcases hpaths p ino hp with ⟨-, hnew⟩ | hold
      · exact absurd hnew.symm hino
      · exact h.named p ino hold

/-- Putting in an extent that is settled and fits. -/
theorem push (h : t.Ingested separator) {e : Extent} (he : e.Stored) :
    Ingested separator { t with extents := t.extents.push e } := by
  refine ⟨?_, h.keys, h.named⟩
  intro row hrow
  rcases Array.mem_push.1 hrow with hold | rfl
  · exact h.stored row hold
  · exact he

end Tables.Ingested

-- ================================================================ filling

namespace Session

variable {β : Type} {x y : Session β} {n : Nat}

theorem Fills.separator_eq (h : x.Fills n y) :
    y.separator = x.separator := by
  unfold separator summary
  rw [h.summary_eq]

/-- However a session is filled, its tables stay as a scan fills them. -/
theorem Fills.ingested (h : x.Fills n y)
    (hx : x.store.tables.Ingested x.separator) :
    y.store.tables.Ingested x.separator := by
  induction h with
  | refl => exact hx
  | directory _ parent names ih => exact ⟨ih.stored, ih.keys, ih.named⟩
  | @inode y n before row path good ih =>
    rw [before.separator_eq] at good
    exact ih.insert row good
  | push _ stored ih => exact ih.push stored
  | discard _ ih => exact ih

/-- Every extent that is offered is put in or counted as left out. -/
theorem Fills.offered (h : x.Fills n y) :
    y.extentCount + y.discarded = x.extentCount + x.discarded + n := by
  induction h with
  | refl => rfl
  | directory _ parent names ih => exact ih
  | inode _ row _ ih => exact ih
  | @push y n _ row _ ih =>
    show (y.store.tables.extents.push row).size + y.discarded = _
    rw [Array.size_push, Nat.add_right_comm, ← Nat.add_assoc, ← ih]
    rfl
  | @discard y n _ ih =>
    show y.extentCount + (y.discarded + 1) = _
    rw [← Nat.add_assoc, ← Nat.add_assoc, ih]

end Session

-- ============================================================= the device

namespace Extent

variable {e : Extent}

/-- Nothing stops at the largest offset where a row ends within it. -/
theorem Fits.toNat_physicalEnd (h : e.Fits) :
    e.physicalEnd.toNat + 1 = e.physical.toNat + e.length.toNat := by
  have hone : (1 : UInt64).toNat = 1 := rfl
  have hnonempty := h.nonempty
  have hphysical := h.physical
  rw [physicalEnd, lastByte, toNat_satSub, toNat_satAdd, hone]
  omega

theorem Fits.physical_le_physicalEnd (h : e.Fits) :
    e.physical ≤ e.physicalEnd := by
  have hend := h.toNat_physicalEnd
  have hnonempty := h.nonempty
  rw [UInt64.le_iff_toNat_le]
  omega

end Extent

instance lawfulOrderMax : Std.LawfulOrderMax UInt64 := by
  refine .of_max_le_iff (fun a b c => ?_) (fun a b => ?_)
  · show (if a ≤ b then b else a) ≤ c ↔ _
    split
    · next hab => exact ⟨fun h => ⟨UInt64.le_trans hab h, h⟩, And.right⟩
    · next hab =>
      have hba := UInt64.le_of_lt (UInt64.not_le.1 hab)
      exact ⟨fun h => ⟨h, UInt64.le_trans hba h⟩, And.left⟩
  · show (if a ≤ b then b else a) = a ∨ (if a ≤ b then b else a) = b
    split
    · exact Or.inr rfl
    · exact Or.inl rfl

/-- The sizes that a device must not fall below: one that is given, and
for each extent the first byte after it. -/
def deviceSizes (given : UInt64) (extents : Array Extent) : Set Nat :=
  insert given.toNat
    {n | ∃ e ∈ extents, e.physical.toNat + e.length.toNat = n}

namespace Session

variable {extents : Array Extent}

/-- The last byte that an extent holds is the last byte of one, and no
extent ends later. -/
theorem maxEnd_eq_some {last : UInt64} (h : maxEnd extents = some last) :
    (∃ e ∈ extents, e.physicalEnd = last) ∧
      ∀ e ∈ extents, e.physicalEnd ≤ last := by
  obtain ⟨hmem, hle⟩ := List.max?_eq_some_iff.1 h
  constructor
  · simpa using hmem
  · intro e he
    exact hle _ (List.mem_map_of_mem (Array.mem_toList_iff.2 he))

/-- The device is made as large as it has to be and no larger. -/
theorem isGreatest_raiseTotal (summary : Summary)
    (hfits : ∀ e ∈ extents, e.Fits) :
    IsGreatest (deviceSizes summary.totalBytes extents)
      (raiseTotal summary extents).totalBytes.toNat := by
  unfold raiseTotal
  cases hmax : maxEnd extents with
  | none =>
    have hnone : extents.toList = [] :=
      List.map_eq_nil_iff.1 (List.max?_eq_none_iff.1 hmax)
    refine ⟨Set.mem_insert _ _, ?_⟩
    rintro n (rfl | ⟨e, he, -⟩)
    · exact Nat.le_refl _
    · rw [← Array.mem_toList_iff, hnone] at he
      cases he
  | some last =>
    obtain ⟨⟨e, he, rfl⟩, hle⟩ := maxEnd_eq_some hmax
    have hend := (hfits e he).toNat_physicalEnd
    -- every extent ends where the last one does, or before
    have hall : ∀ e' ∈ extents,
        e'.physical.toNat + e'.length.toNat ≤ e.physicalEnd.toNat + 1 := by
      intro e' he'
      have hend' := (hfits e' he').toNat_physicalEnd
      have hle' := UInt64.le_iff_toNat_le.1 (hle e' he')
      omega
    dsimp only
    split
    · next hraised =>
      have htotal : (satAdd e.physicalEnd 1).toNat
          = e.physical.toNat + e.length.toNat := by
        have hone : (1 : UInt64).toNat = 1 := rfl
        have hphysical := (hfits e he).physical
        rw [toNat_satAdd, hone]
        omega
      rw [UInt64.le_iff_toNat_le] at hraised
      rw [htotal]
      refine ⟨Or.inr ⟨e, he, rfl⟩, ?_⟩
      rintro n (rfl | ⟨e', he', rfl⟩)
      · omega
      · have := hall e' he'
        omega
    · next hlarge =>
      rw [UInt64.not_le, UInt64.lt_iff_toNat_lt] at hlarge
      refine ⟨Or.inl rfl, ?_⟩
      rintro n (rfl | ⟨e', he', rfl⟩)
      · exact Nat.le_refl _
      · have := hall e' he'
        omega

end Session

/-- On a device that is large enough every extent ends. -/
theorem physicalEnd_lt_of_isGreatest {given total : UInt64}
    {extents : Array Extent} {e : Extent}
    (htotal : IsGreatest (deviceSizes given extents) total.toNat)
    (he : e ∈ extents) (hfits : e.Fits) : e.physicalEnd < total := by
  have hle := htotal.2 (Or.inr ⟨e, he, rfl⟩)
  have hend := hfits.toNat_physicalEnd
  rw [UInt64.lt_iff_toNat_lt]
  omega

end DiskAtlas

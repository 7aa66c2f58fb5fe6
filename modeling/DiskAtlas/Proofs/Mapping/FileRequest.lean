/-
What a request for the extents of a file keeps of what is written into it.
Fields that share no byte do not disturb each other, so a request that was
prepared is the request that is read back, and the extents that an answer
writes one after the other are the extents that are read from it.

A request is a run of bytes, and the lemmas about runs of bytes say when a
word that is read is the word that was written: at one offset it is, and at
offsets that share no byte the one does not see the other. Here only the
offsets are compared, so a field that moves is a number to change and no
proof.
-/
import DiskAtlas.Proofs.Mapping.Slots
import DiskAtlas.Mapping.FileRequest

namespace DiskAtlas

namespace Bytes

/-- What is read back from the four bytes of a word is the word: the digits of
`getWord_putWord` are those of a number below `256 ^ 4`. -/
theorem ofNat_toNat_mod_u32 (value : UInt32) :
    UInt32.ofNat (value.toNat % Nat.pow 256 4) = value := by
  have hvalue : value.toNat % Nat.pow 256 4 = value.toNat :=
    Nat.mod_eq_of_lt value.toNat_lt
  rw [hvalue, UInt32.ofNat_toNat]

/-- The same for the eight bytes of a long word. -/
theorem ofNat_toNat_mod_u64 (value : UInt64) :
    UInt64.ofNat (value.toNat % Nat.pow 256 8) = value := by
  have hvalue : value.toNat % Nat.pow 256 8 = value.toNat :=
    Nat.mod_eq_of_lt value.toNat_lt
  rw [hvalue, UInt64.ofNat_toNat]

end Bytes

namespace Mapping.FileBuffer

open Bytes FileRequest

variable {capacity : Nat}

-- ================================================================ header

/-- Preparing writes the three words of a request and how many records fit,
each at its own offset, and each is read from where it was written. -/
theorem request_prepare (r : FileRequest) :
    (prepare capacity r).request = r := by
  simp (disch := omega) only [request, prepare, getU64, getU32, putU64,
    putU32, getWord_putWord_of_disjoint, getWord_putWord,
    ofNat_toNat_mod_u64, ofNat_toNat_mod_u32]

theorem claimed_setClaimed (b : FileBuffer capacity) (count : UInt32) :
    (b.setClaimed count).claimed = count := by
  simp only [claimed, setClaimed, getU32, putU32, getWord_putWord,
    ofNat_toNat_mod_u32]

/-- A claim is written into the header, before the first slot, and leaves every
slot as it was. -/
theorem extent_setClaimed (b : FileBuffer capacity) (count : UInt32)
    (slot : Fin capacity) :
    (b.setClaimed count).extent slot = b.extent slot := by
  have hslot : 32 ≤ slotOffset slot := Nat.le_add_right ..
  simp (disch := omega) only [extent, setClaimed, getU64, getU32, putU32,
    getWord_putWord_of_disjoint]

-- =============================================================== extents

/-- A slot holds the extent that was written into it. Its words lie at offsets
0, 8, 16 and 40, apart from each other; the bytes between are reserved and
never read. -/
theorem extent_setExtent (b : FileBuffer capacity) (slot : Fin capacity)
    (e : RawExtent) : (b.setExtent slot e).extent slot = e := by
  simp (disch := omega) only [extent, setExtent, getU64, getU32, putU64,
    putU32, getWord_putWord_of_disjoint, getWord_putWord,
    ofNat_toNat_mod_u64, ofNat_toNat_mod_u32]

/-- Writing one slot leaves the others as they were, since slots are a whole
extent apart. -/
theorem extent_setExtent_of_ne (b : FileBuffer capacity)
    {slot other : Fin capacity} (h : other ≠ slot) (e : RawExtent) :
    (b.setExtent slot e).extent other = b.extent other := by
  have hapart : slotOffset other + 56 ≤ slotOffset slot ∨
      slotOffset slot + 56 ≤ slotOffset other := by
    rcases Nat.lt_or_gt_of_ne (Fin.val_ne_of_ne h) with hlt | hlt
    · exact .inl (slot_apart headerSize extentSize hlt)
    · exact .inr (slot_apart headerSize extentSize hlt)
  simp (disch := omega) only [extent, setExtent, getU64, getU32, putU64,
    putU32, getWord_putWord_of_disjoint]

/-- Filling a request is setting its slots one after the other, which is what
`Slots` is about. -/
theorem fill_eq (rows : List RawExtent) :
    ∀ (b : FileBuffer capacity) (slot : Nat),
      b.fill slot rows = fillSlots setExtent b slot rows := by
  induction rows with
  | nil => exact fun _ _ => rfl
  | cons e rest ih =>
    intro b slot
    simp only [fill, fillSlots, ih]

/-- An answer that writes rows and says how many holds these rows. -/
theorem answered_fill (b : FileBuffer capacity) {rows : List RawExtent}
    (hroom : rows.length ≤ capacity) (hcount : rows.length < UInt32.size) :
    ((b.fill 0 rows).setClaimed (UInt32.ofNat rows.length)).answered
      = rows := by
  have hclaimed : (UInt32.ofNat rows.length).toNat = rows.length := by
    rw [UInt32.toNat_ofNat', Nat.mod_eq_of_lt hcount]
  have hextents : ∀ b : FileBuffer capacity, (b.setClaimed
      (UInt32.ofNat rows.length)).extents = List.ofFn b.extent := by
    intro b
    simp only [extents, extent_setClaimed]
  rw [answered, claimed_setClaimed, hclaimed, hextents, fill_eq]
  exact take_fillSlots extent_setExtent
    (fun b _ e _ hne => extent_setExtent_of_ne b hne e) b hroom

end Mapping.FileBuffer

end DiskAtlas

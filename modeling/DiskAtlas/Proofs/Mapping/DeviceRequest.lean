/-
What a request for the owners of a device keeps of what is written into it.
A record is read back as it was written, with every bit of its flags, and
records that share no byte do not disturb each other. So the low key of a
request is the record it was prepared with, and the records that an answer
writes are the records that are read from it.

The two keys of a request and its slots have one shape, so a record is read
from its bytes by one lemma wherever it stands. What is left are distances
between offsets.
-/
import DiskAtlas.Proofs.Mapping.FileRequest
import DiskAtlas.Mapping.DeviceRequest

namespace DiskAtlas.Mapping

open Bytes DeviceRequest

-- ============================================================ one record

section Record

variable {n : Nat} (bytes : Vector UInt8 n)

/-- A record is read as it was written. -/
theorem getRecord_putRecord (offset : Nat) (r : DeviceRecord)
    (h : offset + recordSize ≤ n) :
    getRecord (putRecord bytes offset r h) offset h = r := by
  simp (disch := omega) only [getRecord, putRecord, getU64, getU32, putU64,
    putU32, getWord_putWord_of_disjoint, getWord_putWord,
    ofNat_toNat_mod_u64, ofNat_toNat_mod_u32]

/-- A record that shares no byte with the written one stays as it was. -/
theorem getRecord_putRecord_of_disjoint (offset other : Nat)
    (r : DeviceRecord) (h : offset + recordSize ≤ n)
    (hother : other + recordSize ≤ n)
    (hd : other + recordSize ≤ offset ∨ offset + recordSize ≤ other) :
    getRecord (putRecord bytes offset r h) other hother
      = getRecord bytes other hother := by
  have hd : other + 64 ≤ offset ∨ offset + 64 ≤ other := hd
  simp (disch := omega) only [getRecord, putRecord, getU64, getU32, putU64,
    putU32, getWord_putWord_of_disjoint]

/-- A count written into the head leaves the records as they were. -/
theorem getRecord_putU32_of_disjoint (offset other : Nat) (value : UInt32)
    (h : offset + 4 ≤ n) (hother : other + recordSize ≤ n)
    (hd : offset + 4 ≤ other) :
    getRecord (putU32 bytes offset value h) other hother
      = getRecord bytes other hother := by
  simp (disch := omega) only [getRecord, getU64, getU32, putU32,
    getWord_putWord_of_disjoint]

end Record

namespace DeviceBuffer

variable {capacity : Nat}

-- ================================================================== head

/-- The low key of a request is the record that it was prepared with. -/
theorem lowKey_prepare (low high : DeviceRecord) :
    (prepare capacity low high).lowKey = low := by
  unfold lowKey prepare
  rw [getRecord_putRecord_of_disjoint _ _ _ _ _ _ (.inl (Nat.le_refl _)),
    getRecord_putRecord]

theorem claimed_setClaimed (b : DeviceBuffer capacity) (count : UInt32) :
    (b.setClaimed count).claimed = count := by
  simp only [claimed, setClaimed, getU32, putU32, getWord_putWord,
    ofNat_toNat_mod_u32]

theorem record_setClaimed (b : DeviceBuffer capacity) (count : UInt32)
    (slot : Fin capacity) :
    (b.setClaimed count).record slot = b.record slot := by
  have hslot : headSize ≤ slotOffset slot := Nat.le_add_right ..
  exact getRecord_putU32_of_disjoint b.bytes _ _ count
    (head_le (by decide)) (slot_le slot) (Nat.le_trans (by decide) hslot)

-- =============================================================== records

theorem record_setRecord (b : DeviceBuffer capacity) (slot : Fin capacity)
    (r : DeviceRecord) : (b.setRecord slot r).record slot = r :=
  getRecord_putRecord ..

/-- Writing one slot leaves the others as they were: two slots share no byte.
-/
theorem record_setRecord_of_ne (b : DeviceBuffer capacity)
    {slot other : Fin capacity} (h : other ≠ slot) (r : DeviceRecord) :
    (b.setRecord slot r).record other = b.record other := by
  have hapart : slotOffset other + recordSize ≤ slotOffset slot ∨
      slotOffset slot + recordSize ≤ slotOffset other := by
    rcases Nat.lt_or_gt_of_ne (Fin.val_ne_of_ne h) with hlt | hlt
    · exact .inl (slot_apart headSize recordSize hlt)
    · exact .inr (slot_apart headSize recordSize hlt)
  exact getRecord_putRecord_of_disjoint b.bytes _ _ r (slot_le slot)
    (slot_le other) hapart

/-- Filling a buffer is setting its slots one after the other, so the lemmas
about slots apply. -/
theorem fill_eq (rows : List DeviceRecord) :
    ∀ (b : DeviceBuffer capacity) (slot : Nat),
      b.fill slot rows = fillSlots setRecord b slot rows := by
  induction rows with
  | nil => exact fun _ _ => rfl
  | cons r rest ih =>
    intro b slot
    simp only [fill, fillSlots, ih]

/-- An answer that writes rows and says how many holds these rows. -/
theorem answered_fill (b : DeviceBuffer capacity)
    {rows : List DeviceRecord} (hroom : rows.length ≤ capacity)
    (hcount : rows.length < UInt32.size) :
    ((b.fill 0 rows).setClaimed (UInt32.ofNat rows.length)).answered
      = rows := by
  have hclaimed : (UInt32.ofNat rows.length).toNat = rows.length := by
    rw [UInt32.toNat_ofNat', Nat.mod_eq_of_lt hcount]
  have hrecords : ∀ b : DeviceBuffer capacity, (b.setClaimed
      (UInt32.ofNat rows.length)).records = List.ofFn b.record := by
    intro b
    simp only [records, record_setClaimed]
  rw [answered, claimed_setClaimed, hclaimed, hrecords, fill_eq]
  exact take_fillSlots record_setRecord
    (fun b _ r _ hne => record_setRecord_of_ne b hne r) b hroom

end DeviceBuffer

end DiskAtlas.Mapping

/-
What a request holds after any number of writes. A write changes the bytes
of its own fields and no others (`Confined`), what is read of a request
depends on the bytes of its own fields only (`ReadsOnly`), and all of these
bytes lie inside the request. Since fields and slots share no byte, one
write changes what is read at its own place and nothing else; so, by
induction over the writes, a place holds what was last put there since the
request was prepared (`read_written`).

Requests for files and for devices differ in their fields only. Each states
which bytes its writes and its readers use; the rest is common to both.
-/
import Mathlib.Data.List.DropRight
import Mathlib.Data.List.Induction
import DiskAtlas.Proofs.Mapping.DeviceRequest

namespace DiskAtlas

-- ================================================================ bytes

namespace Bytes

variable {n : Nat}

/-- What is read depends on the bytes from `first` up to `stop` only, and
they lie inside the run. -/
structure ReadsOnly {α : Type} (first stop : Nat)
    (read : Vector UInt8 n → α) : Prop where
  inside : stop ≤ n
  congr : ∀ bytes bytes' : Vector UInt8 n,
    (∀ i (_ : i < n), first ≤ i → i < stop → bytes'[i] = bytes[i]) →
      read bytes' = read bytes

/-- A write changes bytes that it touches only, and they lie inside the
run. -/
structure Confined (Touches : Nat → Prop)
    (write : Vector UInt8 n → Vector UInt8 n) : Prop where
  inside : ∀ i, Touches i → i < n
  kept : ∀ (bytes : Vector UInt8 n) i (_ : i < n), ¬ Touches i →
    (write bytes)[i] = bytes[i]

/-- What is read elsewhere stays as it was. -/
theorem Confined.undisturbed {α : Type} {Touches : Nat → Prop}
    {write : Vector UInt8 n → Vector UInt8 n} {first stop : Nat}
    {read : Vector UInt8 n → α} (hwrite : Confined Touches write)
    (hread : ReadsOnly first stop read)
    (hapart : ∀ i, first ≤ i → i < stop → ¬ Touches i)
    (bytes : Vector UInt8 n) : read (write bytes) = read bytes :=
  hread.congr _ _ fun i hi hfirst hstop =>
    hwrite.kept bytes i hi (hapart i hfirst hstop)

end Bytes

namespace Mapping

-- ============================================================== history

section History

variable {W β α : Type}

/-- What the last of some writes put somewhere, or what was there before
them if none did. -/
def lastPut (puts : W → Option α) (before : α) (writes : List W) : α :=
  (writes.reverse.findSome? puts).getD before

/-- The writes behind the last one that begins afresh. -/
def sinceReset (resets : W → Bool) (writes : List W) : List W :=
  writes.rtakeWhile fun w => !resets w

theorem lastPut_snoc (puts : W → Option α) (before : α) (writes : List W)
    (w : W) : lastPut puts before (writes ++ [w])
      = (puts w).getD (lastPut puts before writes) := by
  rw [lastPut, List.reverse_append, List.reverse_singleton,
    List.singleton_append, List.findSome?_cons]
  cases puts w <;> rfl

theorem sinceReset_snoc (resets : W → Bool) (writes : List W) (w : W) :
    sinceReset resets (writes ++ [w]) =
      if resets w then [] else sinceReset resets writes ++ [w] := by
  rw [sinceReset, List.rtakeWhile_concat]
  cases resets w <;> rfl

variable {write : β → W → β} {b : β} {puts : W → Option α}

/-- A place that every write either begins afresh, or puts something into,
or leaves alone, holds what was last put there since it was begun. -/
theorem read_written {resets : W → Bool} {before : α} (read : β → α)
    (hbefore : read b = before)
    (hstep : ∀ b w, read (write b w) =
      if resets w then before else (puts w).getD (read b))
    (writes : List W) :
    read (writes.foldl write b)
      = lastPut puts before (sinceReset resets writes) := by
  induction writes using List.reverseRecOn with
  | nil => exact hbefore
  | append_singleton writes w ih =>
    rw [List.foldl_append, List.foldl_cons, List.foldl_nil, hstep, ih,
      sinceReset_snoc]
    split
    · rfl
    · exact (lastPut_snoc ..).symm

/-- A place that no write begins afresh holds what was last put there. -/
theorem read_written_ever (read : β → α)
    (hstep : ∀ b w, read (write b w) = (puts w).getD (read b))
    (writes : List W) :
    read (writes.foldl write b) = lastPut puts (read b) writes := by
  induction writes using List.reverseRecOn with
  | nil => rfl
  | append_singleton writes w ih =>
    rw [List.foldl_append, List.foldl_cons, List.foldl_nil, hstep, ih,
      lastPut_snoc]

end History

open Bytes

-- ================================================================ files

/-- What can be written into a request for the extents of a file. -/
inductive FileWrite (capacity : Nat) where
  | prepare (r : FileRequest)
  | extent (slot : Fin capacity) (e : RawExtent)
  | claim (count : UInt32)

namespace FileWrite

open FileRequest FileBuffer

variable {capacity : Nat}

def apply (b : FileBuffer capacity) : FileWrite capacity → FileBuffer capacity
  | prepare r => .prepare capacity r
  | extent slot e => b.setExtent slot e
  | claim count => b.setClaimed count

/-- Does a write begin the whole request afresh? -/
def isPrepare : FileWrite capacity → Bool
  | prepare _ => true
  | _ => false

/-- What a write puts into a slot. -/
def extentAt? (slot : Fin capacity) : FileWrite capacity → Option RawExtent
  | extent other e => if other = slot then some e else none
  | _ => none

def request? : FileWrite capacity → Option FileRequest
  | prepare r => some r
  | _ => none

def claimed? : FileWrite capacity → Option UInt32
  | claim count => some count
  | _ => none

/-- Where a write changes a byte. Behind the length of an extent some bytes
are left to the kernel. -/
def Touches (i : Nat) : FileWrite capacity → Prop
  | prepare _ => i < headerSize + extentSize * capacity
  | extent slot _ =>
    (slotOffset slot ≤ i ∧ i < slotOffset slot + 24) ∨
      (slotOffset slot + 40 ≤ i ∧ i < slotOffset slot + 44)
  | claim _ => 20 ≤ i ∧ i < 24

/-- Each write changes the bytes of its own fields: one slot, or the count. A
`prepare` touches all of them. -/
theorem confined (w : FileWrite capacity) :
    Confined (w.Touches ·) fun bytes => (w.apply ⟨bytes⟩).bytes := by
  cases w with
  | prepare r => exact ⟨fun _ h => h, fun _ i hi h => absurd hi h⟩
  | extent slot e =>
    have hslot : slotOffset slot + 44 ≤ headerSize + extentSize * capacity :=
      field_le slot (show 40 + 4 ≤ extentSize by decide)
    refine ⟨fun i h => ?_, fun bytes i hi h => ?_⟩
    · simp only [Touches] at h
      omega
    · simp only [Touches, not_or, not_and_or, Nat.not_le, Nat.not_lt] at h
      simp (disch := omega) only [apply, setExtent, putU64, putU32,
        getElem_putWord]
  | claim count =>
    refine ⟨fun i h => ?_, fun bytes i hi h => ?_⟩
    · have hheader : 24 ≤ headerSize := by decide
      simp only [Touches] at h
      omega
    · simp only [Touches, not_and_or, Nat.not_le, Nat.not_lt] at h
      simp (disch := omega) only [apply, setClaimed, putU32, getElem_putWord]

/-- What is written into slots stays out of the header. -/
theorem not_touches_extent {slot : Fin capacity} {e : RawExtent} {i : Nat}
    (h : i < headerSize) : ¬ (extent slot e).Touches i := by
  have hslot : headerSize ≤ slotOffset slot := Nat.le_add_right ..
  simp only [Touches]
  omega

end FileWrite

namespace FileBuffer

open FileRequest

variable {capacity : Nat}

-- ------------------------------------------------------- what is read

/-- A reader of requests looks at the bytes from `first` up to `stop`
only. -/
def Reads {α : Type} (first stop : Nat) (read : FileBuffer capacity → α) :
    Prop :=
  ReadsOnly first stop fun bytes => read ⟨bytes⟩

/-- An extent is read from the bytes of its slot. This is what has to be known
of a reader; that the write of another slot leaves it alone then follows. -/
theorem reads_extent (slot : Fin capacity) :
    Reads (slotOffset slot) (slotOffset slot + extentSize)
      fun b => b.extent slot := by
  refine ⟨field_le slot (show 0 + extentSize ≤ extentSize by decide), ?_⟩
  intro bytes bytes' hsame
  have hword : ∀ (field width : Nat) (_ : field + width ≤ extentSize) hin,
      getWord bytes' (slotOffset slot + field) width hin
        = getWord bytes (slotOffset slot + field) width hin :=
    fun field width _ hin => getWord_congr hin fun i hi hlow hhigh =>
      hsame i hi (by omega) (by omega)
  simp (disch := decide) only [extent, getU64, getU32, hword]

/-- The request is read from the first twenty bytes. -/
theorem reads_request : Reads 0 20 (@request capacity) := by
  refine ⟨by simp only [headerSize]; omega, ?_⟩
  intro bytes bytes' hsame
  have hword : ∀ (offset width : Nat) (_ : offset + width ≤ 20) hin,
      getWord bytes' offset width hin = getWord bytes offset width hin :=
    fun offset width _ hin => getWord_congr hin fun i hi hlow hhigh =>
      hsame i hi (by omega) (by omega)
  simp (disch := decide) only [request, getU64, getU32, hword]

theorem reads_claimed : Reads 20 24 (@claimed capacity) := by
  refine ⟨by simp only [headerSize]; omega, ?_⟩
  intro bytes bytes' hsame
  exact congrArg UInt32.ofNat (getWord_congr _ hsame)

-- ------------------------------------------------------- blank requests

theorem extent_blank (slot : Fin capacity) :
    (blank capacity).extent slot = ⟨0, 0, 0, ⟨0⟩⟩ := by
  simp only [extent, blank, getU64, getU32, getWord_zeros]
  rfl

theorem request_blank : (blank capacity).request = ⟨0, 0, 0⟩ := by
  simp only [request, blank, getU64, getU32, getWord_zeros]
  rfl

theorem claimed_blank : (blank capacity).claimed = 0 := by
  simp only [claimed, blank, getU32, getWord_zeros]
  rfl

/-- A request that was just prepared is blank behind its header. -/
theorem getElem_prepare (r : FileRequest) (i : Nat)
    (hi : i < headerSize + extentSize * capacity)
    (hout : 20 ≤ i ∧ i < 24 ∨ 28 ≤ i) :
    (prepare capacity r).bytes[i] = (blank capacity).bytes[i] := by
  simp (disch := omega) only [prepare, putU64, putU32, getElem_putWord]

-- -------------------------------------------------------------- writes

/-- What one write does to a slot: it is cleared, or given an extent, or left
alone. -/
theorem extent_write (slot : Fin capacity) (b : FileBuffer capacity)
    (w : FileWrite capacity) :
    (w.apply b).extent slot = if w.isPrepare then ⟨0, 0, 0, ⟨0⟩⟩
      else (w.extentAt? slot).getD (b.extent slot) := by
  cases w with
  | prepare r =>
    have hslot : headerSize ≤ slotOffset slot := Nat.le_add_right ..
    have hheader : headerSize = 32 := rfl
    rw [← extent_blank slot]
    exact (reads_extent slot).congr _ _ fun i hi hlow _ =>
      getElem_prepare r i hi (by omega)
  | extent other e =>
    by_cases h : slot = other
    · subst h
      simp [FileWrite.apply, FileWrite.isPrepare, FileWrite.extentAt?,
        extent_setExtent]
    · simp [FileWrite.apply, FileWrite.isPrepare, FileWrite.extentAt?,
        extent_setExtent_of_ne b h e, Ne.symm h]
  | claim count => exact extent_setClaimed b count slot

theorem request_write (b : FileBuffer capacity) (w : FileWrite capacity) :
    (w.apply b).request = w.request?.getD b.request := by
  cases w with
  | prepare r => exact request_prepare r
  | extent slot e =>
    exact (FileWrite.confined (.extent slot e)).undisturbed
      reads_request
      (fun i _ hstop => FileWrite.not_touches_extent
        (Nat.lt_of_lt_of_le hstop (by decide))) b.bytes
  | claim count =>
    refine (FileWrite.confined (.claim count)).undisturbed
      reads_request (fun i _ hstop => ?_) b.bytes
    simp only [FileWrite.Touches]
    omega

/-- What one write does to the count: it is cleared, or set, or left alone. -/
theorem claimed_write (b : FileBuffer capacity) (w : FileWrite capacity) :
    (w.apply b).claimed =
      if w.isPrepare then 0 else w.claimed?.getD b.claimed := by
  cases w with
  | prepare r =>
    exact (reads_claimed.congr _ _ fun i hi hlow hhigh =>
      getElem_prepare r i hi (.inl ⟨hlow, hhigh⟩)).trans claimed_blank
  | extent slot e =>
    exact (FileWrite.confined (.extent slot e)).undisturbed
      reads_claimed
      (fun i _ hstop => FileWrite.not_touches_extent
        (Nat.lt_of_lt_of_le hstop (by decide))) b.bytes
  | claim count => exact claimed_setClaimed b count

/-- Requests for files hold what is written into them. Whatever was written
into a blank one, a slot holds the extent that was put there last since
the request was prepared, the count what it was set to since then, and the
header what was asked for last. -/
structure Faithful (capacity : Nat) : Prop where
  extent_eq : ∀ (writes : List (FileWrite capacity)) (slot : Fin capacity),
    (writes.foldl FileWrite.apply (blank capacity)).extent slot =
      lastPut (FileWrite.extentAt? slot) ⟨0, 0, 0, ⟨0⟩⟩
        (sinceReset FileWrite.isPrepare writes)
  claimed_eq : ∀ writes : List (FileWrite capacity),
    (writes.foldl FileWrite.apply (blank capacity)).claimed =
      lastPut FileWrite.claimed? 0 (sinceReset FileWrite.isPrepare writes)
  request_eq : ∀ writes : List (FileWrite capacity),
    (writes.foldl FileWrite.apply (blank capacity)).request =
      lastPut FileWrite.request? ⟨0, 0, 0⟩ writes
  /-- No write reaches beyond its own bytes, which lie in the request. -/
  confined : ∀ w : FileWrite capacity,
    Confined (w.Touches ·) fun bytes => (w.apply ⟨bytes⟩).bytes
  reads_extent : ∀ slot : Fin capacity,
    Reads (slotOffset slot) (slotOffset slot + extentSize)
      fun b => b.extent slot
  reads_request : Reads 0 20 (@request capacity)
  reads_claimed : Reads 20 24 (@claimed capacity)

theorem faithful (capacity : Nat) : Faithful capacity where
  extent_eq := fun writes slot =>
    read_written (fun b : FileBuffer capacity => b.extent slot)
      (extent_blank slot) (extent_write slot) writes
  claimed_eq := read_written claimed claimed_blank claimed_write
  request_eq := fun writes => by
    have hread := read_written_ever (b := blank capacity) request
      request_write writes
    rwa [request_blank] at hread
  confined := FileWrite.confined
  reads_extent := reads_extent
  reads_request := reads_request
  reads_claimed := reads_claimed

end FileBuffer

-- =============================================================== devices

section Record

open DeviceRequest

variable {n : Nat}

/-- The fields of a record take its first bytes; the rest is left to the
kernel. -/
theorem getElem_putRecord (bytes : Vector UInt8 n) (offset : Nat)
    (r : DeviceRecord) (h : offset + recordSize ≤ n) (i : Nat) (hi : i < n)
    (hout : i < offset ∨ offset + 40 ≤ i) :
    (putRecord bytes offset r h)[i] = bytes[i] := by
  simp (disch := omega) only [putRecord, putU64, putU32, getElem_putWord]

/-- A record is read from its own bytes, wherever in the buffer it stands. The
two keys and the slots are all of this shape. -/
theorem getRecord_readsOnly (offset : Nat) (h : offset + recordSize ≤ n) :
    ReadsOnly offset (offset + recordSize)
      fun bytes : Vector UInt8 n => getRecord bytes offset h := by
  refine ⟨h, ?_⟩
  intro bytes bytes' hsame
  have hword : ∀ (field width : Nat) (_ : field + width ≤ recordSize) hin,
      getWord bytes' (offset + field) width hin
        = getWord bytes (offset + field) width hin :=
    fun field width _ hin => getWord_congr hin fun i hi hlow hhigh =>
      hsame i hi (by omega) (by omega)
  simp (disch := decide) only [getRecord, getU64, getU32, hword]

/-- Bytes that are all zero hold the lowest record. -/
theorem getRecord_zeros (offset : Nat) (h : offset + recordSize ≤ n) :
    getRecord (Vector.replicate n 0) offset h = .lowest := by
  simp only [getRecord, getU64, getU32, getWord_zeros]
  rfl

end Record

/-- What can be written into a request for the owners of a device. -/
inductive DeviceWrite (capacity : Nat) where
  | prepare (low high : DeviceRecord)
  | record (slot : Fin capacity) (r : DeviceRecord)
  | claim (count : UInt32)
  | answer (flags : UInt32)

namespace DeviceWrite

open DeviceRequest DeviceBuffer

variable {capacity : Nat}

def apply (b : DeviceBuffer capacity) :
    DeviceWrite capacity → DeviceBuffer capacity
  | prepare low high => .prepare capacity low high
  | record slot r => b.setRecord slot r
  | claim count => b.setClaimed count
  | answer flags => b.setAnswerFlags flags

/-- Does a write begin the whole request afresh? -/
def isPrepare : DeviceWrite capacity → Bool
  | prepare _ _ => true
  | _ => false

/-- What a write puts into a slot. -/
def recordAt? (slot : Fin capacity) :
    DeviceWrite capacity → Option DeviceRecord
  | record other r => if other = slot then some r else none
  | _ => none

def lowKey? : DeviceWrite capacity → Option DeviceRecord
  | prepare low _ => some low
  | _ => none

def claimed? : DeviceWrite capacity → Option UInt32
  | claim count => some count
  | _ => none

def answerFlags? : DeviceWrite capacity → Option UInt32
  | answer flags => some flags
  | _ => none

/-- Where a write changes a byte. -/
def Touches (i : Nat) : DeviceWrite capacity → Prop
  | prepare _ _ => i < headSize + recordSize * capacity
  | record slot _ => slotOffset slot ≤ i ∧ i < slotOffset slot + 40
  | claim _ => 12 ≤ i ∧ i < 16
  | answer _ => 4 ≤ i ∧ i < 8

/-- Each write changes the bytes of its own fields: one slot, the count or the
flags of the answer. A `prepare` touches all of them. -/
theorem confined (w : DeviceWrite capacity) :
    Confined (w.Touches ·) fun bytes => (w.apply ⟨bytes⟩).bytes := by
  have hhead : 16 ≤ headSize := by decide
  cases w with
  | prepare low high => exact ⟨fun _ h => h, fun _ i hi h => absurd hi h⟩
  | record slot r =>
    have hslot := slot_le slot
    have hrecord : 40 ≤ recordSize := by decide
    refine ⟨fun i h => ?_, fun bytes i hi h => ?_⟩
    · simp only [Touches] at h
      omega
    · simp only [Touches, not_and_or, Nat.not_le, Nat.not_lt] at h
      exact getElem_putRecord bytes _ r hslot i hi h
  | claim count =>
    refine ⟨fun i h => ?_, fun bytes i hi h => ?_⟩
    · simp only [Touches] at h
      omega
    · simp only [Touches, not_and_or, Nat.not_le, Nat.not_lt] at h
      have hin : 12 + 4 ≤ headSize + recordSize * capacity := by omega
      exact getElem_putWord bytes 12 4 _ hin i hi h
  | answer flags =>
    refine ⟨fun i h => ?_, fun bytes i hi h => ?_⟩
    · simp only [Touches] at h
      omega
    · simp only [Touches, not_and_or, Nat.not_le, Nat.not_lt] at h
      have hin : 4 + 4 ≤ headSize + recordSize * capacity := by omega
      exact getElem_putWord bytes 4 4 _ hin i hi h

/-- What is written into slots stays out of the head. -/
theorem not_touches_record {slot : Fin capacity} {r : DeviceRecord}
    {i : Nat} (h : i < headSize) : ¬ (record slot r).Touches i := by
  have hslot : headSize ≤ slotOffset slot := Nat.le_add_right ..
  simp only [Touches]
  omega

end DeviceWrite

namespace DeviceBuffer

open DeviceRequest

variable {capacity : Nat}

-- ------------------------------------------------------- what is read

/-- A reader of requests looks at the bytes from `first` up to `stop`
only. -/
def Reads {α : Type} (first stop : Nat) (read : DeviceBuffer capacity → α) :
    Prop :=
  ReadsOnly first stop fun bytes => read ⟨bytes⟩

theorem reads_record (slot : Fin capacity) :
    Reads (slotOffset slot) (slotOffset slot + recordSize)
      fun b => b.record slot :=
  getRecord_readsOnly _ (slot_le slot)

theorem reads_lowKey :
    Reads keysOffset (keysOffset + recordSize) (@lowKey capacity) :=
  getRecord_readsOnly _ (head_le (by decide))

theorem reads_claimed : Reads 12 16 (@claimed capacity) :=
  ⟨head_le (show 12 + 4 ≤ headSize by decide), fun _ _ hsame =>
    congrArg UInt32.ofNat (getWord_congr _ hsame)⟩

theorem reads_answerFlags : Reads 4 8 (@answerFlags capacity) :=
  ⟨head_le (show 4 + 4 ≤ headSize by decide), fun _ _ hsame =>
    congrArg UInt32.ofNat (getWord_congr _ hsame)⟩

-- ------------------------------------------------------- blank requests

theorem record_blank (slot : Fin capacity) :
    (blank capacity).record slot = .lowest :=
  getRecord_zeros ..

theorem lowKey_blank : (blank capacity).lowKey = .lowest :=
  getRecord_zeros ..

theorem claimed_blank : (blank capacity).claimed = 0 :=
  congrArg UInt32.ofNat (getWord_zeros ..)

theorem answerFlags_blank : (blank capacity).answerFlags = 0 :=
  congrArg UInt32.ofNat (getWord_zeros ..)

/-- A request that was just prepared is blank but for the room it offers
and its two keys. -/
theorem getElem_prepare (low high : DeviceRecord) (i : Nat)
    (hi : i < headSize + recordSize * capacity)
    (hout : i < 8 ∨ 12 ≤ i ∧ i < keysOffset ∨ headSize ≤ i) :
    (prepare capacity low high).bytes[i] = (blank capacity).bytes[i] := by
  have hkeys : keysOffset = 64 := rfl
  have hrecord : recordSize = 64 := rfl
  have hhead : headSize = 192 := rfl
  simp only [prepare]
  rw [getElem_putRecord _ _ _ _ _ _ (by omega),
    getElem_putRecord _ _ _ _ _ _ (by omega)]
  exact getElem_putWord _ 8 4 _ _ i hi (by omega)

-- -------------------------------------------------------------- writes

theorem answerFlags_setAnswerFlags (b : DeviceBuffer capacity)
    (flags : UInt32) : (b.setAnswerFlags flags).answerFlags = flags := by
  simp only [answerFlags, setAnswerFlags, getU32, putU32, getWord_putWord,
    ofNat_toNat_mod_u32]

/-- What is read of the head is not disturbed by a record. -/
theorem undisturbed_setRecord {α : Type} {first stop : Nat}
    {read : DeviceBuffer capacity → α} (hread : Reads first stop read)
    (hstop : stop ≤ headSize) (b : DeviceBuffer capacity)
    (slot : Fin capacity) (r : DeviceRecord) :
    read (b.setRecord slot r) = read b :=
  (DeviceWrite.confined (.record slot r)).undisturbed hread
    (fun _ _ hi => DeviceWrite.not_touches_record
      (Nat.lt_of_lt_of_le hi hstop)) b.bytes

/-- What is read from outside the bytes of the count does not see it. -/
theorem undisturbed_setClaimed {α : Type} {first stop : Nat}
    {read : DeviceBuffer capacity → α} (hread : Reads first stop read)
    (hapart : stop ≤ 12 ∨ 16 ≤ first) (b : DeviceBuffer capacity)
    (count : UInt32) : read (b.setClaimed count) = read b := by
  refine (DeviceWrite.confined (.claim count)).undisturbed hread
    (fun i hfirst hstop => ?_) b.bytes
  simp only [DeviceWrite.Touches]
  omega

theorem undisturbed_setAnswerFlags {α : Type} {first stop : Nat}
    {read : DeviceBuffer capacity → α} (hread : Reads first stop read)
    (hapart : stop ≤ 4 ∨ 8 ≤ first) (b : DeviceBuffer capacity)
    (flags : UInt32) : read (b.setAnswerFlags flags) = read b := by
  refine (DeviceWrite.confined (.answer flags)).undisturbed hread
    (fun i hfirst hstop => ?_) b.bytes
  simp only [DeviceWrite.Touches]
  omega

theorem record_write (slot : Fin capacity) (b : DeviceBuffer capacity)
    (w : DeviceWrite capacity) :
    (w.apply b).record slot = if w.isPrepare then .lowest
      else (w.recordAt? slot).getD (b.record slot) := by
  have hslot : headSize ≤ slotOffset slot := Nat.le_add_right ..
  cases w with
  | prepare low high =>
    exact ((reads_record slot).congr _ _ fun i hi hlow _ =>
      getElem_prepare low high i hi
        (.inr (.inr (Nat.le_trans hslot hlow)))).trans (record_blank slot)
  | record other r =>
    by_cases h : slot = other
    · subst h
      simp [DeviceWrite.apply, DeviceWrite.isPrepare,
        DeviceWrite.recordAt?, record_setRecord]
    · simp [DeviceWrite.apply, DeviceWrite.isPrepare,
        DeviceWrite.recordAt?, record_setRecord_of_ne b h r, Ne.symm h]
  | claim count => exact record_setClaimed b count slot
  | answer flags =>
    exact undisturbed_setAnswerFlags (reads_record slot)
      (.inr (Nat.le_trans (by decide) hslot)) b flags

theorem lowKey_write (b : DeviceBuffer capacity)
    (w : DeviceWrite capacity) :
    (w.apply b).lowKey = w.lowKey?.getD b.lowKey := by
  cases w with
  | prepare low high => exact lowKey_prepare low high
  | record slot r =>
    exact undisturbed_setRecord reads_lowKey (by decide) b slot r
  | claim count =>
    exact undisturbed_setClaimed reads_lowKey (by decide) b count
  | answer flags =>
    exact undisturbed_setAnswerFlags reads_lowKey (by decide) b flags

/-- What one write does to the count: it is cleared, or set, or left alone. -/
theorem claimed_write (b : DeviceBuffer capacity)
    (w : DeviceWrite capacity) :
    (w.apply b).claimed =
      if w.isPrepare then 0 else w.claimed?.getD b.claimed := by
  cases w with
  | prepare low high =>
    exact (reads_claimed.congr _ _ fun i hi hlow hhigh =>
      getElem_prepare low high i hi (.inr (.inl ⟨hlow,
        Nat.lt_of_lt_of_le hhigh (by decide)⟩))).trans claimed_blank
  | record slot r =>
    exact undisturbed_setRecord reads_claimed (by decide) b slot r
  | claim count => exact claimed_setClaimed b count
  | answer flags =>
    exact undisturbed_setAnswerFlags reads_claimed (by decide) b
      flags

theorem answerFlags_write (b : DeviceBuffer capacity)
    (w : DeviceWrite capacity) :
    (w.apply b).answerFlags =
      if w.isPrepare then 0 else w.answerFlags?.getD b.answerFlags := by
  cases w with
  | prepare low high =>
    exact (reads_answerFlags.congr _ _ fun i hi _ hhigh =>
      getElem_prepare low high i hi (.inl hhigh)).trans answerFlags_blank
  | record slot r =>
    exact undisturbed_setRecord reads_answerFlags (by decide)
      b slot r
  | claim count =>
    exact undisturbed_setClaimed reads_answerFlags
      (by decide) b count
  | answer flags => exact answerFlags_setAnswerFlags b flags

/-- Requests for devices hold what is written into them. Whatever was
written into a blank one, a slot holds the record that was put there last
since the request was prepared, the count and the flags of the answer what
they were set to since then, and the low key what was asked for last. -/
structure Faithful (capacity : Nat) : Prop where
  record_eq : ∀ (writes : List (DeviceWrite capacity))
    (slot : Fin capacity),
    (writes.foldl DeviceWrite.apply (blank capacity)).record slot =
      lastPut (DeviceWrite.recordAt? slot) ⟨0, ⟨0⟩, 0, 0, 0, 0⟩
        (sinceReset DeviceWrite.isPrepare writes)
  claimed_eq : ∀ writes : List (DeviceWrite capacity),
    (writes.foldl DeviceWrite.apply (blank capacity)).claimed =
      lastPut DeviceWrite.claimed? 0
        (sinceReset DeviceWrite.isPrepare writes)
  answerFlags_eq : ∀ writes : List (DeviceWrite capacity),
    (writes.foldl DeviceWrite.apply (blank capacity)).answerFlags =
      lastPut DeviceWrite.answerFlags? 0
        (sinceReset DeviceWrite.isPrepare writes)
  lowKey_eq : ∀ writes : List (DeviceWrite capacity),
    (writes.foldl DeviceWrite.apply (blank capacity)).lowKey =
      lastPut DeviceWrite.lowKey? ⟨0, ⟨0⟩, 0, 0, 0, 0⟩ writes
  /-- No write reaches beyond its own bytes, which lie in the request. -/
  confined : ∀ w : DeviceWrite capacity,
    Confined (w.Touches ·) fun bytes => (w.apply ⟨bytes⟩).bytes
  reads_record : ∀ slot : Fin capacity,
    Reads (slotOffset slot) (slotOffset slot + recordSize)
      fun b => b.record slot
  reads_lowKey :
    Reads keysOffset (keysOffset + recordSize) (@lowKey capacity)
  reads_claimed : Reads 12 16 (@claimed capacity)
  reads_answerFlags : Reads 4 8 (@answerFlags capacity)

theorem faithful (capacity : Nat) : Faithful capacity where
  record_eq := fun writes slot =>
    read_written (fun b : DeviceBuffer capacity => b.record slot)
      (record_blank slot) (record_write slot) writes
  claimed_eq := read_written claimed claimed_blank claimed_write
  answerFlags_eq :=
    read_written answerFlags answerFlags_blank answerFlags_write
  lowKey_eq := fun writes => by
    have hread := read_written_ever (b := blank capacity) lowKey
      lowKey_write writes
    rwa [lowKey_blank] at hread
  confined := DeviceWrite.confined
  reads_record := reads_record
  reads_lowKey := reads_lowKey
  reads_claimed := reads_claimed
  reads_answerFlags := reads_answerFlags

end DeviceBuffer

/-- Requests of any size, for files and for devices, hold what is written
into them, bit for bit, and never reach beyond their bytes. -/
theorem requests_faithful (capacity : Nat) :
    FileBuffer.Faithful capacity ∧ DeviceBuffer.Faithful capacity :=
  ⟨FileBuffer.faithful capacity, DeviceBuffer.faithful capacity⟩

end Mapping

end DiskAtlas

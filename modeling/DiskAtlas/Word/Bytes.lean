/-
Words inside a fixed run of bytes, lowest byte first. Kernel requests are
runs of bytes in which fields of four and eight bytes stand at known
offsets; a field is read by `getWord` and written by `putWord`, both by
recursion on its width. Offsets carry the proof that the field lies
inside the run, so no access needs a default.
-/
import DiskAtlas.Word

namespace DiskAtlas.Bytes

variable {n : Nat}

/-- The number held by the `width` bytes from `offset` on. -/
def getWord (bytes : Vector UInt8 n) (offset : Nat) :
    (width : Nat) → offset + width ≤ n → Nat
  | 0, _ => 0
  | width + 1, h =>
    bytes[offset].toNat + 256 * getWord bytes (offset + 1) width (by omega)

/-- The same run with the low `width` bytes of `value` from `offset` on. -/
def putWord (bytes : Vector UInt8 n) (offset : Nat) :
    (width : Nat) → Nat → offset + width ≤ n → Vector UInt8 n
  | 0, _, _ => bytes
  | width + 1, value, h =>
    putWord (bytes.set offset (UInt8.ofNat value)) (offset + 1) width
      (value / 256) (by omega)

-- ====================================================== the two widths

def getU32 (bytes : Vector UInt8 n) (offset : Nat) (h : offset + 4 ≤ n) :
    UInt32 :=
  UInt32.ofNat (getWord bytes offset 4 h)

def getU64 (bytes : Vector UInt8 n) (offset : Nat) (h : offset + 8 ≤ n) :
    UInt64 :=
  UInt64.ofNat (getWord bytes offset 8 h)

def putU32 (bytes : Vector UInt8 n) (offset : Nat) (value : UInt32)
    (h : offset + 4 ≤ n) : Vector UInt8 n :=
  putWord bytes offset 4 value.toNat h

def putU64 (bytes : Vector UInt8 n) (offset : Nat) (value : UInt64)
    (h : offset + 8 ≤ n) : Vector UInt8 n :=
  putWord bytes offset 8 value.toNat h

-- ============================================================== laws

/-- A field is known by its own bytes. -/
theorem getWord_congr {bytes bytes' : Vector UInt8 n} {offset width : Nat}
    (h : offset + width ≤ n)
    (hsame : ∀ i (_ : i < n), offset ≤ i → i < offset + width →
      bytes'[i] = bytes[i]) :
    getWord bytes' offset width h = getWord bytes offset width h := by
  induction width generalizing offset with
  | zero => rfl
  | succ width ih =>
    have hfirst := hsame offset (by omega) (Nat.le_refl _) (by omega)
    have hrest : getWord bytes' (offset + 1) width (by omega)
        = getWord bytes (offset + 1) width (by omega) :=
      ih _ fun i hi hlow hhigh => hsame i hi (by omega) (by omega)
    rw [getWord, getWord, hfirst, hrest]

theorem getWord_zeros (offset width : Nat) (h : offset + width ≤ n) :
    getWord (Vector.replicate n 0) offset width h = 0 := by
  induction width generalizing offset with
  | zero => rfl
  | succ width ih =>
    rw [getWord, ih, Vector.getElem_replicate]
    rfl

/-- A byte outside the field stays as it was. -/
theorem getElem_putWord (bytes : Vector UInt8 n) (offset width value : Nat)
    (h : offset + width ≤ n) (i : Nat) (hi : i < n)
    (hout : i < offset ∨ offset + width ≤ i) :
    (putWord bytes offset width value h)[i] = bytes[i] := by
  induction width generalizing bytes offset value with
  | zero => rfl
  | succ width ih =>
    simp only [putWord]
    rw [ih _ (offset + 1) (value / 256) (by omega) (by omega),
      Vector.getElem_set_ne]
    omega

/-- What is written is what is read. -/
theorem getWord_putWord (bytes : Vector UInt8 n) (offset width value : Nat)
    (h : offset + width ≤ n) :
    getWord (putWord bytes offset width value h) offset width h
      = value % Nat.pow 256 width := by
  induction width generalizing bytes offset value with
  | zero => simp [getWord, Nat.mod_one]
  | succ width ih =>
    simp only [getWord, putWord]
    rw [ih _ (offset + 1) (value / 256) (by omega),
      getElem_putWord _ _ _ _ (by omega) _ _ (Or.inl (by omega)),
      Vector.getElem_set_self, UInt8.toNat_ofNat']
    change value % 256 + 256 * (value / 256 % 256 ^ width)
      = value % 256 ^ (width + 1)
    rw [Nat.pow_succ', Nat.mod_mul]

/-- A field that shares no byte with the written one keeps its number. -/
theorem getWord_putWord_of_disjoint (bytes : Vector UInt8 n)
    (offset width value other otherWidth : Nat) (h : offset + width ≤ n)
    (hother : other + otherWidth ≤ n)
    (hd : other + otherWidth ≤ offset ∨ offset + width ≤ other) :
    getWord (putWord bytes offset width value h) other otherWidth hother
      = getWord bytes other otherWidth hother :=
  getWord_congr hother fun i hi hlow hhigh =>
    getElem_putWord bytes offset width value h i hi (by omega)

end DiskAtlas.Bytes

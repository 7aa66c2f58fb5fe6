/-
What readers take. A reader takes some bytes for a value if it reads the
value from them and leaves whatever follows (`Takes`). Readers that are run
one after the other take their bytes one after the other, so what is
written part by part is read part by part, and no proof about a format
speaks of the bytes behind it.

`Takes` is stated for every continuation, so that the parts of a format can be
proved without knowing what comes behind them, and `bind` and `last` put the
parts together in the order in which they are read.
-/
import Mathlib.Algebra.Group.Nat.Defs
import DiskAtlas.Reader

namespace DiskAtlas

variable {α β : Type}

/-- A reader reads just these bytes as a value, whatever follows them. -/
def Takes (r : Reader α) (bytes : List UInt8) (a : α) : Prop :=
  ∀ rest, r.run (bytes ++ rest) = some (a, rest)

namespace Takes

variable {r : Reader α} {bytes more : List UInt8} {a : α} {b : β}

theorem pure (a : α) : Takes (Pure.pure a) [] a := fun _ => rfl

/-- What one reader leaves the next one takes. -/
theorem bind {f : α → Reader β} (h : Takes r bytes a)
    (hnext : Takes (f a) more b) : Takes (r >>= f) (bytes ++ more) b := by
  intro rest
  rw [StateT.run_bind, List.append_assoc, h]
  exact hnext rest

/-- A reader after which no bytes are read. -/
theorem last {f : α → Reader β} (h : Takes r bytes a)
    (hnext : Takes (f a) [] b) : Takes (r >>= f) bytes b := by
  have hbind := h.bind hnext
  rwa [List.append_nil] at hbind

/-- What is known already takes no bytes. -/
theorem option {x : Option α} (h : x = some a) :
    Takes (liftM x : Reader α) [] a := by
  subst h
  exact .pure a

/-- Bytes that are taken are read where nothing follows them. -/
theorem run_eq (h : Takes r bytes a) : r.run bytes = some (a, []) := by
  have hnil := h []
  rwa [List.append_nil] at hnil

end Takes

-- =============================================================== bytes

theorem takes_readByte (b : UInt8) : Takes readByte [b] b := fun _ => rfl

theorem takes_readBytes (bytes : List UInt8) :
    Takes (readBytes bytes.length) bytes bytes := by
  intro rest
  show (if bytes.length ≤ (bytes ++ rest).length then _ else none) = _
  rw [if_pos (by simp), List.take_left, List.drop_left]

-- ============================================================= numbers

/-- A number takes the width it is written with, also one that does not fit. -/
@[simp] theorem length_littleEndian (width value : Nat) :
    (littleEndian width value).length = width := by
  induction width generalizing value with
  | zero => rfl
  | succ width ih => rw [littleEndian, List.length_cons, ih]

/-- A number that fits is read as it was written. -/
theorem ofLittleEndian_littleEndian {width value : Nat}
    (h : value < 256 ^ width) :
    ofLittleEndian (littleEndian width value) = value := by
  induction width generalizing value with
  | zero =>
    rw [Nat.pow_zero, Nat.lt_one_iff] at h
    exact h.symm
  | succ width ih =>
    have hhigh : value / 256 < 256 ^ width := by
      rw [Nat.pow_succ] at h
      exact Nat.div_lt_of_lt_mul (Nat.mul_comm .. ▸ h)
    rw [littleEndian, ofLittleEndian, ih hhigh, UInt8.toNat_ofNat']
    exact Nat.mod_add_div value 256

theorem ofLittleEndian_lt (bytes : List UInt8) :
    ofLittleEndian bytes < 256 ^ bytes.length := by
  induction bytes with
  | nil => exact Nat.one_pos
  | cons b rest ih =>
    have hb := b.toNat_lt
    rw [ofLittleEndian, List.length_cons, Nat.pow_succ]
    omega

/-- A number that fits its width is read back. -/
theorem takes_littleEndian {width value : Nat} (h : value < 256 ^ width) :
    Takes (readNumber width) (littleEndian width value) value := by
  have hbytes := takes_readBytes (littleEndian width value)
  rw [length_littleEndian] at hbytes
  refine hbytes.last ?_
  rw [ofLittleEndian_littleEndian h]
  exact .pure value

end DiskAtlas

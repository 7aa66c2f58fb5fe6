/-
Arithmetic on 64-bit byte offsets that never wraps. An offset that would
leave the word either stops at the last representable byte (`satAdd`,
`satSub`) or is refused (`checkedAdd`, `checkedMul`). Every operation is
defined through the natural number it computes, so each has one lemma
that says which number that is, and nobody unfolds it afterwards.
-/

namespace DiskAtlas

/-- The largest byte offset and length that a word holds. -/
def maxWord : UInt64 := 0xFFFFFFFFFFFFFFFF

@[simp] theorem toNat_maxWord : maxWord.toNat = 0xFFFFFFFFFFFFFFFF := rfl

-- ======================================================== saturating

/-- The sum, or the largest word if the sum does not fit. -/
def satAdd (a b : UInt64) : UInt64 :=
  UInt64.ofNat (min (a.toNat + b.toNat) maxWord.toNat)

/-- The difference, or zero if it would be negative. -/
def satSub (a b : UInt64) : UInt64 :=
  UInt64.ofNat (a.toNat - b.toNat)

theorem toNat_satAdd (a b : UInt64) :
    (satAdd a b).toNat = min (a.toNat + b.toNat) maxWord.toNat := by
  simp only [satAdd, toNat_maxWord, UInt64.toNat_ofNat']
  omega

theorem toNat_satSub (a b : UInt64) :
    (satSub a b).toNat = a.toNat - b.toNat := by
  have := a.toNat_lt
  simp only [satSub, UInt64.toNat_ofNat']
  omega

/-- The distance between two offsets, whichever is the larger. -/
def distance (a b : UInt64) : UInt64 :=
  if a ≤ b then b - a else a - b

-- =========================================================== checked

/-- The sum, unless it does not fit. -/
def checkedAdd (a b : UInt64) : Option UInt64 :=
  if a.toNat + b.toNat ≤ maxWord.toNat then some (a + b) else none

/-- The product, unless it does not fit. -/
def checkedMul (a b : UInt64) : Option UInt64 :=
  if a.toNat * b.toNat ≤ maxWord.toNat then some (a * b) else none

theorem checkedAdd_eq_some_iff {a b c : UInt64} :
    checkedAdd a b = some c ↔ a.toNat + b.toNat = c.toNat := by
  unfold checkedAdd
  have hmax := toNat_maxWord
  have hc := c.toNat_lt
  constructor
  · intro h
    split at h
    · cases h
      rw [UInt64.toNat_add]
      omega
    · cases h
  · intro h
    rw [if_pos (by omega), Option.some_inj, ← UInt64.toNat_inj,
      UInt64.toNat_add]
    omega

theorem checkedMul_eq_some_iff {a b c : UInt64} :
    checkedMul a b = some c ↔ a.toNat * b.toNat = c.toNat := by
  unfold checkedMul
  have hmax := toNat_maxWord
  have hc := c.toNat_lt
  constructor
  · intro h
    split at h
    · cases h
      rw [UInt64.toNat_mul]
      omega
    · cases h
  · intro h
    rw [if_pos (by omega), Option.some_inj, ← UInt64.toNat_inj,
      UInt64.toNat_mul, h, Nat.mod_eq_of_lt hc]

/-- How many units of `unit` bytes cover `size` bytes; none if the unit
is empty. -/
def unitsCovering (size unit : UInt64) : UInt64 :=
  UInt64.ofNat ((size.toNat + unit.toNat - 1) / unit.toNat)

end DiskAtlas

/-
Slots of a request. An answer is written into them one record after the
other and read from them as far as it claims to reach. Where a slot holds
what was written into it last and no other slot notices, the records that
are read are the records that were written (`take_fillSlots`).
-/
import Mathlib.Data.List.OfFn

namespace DiskAtlas.Mapping

/-- Slots of one size that lie one behind the other share no byte. -/
theorem slot_apart (head size : Nat) {slot other : Nat} (h : slot < other) :
    head + size * slot + size ≤ head + size * other := by
  have hle : size * slot + size ≤ size * other :=
    Nat.mul_succ .. ▸ Nat.mul_le_mul_left _ h
  omega

section Slots

variable {β α : Type} {n : Nat} {get : β → Fin n → α}
  {set : β → Fin n → α → β}

/-- Writes rows into the slots from `slot` on, as many as fit. -/
def fillSlots (set : β → Fin n → α → β) (b : β) (slot : Nat) :
    List α → β
  | [] => b
  | a :: rest =>
    if h : slot < n then fillSlots set (set b ⟨slot, h⟩ a) (slot + 1) rest
    else b

/-- Filling from a slot on leaves the slots before it. -/
theorem get_fillSlots_of_lt
    (hother : ∀ b i a {j : Fin n}, j ≠ i → get (set b i a) j = get b j)
    (rows : List α) :
    ∀ (b : β) {slot : Nat} (other : Fin n), other.val < slot →
      get (fillSlots set b slot rows) other = get b other := by
  induction rows with
  | nil => exact fun _ _ _ _ => rfl
  | cons a rest ih =>
    intro b slot other h
    rw [fillSlots]
    split
    · rw [ih _ _ (by omega), hother]
      rintro rfl
      exact Nat.lt_irrefl _ h
    · rfl

/-- Each row that was filled in is read from its slot. The later rows go into
other slots, so they leave it alone. -/
theorem get_fillSlots (hsame : ∀ b i a, get (set b i a) i = a)
    (hother : ∀ b i a {j : Fin n}, j ≠ i → get (set b i a) j = get b j)
    (rows : List α) :
    ∀ (b : β) (slot i : Nat) (hi : i < rows.length) (hslot : slot + i < n),
      get (fillSlots set b slot rows) ⟨slot + i, hslot⟩ = rows[i] := by
  induction rows with
  | nil => exact fun _ _ i hi => absurd hi i.not_lt_zero
  | cons a rest ih =>
    intro b slot i hi hslot
    rw [fillSlots, dif_pos (by omega)]
    cases i with
    | zero =>
      have hfirst := get_fillSlots_of_lt hother rest (set b ⟨slot, hslot⟩ a)
        ⟨slot, hslot⟩ (Nat.lt_succ_self slot)
      exact hfirst.trans (hsame ..)
    | succ i =>
      have hrest := ih (set b ⟨slot, by omega⟩ a) (slot + 1) i
        (Nat.lt_of_succ_lt_succ hi) (by omega)
      simp only [Nat.succ_add_eq_add_succ] at hrest
      exact hrest

/-- As many slots as rows were written hold these rows. -/
theorem take_fillSlots (hsame : ∀ b i a, get (set b i a) i = a)
    (hother : ∀ b i a {j : Fin n}, j ≠ i → get (set b i a) j = get b j)
    (b : β) {rows : List α} (hroom : rows.length ≤ n) :
    (List.ofFn (get (fillSlots set b 0 rows))).take rows.length = rows := by
  apply List.ext_getElem?
  intro i
  by_cases hi : i < rows.length
  · have hrow := get_fillSlots hsame hother rows b 0 i hi (by omega)
    simp only [Nat.zero_add] at hrow
    rw [List.getElem?_take_of_lt hi, List.getElem?_ofFn,
      dif_pos (by omega), hrow, List.getElem?_eq_getElem hi]
  · have hlen : rows.length ≤ i := Nat.le_of_not_lt hi
    rw [List.getElem?_eq_none hlen,
      List.getElem?_eq_none ((List.length_take_le ..).trans hlen)]

end Slots

end DiskAtlas.Mapping

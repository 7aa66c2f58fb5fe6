/-
The interval index answers as a look at every interval would. Both ends of
what it looks at are found by binary search, so the first part says what a
search finds on values that satisfy a test up to some place and fail it
from there on. The entries satisfy "begins at or before `high`" up to a
place because they are sorted; the running maximum satisfies "is below
`low`" up to a place because it only grows. What is cut off at either side
overlaps nothing, so the two searches lose no interval
(`overlapping_build`).
-/
import DiskAtlas.Store.IntervalIndex

namespace DiskAtlas

-- ====================================================== binary search

/-- A test that holds up to some place of the first `limit` elements, and
at none of them from there on. -/
def HoldsUpTo {α : Type} (p : α → Bool) (xs : Array α) (limit : Nat) : Prop :=
  ∀ i j x y, i ≤ j → j < limit → xs[i]? = some x → xs[j]? = some y →
    p y = true → p x = true

/-- A search ends where the test begins to fail, if it holds before `low`
and fails from `high` on. -/
theorem partitionBetween_spec {α : Type} {p : α → Bool} {xs : Array α}
    {limit : Nat} (hp : HoldsUpTo p xs limit) (hlimit : limit ≤ xs.size) :
    ∀ low high, low ≤ high → high ≤ limit →
      (∀ i x, xs[i]? = some x → i < low → p x = true) →
      (∀ i x, xs[i]? = some x → high ≤ i → i < limit → p x = false) →
      partitionBetween p xs low high ≤ limit ∧
        ∀ i x, xs[i]? = some x →
          (i < partitionBetween p xs low high → p x = true) ∧
          (partitionBetween p xs low high ≤ i → i < limit → p x = false) := by
  intro low high
  -- the loop's own cases: below `low` all hold, and from `high` on none does
  induction low, high using partitionBetween.induct p xs with
  | case1 low high hlt middle hnone =>
    intro _ hhigh _ _
    have := Array.getElem?_eq_none_iff.1 hnone
    omega
  | case2 low high hlt middle m hm htrue ih =>
    intro hle hhigh hbelow habove
    rw [partitionBetween, if_pos hlt]
    simp only [show low + (high - low) / 2 = middle from rfl, hm, htrue,
      if_true]
    -- what holds at the middle holds before it
    refine ih (by omega) hhigh (fun i x hx hi => ?_) habove
    exact hp i middle x m (by omega) (by omega) hx hm htrue
  | case3 low high hlt middle m hm hfalse ih =>
    intro hle hhigh hbelow habove
    rw [partitionBetween, if_pos hlt]
    simp only [show low + (high - low) / 2 = middle from rfl, hm, hfalse]
    refine ih (by omega) (by omega) hbelow (fun i x hx hi hl => ?_)
    refine Bool.eq_false_iff.2 fun htrue => hfalse ?_
    exact hp middle i m x hi hl hm hx htrue
  | case4 low high hge =>
    intro hle hhigh hbelow habove
    rw [partitionBetween, if_neg hge]
    refine ⟨by omega, fun i x hx => ⟨hbelow i x hx, fun hi hl => ?_⟩⟩
    exact habove i x hx (by omega) hl

/-- A search through the first `limit` elements finds the first of them
that fails the test. -/
theorem partitionPoint_spec {α : Type} {p : α → Bool} {xs : Array α}
    {limit : Nat} (hp : HoldsUpTo p xs limit) (hlimit : limit ≤ xs.size) :
    partitionPoint p xs limit ≤ limit ∧
      ∀ i x, xs[i]? = some x →
        (i < partitionPoint p xs limit → p x = true) ∧
        (partitionPoint p xs limit ≤ i → i < limit → p x = false) :=
  partitionBetween_spec hp hlimit 0 limit (Nat.zero_le _) (Nat.le_refl _)
    (fun _ _ _ hi => absurd hi (Nat.not_lt_zero _))
    (fun _ _ _ hi hl => absurd hl (Nat.not_lt.2 hi))

-- ==================================================== order of entries

namespace Interval

/-- The order of entries, on numbers. -/
theorem le_iff (a b : Interval) :
    le a b = true ↔
      a.first.toNat < b.first.toNat ∨
        (a.first.toNat = b.first.toNat ∧
          (a.last.toNat < b.last.toNat ∨
            (a.last.toNat = b.last.toNat ∧ a.id ≤ b.id))) := by
  simp only [le, Bool.or_eq_true, Bool.and_eq_true, decide_eq_true_eq,
    beq_iff_eq, UInt64.lt_iff_toNat_lt, ← UInt64.toNat_inj]

/-- Intervals are sorted by start, end and number. Sorting needs this order to
be transitive and total. -/
theorem le_trans (a b c : Interval) (hab : le a b = true)
    (hbc : le b c = true) : le a c = true := by
  rw [le_iff] at *
  omega

theorem le_total (a b : Interval) : (le a b || le b a) = true := by
  rw [Bool.or_eq_true, le_iff, le_iff]
  omega

/-- The entries are in ascending order of their first values. -/
theorem first_le_of_le {a b : Interval} (h : le a b = true) :
    a.first ≤ b.first := by
  rw [UInt64.le_iff_toNat_le]
  rw [le_iff] at h
  omega

/-- Two closed intervals meet if each starts before the other ends. -/
theorem overlaps_eq_true_iff {i : Interval} {low high : UInt64} :
    i.overlaps low high = true ↔ i.first ≤ high ∧ low ≤ i.last := by
  simp [overlaps]

end Interval

-- ===================================================== running maximum

namespace IntervalIndex

private theorem left_le_max (a b : UInt64) : a ≤ max a b := by
  show a ≤ if a ≤ b then b else a
  split
  · assumption
  · exact UInt64.le_refl _

private theorem right_le_max (a b : UInt64) : b ≤ max a b := by
  show b ≤ if a ≤ b then b else a
  split
  · exact UInt64.le_refl _
  · next h => exact UInt64.le_of_lt (UInt64.not_le.1 h)

/-- The running maximum stays at or above where it began. -/
theorem top_le_runningMax {top m : UInt64} {values : List UInt64} {i : Nat}
    (hm : (runningMax top values)[i]? = some m) : top ≤ m := by
  induction values generalizing top i with
  | nil => simp [runningMax] at hm
  | cons v rest ih =>
    have hle := left_le_max top v
    cases i with
    | zero =>
      obtain rfl : max top v = m := by simpa [runningMax] using hm
      exact hle
    | succ i => exact UInt64.le_trans hle (ih hm)

/-- The running maximum only grows. -/
theorem runningMax_mono {top l m : UInt64} {values : List UInt64}
    {i j : Nat} (hij : i ≤ j) (hl : (runningMax top values)[i]? = some l)
    (hm : (runningMax top values)[j]? = some m) : l ≤ m := by
  induction values generalizing top i j with
  | nil => simp [runningMax] at hm
  | cons v rest ih =>
    cases i with
    | succ i =>
      cases j with
      | zero => omega
      | succ j => exact ih (Nat.le_of_succ_le_succ hij) hl hm
    | zero =>
      obtain rfl : max top v = l := by simpa [runningMax] using hl
      cases j with
      | zero =>
        obtain rfl : max top v = m := by simpa [runningMax] using hm
        exact UInt64.le_refl _
      | succ j =>
        have hrest : (runningMax (max top v) rest)[j]? = some m := hm
        exact top_le_runningMax hrest

/-- The running maximum is at or above every value it ran over. -/
theorem le_runningMax {top x m : UInt64} {values : List UInt64} {i : Nat}
    (hx : values[i]? = some x)
    (hm : (runningMax top values)[i]? = some m) : x ≤ m := by
  induction values generalizing top i with
  | nil => cases hx
  | cons v rest ih =>
    cases i with
    | succ i => exact ih hx hm
    | zero =>
      obtain rfl : v = x := by simpa using hx
      obtain rfl : max top v = m := by simpa [runningMax] using hm
      exact right_le_max top v

theorem length_runningMax (top : UInt64) (values : List UInt64) :
    (runningMax top values).length = values.length := by
  induction values generalizing top with
  | nil => rfl
  | cons v rest ih => simp [runningMax, ih]

-- ============================================================= queries

/-- The entries of an index, in order. -/
def sortedEntries (intervals : List Interval) : List Interval :=
  intervals.mergeSort Interval.le

/-- The greatest last values up to each entry of an index. -/
def maxima (intervals : List Interval) : List UInt64 :=
  runningMax 0 ((sortedEntries intervals).map (·.last))

/-- The number of entries that begin at or before `high`. -/
def upperEnd (intervals : List Interval) (high : UInt64) : Nat :=
  partitionPoint (fun i => decide (i.first ≤ high))
    (sortedEntries intervals).toArray (sortedEntries intervals).length

/-- The number of those entries up to which everything ends before
`low`. -/
def lowerEnd (intervals : List Interval) (low high : UInt64) : Nat :=
  partitionPoint (fun m => decide (m < low)) (maxima intervals).toArray
    (upperEnd intervals high)

theorem sortedEntries_perm (intervals : List Interval) :
    (sortedEntries intervals).Perm intervals :=
  List.mergeSort_perm _ _

theorem length_maxima (intervals : List Interval) :
    (maxima intervals).length = (sortedEntries intervals).length := by
  simp [maxima, length_runningMax]

/-- The first of the two searches of a query. -/
theorem partitionPoint_build (intervals : List Interval) (high : UInt64) :
    partitionPoint (fun i : Interval => decide (i.first ≤ high))
      (build intervals).entries (build intervals).entries.size
        = upperEnd intervals high := by
  simp [upperEnd, build, sortedEntries]

/-- What an index looks at lies between the two ends. -/
theorem overlapping_build_between (intervals : List Interval)
    (low high : UInt64) :
    (build intervals).overlapping low high =
      ((((sortedEntries intervals).drop (lowerEnd intervals low high)).take
          (upperEnd intervals high - lowerEnd intervals low high)).filter
        fun i => decide (low ≤ i.last)).map (·.id) := by
  simp only [overlapping, partitionPoint_build]
  simp only [build, Array.toList_extract, List.extract_eq_take_drop]
  rfl

/-- What begins at or before `high` stands before what does not. -/
private theorem holdsUpTo_first (intervals : List Interval) (high : UInt64)
    (limit : Nat) :
    HoldsUpTo (fun i : Interval => decide (i.first ≤ high))
      (sortedEntries intervals).toArray limit := by
  intro i j x y hij _ hx hy hle
  rw [List.getElem?_toArray] at hx hy
  rw [decide_eq_true_eq] at *
  rcases Nat.eq_or_lt_of_le hij with rfl | hlt
  · obtain rfl := Option.some_inj.1 (hx.symm.trans hy)
    exact hle
  · have hsorted := List.pairwise_iff_getElem.1
      (List.pairwise_mergeSort Interval.le_trans Interval.le_total intervals)
    obtain ⟨hi, rfl⟩ := List.getElem?_eq_some_iff.1 hx
    obtain ⟨hj, rfl⟩ := List.getElem?_eq_some_iff.1 hy
    exact UInt64.le_trans
      (Interval.first_le_of_le (hsorted i j hi hj hlt)) hle

/-- The places where the running maximum is below `low` come first. -/
private theorem holdsUpTo_max (intervals : List Interval) (low : UInt64)
    (limit : Nat) :
    HoldsUpTo (fun m : UInt64 => decide (m < low))
      (maxima intervals).toArray limit := by
  intro i j x y hij _ hx hy hlt
  rw [List.getElem?_toArray] at hx hy
  rw [decide_eq_true_eq] at *
  exact UInt64.lt_of_le_of_lt (runningMax_mono hij hx hy) hlt

/-- A filter loses nothing when what it refuses is cut off at both
ends. -/
private theorem filter_eq_filter_between {α : Type} {p : α → Bool}
    {xs : List α} {low high : Nat} (hle : low ≤ high)
    (hbelow : ∀ i x, xs[i]? = some x → i < low → p x = false)
    (habove : ∀ i x, xs[i]? = some x → high ≤ i → p x = false) :
    xs.filter p = ((xs.drop low).take (high - low)).filter p := by
  have hsplit : xs = xs.take low
      ++ ((xs.drop low).take (high - low) ++ xs.drop high) := by
    have hdrop : xs.drop high = (xs.drop low).drop (high - low) := by
      rw [List.drop_drop, Nat.add_sub_cancel' hle]
    rw [hdrop, List.take_append_drop, List.take_append_drop]
  have hhead : (xs.take low).filter p = [] := by
    rw [List.filter_eq_nil_iff]
    intro x hx
    obtain ⟨i, hi⟩ := List.mem_iff_getElem?.1 hx
    rw [List.getElem?_take] at hi
    split at hi
    · next hlt => simp [hbelow i x hi hlt]
    · cases hi
  have htail : (xs.drop high).filter p = [] := by
    rw [List.filter_eq_nil_iff]
    intro x hx
    obtain ⟨i, hi⟩ := List.mem_iff_getElem?.1 hx
    rw [List.getElem?_drop] at hi
    simp [habove _ x hi (Nat.le_add_right _ _)]
  conv => lhs; rw [hsplit]
  rw [List.filter_append, List.filter_append, hhead, htail,
    List.nil_append, List.append_nil]

/-- Up to the upper end entries begin at or before `high`, and from there
on after it. -/
theorem upperEnd_spec (intervals : List Interval) (high : UInt64) :
    upperEnd intervals high ≤ (sortedEntries intervals).length ∧
      ∀ i x, (sortedEntries intervals)[i]? = some x →
        (i < upperEnd intervals high ↔ x.first ≤ high) := by
  obtain ⟨hle, hspec⟩ := partitionPoint_spec
    (holdsUpTo_first intervals high (sortedEntries intervals).length)
    (by simp)
  refine ⟨hle, fun i x hx => ?_⟩
  obtain ⟨hbelow, habove⟩ := hspec i x (by simpa using hx)
  have hlt := (List.getElem?_eq_some_iff.1 hx).1
  constructor
  · exact fun hi => of_decide_eq_true (hbelow hi)
  · intro hfirst
    refine Classical.byContradiction fun hi => ?_
    exact of_decide_eq_false (habove (Nat.not_lt.1 hi) hlt) hfirst

/-- Entries up to the lower end overlap nothing from `low` on. -/
theorem last_lt_of_lt_lowerEnd {intervals : List Interval}
    {low high : UInt64} {i : Nat} {x : Interval}
    (hx : (sortedEntries intervals)[i]? = some x)
    (hi : i < lowerEnd intervals low high) : x.last < low := by
  have hupper := (upperEnd_spec intervals high).1
  obtain ⟨-, hspec⟩ := partitionPoint_spec
    (holdsUpTo_max intervals low (upperEnd intervals high))
    (by simpa [length_maxima] using hupper)
  have hlt : i < (maxima intervals).length := by
    rw [length_maxima]
    exact (List.getElem?_eq_some_iff.1 hx).1
  have hm := List.getElem?_eq_getElem hlt
  have hsmall := (hspec i _ (List.getElem?_toArray.trans hm)).1 hi
  have hle : x.last ≤ (maxima intervals)[i] :=
    le_runningMax (by simp [hx]) hm
  exact UInt64.lt_of_le_of_lt hle (of_decide_eq_true hsmall)

/-- The slice that is searched begins before it ends: its bounds are indices in
this order, for any question. -/
theorem lowerEnd_le (intervals : List Interval) (low high : UInt64) :
    lowerEnd intervals low high ≤ upperEnd intervals high := by
  have hupper := (upperEnd_spec intervals high).1
  exact (partitionPoint_spec
    (holdsUpTo_max intervals low (upperEnd intervals high))
    (by simpa [length_maxima] using hupper)).1

/-- What an index finds, in the order of its entries. -/
theorem overlapping_build (intervals : List Interval) (low high : UInt64) :
    (build intervals).overlapping low high =
      ((sortedEntries intervals).filter fun i => i.overlaps low high).map
        (·.id) := by
  obtain ⟨-, hupper⟩ := upperEnd_spec intervals high
  have hbelow : ∀ i x, (sortedEntries intervals)[i]? = some x →
      i < lowerEnd intervals low high → x.overlaps low high = false := by
    intro i x hx hi
    rw [← Bool.not_eq_true, Interval.overlaps_eq_true_iff]
    exact fun h => UInt64.not_lt.2 h.2 (last_lt_of_lt_lowerEnd hx hi)
  have habove : ∀ i x, (sortedEntries intervals)[i]? = some x →
      upperEnd intervals high ≤ i → x.overlaps low high = false := by
    intro i x hx hi
    rw [← Bool.not_eq_true, Interval.overlaps_eq_true_iff]
    exact fun h => Nat.not_lt.2 hi ((hupper i x hx).2 h.1)
  -- between the ends, to end late enough is all there is to overlapping
  have hbetween : ∀ x ∈ ((sortedEntries intervals).drop
        (lowerEnd intervals low high)).take
          (upperEnd intervals high - lowerEnd intervals low high),
      decide (low ≤ x.last) = x.overlaps low high := by
    intro x hx
    obtain ⟨i, hi⟩ := List.mem_iff_getElem?.1 hx
    rw [List.getElem?_take] at hi
    split at hi
    · next hlt =>
      rw [List.getElem?_drop] at hi
      have hearly := (hupper _ x hi).1 (by omega)
      simp [Interval.overlaps, hearly]
    · cases hi
  rw [overlapping_build_between, List.filter_congr hbetween,
    filter_eq_filter_between (lowerEnd_le intervals low high) hbelow habove]

/-- Each interval that overlaps is found once, and no other is found. -/
theorem overlapping_build_perm (intervals : List Interval)
    (low high : UInt64) :
    ((build intervals).overlapping low high).Perm
      ((intervals.filter fun i => i.overlaps low high).map (·.id)) := by
  rw [overlapping_build]
  exact ((sortedEntries_perm intervals).filter _).map _

/-- An index of any intervals, nested, repeated or in any order, finds what
a look at each of them would find, each as often as it is there. The
slices that it cuts for this, of the maxima up to `upper` and of the
entries from `lower` to `upper`, lie inside what they are cut from. -/
theorem overlapping_bruteForce (intervals : List Interval)
    (low high : UInt64) :
    let index := build intervals
    let upper := partitionPoint (fun i : Interval => decide (i.first ≤ high))
      index.entries index.entries.size
    let lower := partitionPoint (fun m => decide (m < low)) index.maxLast
      upper
    index.overlapping low high =
        ((index.entries.extract lower upper).toList.filter
          fun i => decide (low ≤ i.last)).map (·.id) ∧
      upper ≤ index.maxLast.size ∧ lower ≤ upper ∧
      upper ≤ index.entries.size ∧
      (index.overlapping low high).Perm
        ((intervals.filter
          fun i => decide (i.first ≤ high ∧ low ≤ i.last)).map (·.id)) := by
  intro index upper lower
  have hupper : upper = upperEnd intervals high := partitionPoint_build ..
  have hlower : lower = lowerEnd intervals low high := by
    simp only [lower, hupper]
    rfl
  have hentries : upper ≤ index.entries.size :=
    hupper ▸ (upperEnd_spec intervals high).1
  have hmaxima : upper ≤ index.maxLast.size := by
    have hsize : index.maxLast.size = index.entries.size :=
      length_maxima intervals
    exact hsize ▸ hentries
  have horder : lower ≤ upper :=
    hlower ▸ hupper ▸ lowerEnd_le intervals low high
  have hwanted : ∀ i ∈ intervals, i.overlaps low high
      = decide (i.first ≤ high ∧ low ≤ i.last) := by
    intro i _
    rw [Bool.eq_iff_iff, Interval.overlaps_eq_true_iff, decide_eq_true_eq]
  -- the bounds of both slices hold, so no index is out of range
  refine ⟨rfl, hmaxima, horder, hentries, ?_⟩
  rw [← List.filter_congr hwanted]
  exact overlapping_build_perm intervals low high

end IntervalIndex

end DiskAtlas

/-
Finding the intervals that overlap a stretch. The intervals are sorted by
their first values, and beside each stands the greatest last value up to
it. All intervals that overlap `[low, high]` begin at or before `high`,
and the running maximum tells where the first of them can be; both ends
are found by binary search, and only what lies between is looked at.
-/
import DiskAtlas.Word

namespace DiskAtlas

/-- A closed interval and the number by which it is known. -/
structure Interval where
  first : UInt64
  last : UInt64
  id : Nat
  deriving Repr, DecidableEq, Inhabited

namespace Interval

/-- The order by first value, then last value, then number. -/
def le (a b : Interval) : Bool :=
  a.first < b.first
    || (a.first == b.first
      && (a.last < b.last || (a.last == b.last && decide (a.id ≤ b.id))))

/-- Does the interval share a value with `[low, high]`? -/
def overlaps (i : Interval) (low high : UInt64) : Bool :=
  decide (i.first ≤ high) && decide (low ≤ i.last)

end Interval

-- ====================================================== binary search

/-- Between `low` and `high`, the first place where `p` fails, if `p`
holds up to some place and fails from there on. -/
def partitionBetween {α : Type} (p : α → Bool) (xs : Array α)
    (low high : Nat) : Nat :=
  if low < high then
    let middle := low + (high - low) / 2
    match xs[middle]? with
    | none => low
    | some x =>
      if p x then partitionBetween p xs (middle + 1) high
      else partitionBetween p xs low middle
  else low
termination_by high - low

/-- The number of elements before the first of the first `limit` ones
that fails `p`. -/
def partitionPoint {α : Type} (p : α → Bool) (xs : Array α)
    (limit : Nat) : Nat :=
  partitionBetween p xs 0 limit

-- =============================================================== index

/-- Sorted intervals with the running maximum of their last values. -/
structure IntervalIndex where
  entries : Array Interval
  maxLast : Array UInt64
  deriving Repr, DecidableEq, Inhabited

namespace IntervalIndex

/-- The greatest of `top` and the values up to each place. -/
def runningMax (top : UInt64) : List UInt64 → List UInt64
  | [] => []
  | x :: rest => max top x :: runningMax (max top x) rest

def build (intervals : List Interval) : IntervalIndex :=
  let sorted := intervals.mergeSort Interval.le
  ⟨sorted.toArray, (runningMax 0 (sorted.map (·.last))).toArray⟩

/-- The numbers of the intervals that overlap `[low, high]`. -/
def overlapping (index : IntervalIndex) (low high : UInt64) : List Nat :=
  let upper :=
    partitionPoint (fun i => decide (i.first ≤ high)) index.entries
      index.entries.size
  let lower := partitionPoint (fun m => decide (m < low)) index.maxLast upper
  let between := (index.entries.extract lower upper).toList
  (between.filter fun i => decide (low ≤ i.last)).map (·.id)

def size (index : IntervalIndex) : Nat := index.entries.size

end IntervalIndex

end DiskAtlas

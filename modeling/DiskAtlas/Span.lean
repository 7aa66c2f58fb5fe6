/-
Closed spans `[first, last]` of values: byte offsets, inode numbers, sizes,
times and scores are all asked for by spans. A list of spans is one
dimension of a filter. An empty list leaves the dimension out, and a value
that is missing satisfies only a dimension that was left out.
-/
import DiskAtlas.Word

namespace DiskAtlas

/-- The values from `first` to `last`, both included. A span whose last
value comes before its first holds nothing. -/
structure Span (α : Type) where
  first : α
  last : α
  deriving Repr, DecidableEq

namespace Span

variable {α : Type}

def single (value : α) : Span α := ⟨value, value⟩

/-- Every byte offset. -/
def everything : Span UInt64 := ⟨0, maxWord⟩

section Ordered

variable [LE α] [DecidableLE α]

def contains (s : Span α) (value : α) : Bool :=
  decide (s.first ≤ value) && decide (value ≤ s.last)

/-- Does the span share a value with `[first, last]`? -/
def overlaps (s : Span α) (first last : α) : Bool :=
  decide (s.first ≤ last) && decide (first ≤ s.last)

/-- The span between two bounds in either order. -/
def ofBounds [LT α] [DecidableLT α] (a b : α) : Span α :=
  if b < a then ⟨b, a⟩ else ⟨a, b⟩

-- ======================================================== dimensions

def anyContains (spans : List (Span α)) (value : α) : Bool :=
  spans.isEmpty || spans.any (·.contains value)

/-- Does a value that may be missing satisfy the dimension? -/
def anyContainsOpt (spans : List (Span α)) : Option α → Bool
  | some value => anyContains spans value
  | none => spans.isEmpty

/-- Does the stretch `[first, last]` satisfy the dimension? -/
def anyOverlaps (spans : List (Span α)) (first last : α) : Bool :=
  spans.isEmpty || spans.any (·.overlaps first last)

end Ordered

/-- A stretch of offsets is met exactly if some offset lies in both. -/
theorem overlaps_iff {s : Span UInt64} {first last : UInt64}
    (hs : s.first ≤ s.last) (h : first ≤ last) :
    s.overlaps first last = true ↔
      ∃ x, s.contains x = true ∧ first ≤ x ∧ x ≤ last := by
  simp only [overlaps, contains, Bool.and_eq_true, decide_eq_true_eq]
  constructor
  · rintro ⟨hl, hr⟩
    by_cases hle : s.first ≤ first
    · exact ⟨first, ⟨hle, hr⟩, UInt64.le_refl _, h⟩
    · refine ⟨s.first, ⟨UInt64.le_refl _, hs⟩, ?_, hl⟩
      exact UInt64.le_of_lt (UInt64.not_le.1 hle)
  · rintro ⟨x, ⟨hx, hx'⟩, hf, hl⟩
    exact ⟨UInt64.le_trans hx hl, UInt64.le_trans hf hx'⟩

end Span

end DiskAtlas

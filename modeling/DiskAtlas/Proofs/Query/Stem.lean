/-
Which inodes the path dimension lets through. Paths that begin with a stem
stand next to each other in a sorted table, the stem itself before all of
them, so reading from the stem on as long as paths begin with it finds
every such path (`withStem_eq_filter`). An exact pattern is looked up and a
glob is matched against those paths only; either way the inodes found are
those that some accepted path names (`mem_inodesOfPaths`).
-/
import DiskAtlas.Query.Plan
import DiskAtlas.Proofs.SortedMap

namespace DiskAtlas.Query

-- ================================================= order of characters

/-- The order of strings is the order of their characters. -/
theorem compare_string_eq_lt {s t : String} :
    compare s t = .lt ↔ s.toList < t.toList :=
  compareOfLessAndEq_eq_lt

/-- No text stands before its own beginning. -/
theorem not_lt_of_isPrefix {s t : List Char} (h : s <+: t) : ¬ t < s := by
  induction s generalizing t with
  | nil => exact List.not_lt_nil _
  | cons c s ih =>
    obtain ⟨t, rfl⟩ := h
    rw [List.cons_append, List.cons_lt_cons_iff]
    rintro (hc | ⟨-, hlt⟩)
    · exact Nat.lt_irrefl _ hc
    · exact ih (List.prefix_append s t) hlt

/-- What stands between a beginning and a text has that beginning. -/
theorem isPrefix_of_between {stem p q : List Char} (hq : stem <+: q)
    (hstem : ¬ p < stem) (hlt : p < q) : stem <+: p := by
  induction stem generalizing p q with
  | nil => exact List.nil_prefix
  | cons c stem ih =>
    obtain ⟨rest, rfl⟩ := hq
    cases p with
    | nil => exact absurd (List.nil_lt_cons c stem) hstem
    | cons d p =>
      rw [List.cons_lt_cons_iff] at hstem
      rw [List.cons_append, List.cons_lt_cons_iff] at hlt
      rcases hlt with hd | ⟨rfl, hlt⟩
      · exact absurd (Or.inl hd) hstem
      · have hprefix := ih (List.prefix_append stem rest)
          (fun h => hstem (Or.inr ⟨rfl, h⟩)) hlt
        exact List.cons_prefix_cons.2 ⟨rfl, hprefix⟩

-- ========================================================= table scans

/-- Does the path of an entry begin with a stem? -/
def hasStem (stem : String) (e : String × Int64) : Bool :=
  stem.toList.isPrefixOf e.1.toList

/-- A path is in the scanned range if it begins with the stem, letter by
letter. -/
theorem hasStem_eq_true_iff {stem : String} {e : String × Int64} :
    hasStem stem e = true ↔ stem.toList <+: e.1.toList :=
  List.isPrefixOf_iff_prefix

/-- What stands behind a path that is not below the stem is not either. -/
theorem not_below_of_head {stem : String} {e : String × Int64}
    {rest : List (String × Int64)}
    (hsorted : (e :: rest).Pairwise fun a b => compare a.1 b.1 = .lt)
    (he : compare e.1 stem ≠ .lt) :
    ∀ b ∈ e :: rest, compare b.1 stem ≠ .lt := by
  intro b hb hblt
  rcases List.mem_cons.1 hb with rfl | hb
  · exact he hblt
  · exact he (Std.TransCmp.lt_trans
      ((List.pairwise_cons.1 hsorted).1 b hb) hblt)

/-- From the stem on, the entries with the stem come first. -/
private theorem takeWhile_hasStem {stem : String}
    {entries : List (String × Int64)}
    (hsorted : entries.Pairwise fun a b => compare a.1 b.1 = .lt)
    (hstem : ∀ e ∈ entries, compare e.1 stem ≠ .lt) :
    entries.takeWhile (hasStem stem) = entries.filter (hasStem stem) := by
  induction entries with
  | nil => rfl
  | cons e rest ih =>
    obtain ⟨he, hrest⟩ := List.pairwise_cons.1 hsorted
    have ih := ih hrest fun b hb => hstem b (List.mem_cons_of_mem _ hb)
    by_cases h : hasStem stem e = true
    · rw [List.takeWhile_cons_of_pos h, List.filter_cons_of_pos h, ih]
    · rw [List.takeWhile_cons_of_neg h, List.filter_cons_of_neg h, eq_comm,
        List.filter_eq_nil_iff]
      intro b hb hbstem
      have hlow := hstem e List.mem_cons_self
      rw [ne_eq, compare_string_eq_lt] at hlow
      exact h (hasStem_eq_true_iff.2 (isPrefix_of_between
        (hasStem_eq_true_iff.1 hbstem) hlow
        (compare_string_eq_lt.1 (he b hb))))

/-- Reading a sorted table from a stem on finds every entry with it. -/
theorem withStem_eq_filter {stem : String}
    {entries : List (String × Int64)}
    (hsorted : entries.Pairwise fun a b => compare a.1 b.1 = .lt) :
    withStem stem entries = entries.filter (hasStem stem) := by
  induction entries with
  | nil => rfl
  | cons e rest ih =>
    have hrest := (List.pairwise_cons.1 hsorted).2
    by_cases hlt : compare e.1 stem = .lt
    · have hnot : ¬ hasStem stem e = true := fun h =>
        not_lt_of_isPrefix (hasStem_eq_true_iff.1 h)
          (compare_string_eq_lt.1 hlt)
      rw [List.filter_cons_of_neg hnot, ← ih hrest, withStem,
        List.dropWhile_cons_of_pos (by simp [hlt])]
      rfl
    · rw [withStem, List.dropWhile_cons_of_neg (by simp [hlt])]
      exact takeWhile_hasStem hsorted (not_below_of_head hsorted hlt)

-- ============================================================ patterns

/-- A pattern finds the inodes that a path it accepts names. -/
theorem mem_inodesOfPattern {paths : SortedMap String Int64}
    {pattern : PathPattern} {ino : Int64} :
    ino ∈ inodesOfPattern paths pattern ↔
      ∃ path, (path, ino) ∈ paths.entries ∧
        pattern.accepts path = true := by
  cases pattern with
  | exact wanted =>
    simp [inodesOfPattern, PathPattern.accepts, SortedMap.get?_eq_some_iff]
  | glob text tokens stem =>
    rw [inodesOfPattern, withStem_eq_filter paths.sorted]
    simp only [List.mem_map, List.mem_filter, Prod.exists, exists_eq_right,
      PathPattern.accepts, hasStem, Bool.and_eq_true]
    constructor
    · rintro ⟨path, ⟨hentry, -⟩, h⟩
      exact ⟨path, hentry, h⟩
    · rintro ⟨path, hentry, h⟩
      exact ⟨path, ⟨hentry, h.1⟩, h⟩

variable {β : Type}

/-- The path dimension finds the inodes that a path asked for names. -/
theorem mem_inodesOfPaths {s : Store β} {paths : PathFilter} {ino : Int64} :
    ino ∈ inodesOfPaths s paths ↔
      ∃ path, (path, ino) ∈ s.tables.paths.entries ∧
        ∃ pattern ∈ paths.values, pattern.accepts path = true := by
  simp only [inodesOfPaths, List.mem_flatMap, mem_inodesOfPattern]
  constructor
  · rintro ⟨pattern, hpattern, path, hentry, haccepts⟩
    exact ⟨path, hentry, pattern, hpattern, haccepts⟩
  · rintro ⟨path, hentry, pattern, hpattern, haccepts⟩
    exact ⟨pattern, hpattern, path, hentry, haccepts⟩

end DiskAtlas.Query

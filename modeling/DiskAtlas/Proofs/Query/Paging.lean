/-
What a cursor hands out. Looking at a candidate may change the state, but
as long as the state keeps some property the answer is a function of the
candidate alone (`Answers`). Then a cursor stands for a list of rows, the
ones it has found before the ones its candidates still answer with
(`Cursor.remaining`), and every way of asking takes rows off the front of
that list: a search takes as many as it is told (`Answers.search`), filling
takes none (`Answers.fill`), and `n` rows are the first `n`
(`Answers.take`).
-/
import DiskAtlas.Query.Rows

namespace DiskAtlas.Query

variable {γ α σ : Type}

namespace Cursor

variable (look : γ → σ → Option α × σ)

-- ================================================================ states

/-- A search keeps what looking keeps. -/
theorem search_keeps {Keeps : σ → Prop}
    (hlook : ∀ c s, Keeps s → Keeps (look c s).2) (limit : Nat)
    (pending : List γ) {s : σ} (hs : Keeps s) :
    Keeps (search look limit pending s).2.2 := by
  induction pending generalizing limit s with
  | nil => cases limit <;> exact hs
  | cons c rest ih =>
    cases limit with
    | zero => exact hs
    | succ limit =>
      have hkept := hlook c s hs
      rw [search]
      split
      · next s' h =>
        rw [h] at hkept
        exact ih (limit + 1) hkept
      · next row s' h =>
        rw [h] at hkept
        exact ih limit hkept

/-- An empty cursor is filled by a search for a page. -/
theorem fill_eq (c : Cursor γ α) (s : σ) :
    c.fill look s =
      if c.found.isEmpty then
        let page := search look c.pageSize c.pending s
        ({ c with found := page.1, pending := page.2.1 }, page.2.2)
      else (c, s) := rfl

/-- The next row is taken off a filled cursor. -/
theorem next_eq (c : Cursor γ α) (s : σ) :
    c.next look s =
      ((c.fill look s).1.found.head?,
        { (c.fill look s).1 with found := (c.fill look s).1.found.tail },
        (c.fill look s).2) := rfl

/-- Filling keeps what looking keeps. -/
theorem fill_keeps {Keeps : σ → Prop}
    (hlook : ∀ c s, Keeps s → Keeps (look c s).2) (c : Cursor γ α) {s : σ}
    (hs : Keeps s) : Keeps (c.fill look s).2 := by
  rw [fill_eq]
  split
  · exact search_keeps look hlook c.pageSize c.pending hs
  · exact hs

/-- Where no candidates are left, nothing is looked at. -/
theorem fill_of_pending_nil {c : Cursor γ α} (hc : c.pending = []) (s : σ) :
    (c.fill look s).1.pending = [] ∧ (c.fill look s).2 = s := by
  have hsearch : ∀ limit, search look limit [] s = ([], [], s) := by
    intro limit
    cases limit <;> rfl
  rw [fill_eq, hc, hsearch]
  split
  · exact ⟨rfl, rfl⟩
  · exact ⟨hc, rfl⟩

end Cursor

-- ============================================================== answers

/-- The answer of a candidate is the same in every state with a property,
and looking keeps the property. -/
structure Answers (look : γ → σ → Option α × σ) (Keeps : σ → Prop)
    (answer : γ → Option α) : Prop where
  row : ∀ c s, Keeps s → (look c s).1 = answer c
  keeps : ∀ c s, Keeps s → Keeps (look c s).2

/-- The rows that a cursor has still to hand out. -/
def Cursor.remaining (answer : γ → Option α) (c : Cursor γ α) : List α :=
  c.found ++ c.pending.filterMap answer

namespace Answers

variable {look : γ → σ → Option α × σ} {Keeps : σ → Prop}
  {answer : γ → Option α}

-- ============================================================ searching

/-- A search finds the first rows of its candidates and leaves the
others. -/
theorem search (h : Answers look Keeps answer) (limit : Nat)
    (pending : List γ) {s : σ} (hs : Keeps s) :
    (Cursor.search look limit pending s).1
        = (pending.filterMap answer).take limit ∧
      (Cursor.search look limit pending s).2.1.filterMap answer
        = (pending.filterMap answer).drop limit := by
  induction pending generalizing limit s with
  | nil => cases limit <;> exact ⟨rfl, rfl⟩
  | cons c rest ih =>
    cases limit with
    | zero => exact ⟨rfl, rfl⟩
    | succ limit =>
      have hrow := h.row c s hs
      have hkeeps := h.keeps c s hs
      rw [Cursor.search]
      split
      · next s' hlook =>
        rw [hlook] at hrow hkeeps
        rw [List.filterMap_cons_none hrow.symm]
        exact ih (limit + 1) hkeeps
      · next row s' hlook =>
        rw [hlook] at hrow hkeeps
        obtain ⟨hfound, hleft⟩ := ih limit hkeeps
        rw [List.filterMap_cons_some hrow.symm, List.take_succ_cons,
          List.drop_succ_cons]
        exact ⟨congrArg (row :: ·) hfound, hleft⟩

-- ============================================================== filling

/-- Filling hands nothing out, and nothing is found by it only if nothing
remains. -/
theorem fill (h : Answers look Keeps answer) {c : Cursor γ α} {s : σ}
    (hpage : 0 < c.pageSize) (hs : Keeps s) :
    (c.fill look s).1.remaining answer = c.remaining answer ∧
      ((c.fill look s).1.found = [] → c.remaining answer = []) ∧
      (c.fill look s).1.pageSize = c.pageSize := by
  obtain ⟨hfound, hleft⟩ := h.search c.pageSize c.pending hs
  rw [Cursor.fill_eq]
  split
  · next hempty =>
    have hnil : c.found = [] := List.isEmpty_iff.1 hempty
    refine ⟨?_, fun hnone => ?_, rfl⟩
    · simp only [Cursor.remaining, hnil, List.nil_append, hfound, hleft,
        List.take_append_drop]
    · -- a page holds a row, so an empty page is the last one
      replace hnone : (Cursor.search look c.pageSize c.pending s).1 = [] :=
        hnone
      rw [hfound, List.take_eq_nil_iff] at hnone
      rw [Cursor.remaining, hnil, List.nil_append]
      exact hnone.resolve_left (Nat.ne_of_gt hpage)
  · next hsome =>
    refine ⟨rfl, fun hnone => ?_, rfl⟩
    exact absurd (List.isEmpty_iff.2 hnone) hsome

/-- The next row is the first that remains. -/
theorem next (h : Answers look Keeps answer) {c : Cursor γ α} {s : σ}
    (hpage : 0 < c.pageSize) (hs : Keeps s) :
    (c.next look s).1 = (c.remaining answer).head? ∧
      (c.next look s).2.1.remaining answer = (c.remaining answer).tail ∧
      (c.next look s).2.1.pageSize = c.pageSize ∧
      Keeps (c.next look s).2.2 := by
  obtain ⟨hsame, hnone, hsize⟩ := h.fill hpage hs
  have hkept := c.fill_keeps look h.keeps hs
  rw [Cursor.next_eq]
  cases hfound : (c.fill look s).1.found with
  | nil =>
    have hnil := hnone hfound
    rw [hnil] at hsame ⊢
    rw [Cursor.remaining, hfound, List.nil_append] at hsame
    refine ⟨rfl, ?_, hsize, hkept⟩
    rw [Cursor.remaining, hsame]
    rfl
  | cons row rest =>
    rw [Cursor.remaining, hfound] at hsame
    rw [← hsame]
    exact ⟨rfl, rfl, hsize, hkept⟩

-- =============================================================== taking

/-- Taking `n` rows takes the first `n` that remain. -/
theorem take (h : Answers look Keeps answer) (n : Nat) {c : Cursor γ α}
    {s : σ} (hpage : 0 < c.pageSize) (hs : Keeps s) :
    (Cursor.take look n c s).1 = (c.remaining answer).take n ∧
      (Cursor.take look n c s).2.1.remaining answer
        = (c.remaining answer).drop n ∧
      Keeps (Cursor.take look n c s).2.2 := by
  induction n generalizing c s with
  | zero => exact ⟨rfl, rfl, hs⟩
  | succ n ih =>
    obtain ⟨hrow, hrest, hsize, hkept⟩ := h.next hpage hs
    rw [Cursor.take]
    split
    · next c' s' hnext =>
      rw [hnext] at hrow hrest hkept
      have hnil : c.remaining answer = [] :=
        List.head?_eq_none_iff.1 hrow.symm
      rw [hnil] at hrest ⊢
      exact ⟨rfl, hrest, hkept⟩
    · next row c' s' hnext =>
      rw [hnext] at hrow hrest hsize hkept
      obtain ⟨rest, hcons⟩ := List.head?_eq_some_iff.1 hrow.symm
      rw [hcons, List.tail_cons] at hrest
      obtain ⟨htake, hdrop, hkeeps⟩ := ih (hsize ▸ hpage) hkept
      rw [hcons, List.take_succ_cons, List.drop_succ_cons, ← hrest]
      exact ⟨congrArg (row :: ·) htake, hdrop, hkeeps⟩

end Answers

end DiskAtlas.Query

/-
Asking for rows and pages in turn. Whoever reads an answer asks for the
next row or for the rest of the page, in any order. States that answer
every candidate alike, and go on doing so, cannot be told apart by asking
(`Agree.told`), so what is told depends on nothing but the answers of the
candidates (`Answers.told_eq`). Where no candidates are left there is
nothing to tell (`told_of_none_left`).

Both cursors are followed with one relation between their states. That a
search stops with enough rows, and not at a certain candidate, is why the
relation has to be kept by each look and not only at the end of a page.
-/
import DiskAtlas.Proofs.Query.Paging

namespace DiskAtlas.Query

/-- A question to a cursor. -/
inductive Question where
  | row
  | page
  deriving Repr, DecidableEq

variable {γ δ α σ τ : Type}

namespace Cursor

variable (look : γ → σ → Option α × σ)

/-- What is told to a question, and the cursor and the state after it. -/
def ask (c : Cursor γ α) (s : σ) : Question → List α × Cursor γ α × σ
  | .row =>
    let (row, c, s) := c.next look s
    (row.toList, c, s)
  | .page =>
    let (page, c, s) := c.nextPage look s
    (page.getD [], c, s)

/-- What is told to some questions, one after the other. -/
def told : List Question → Cursor γ α → σ → List (List α)
  | [], _, _ => []
  | question :: rest, c, s =>
    let (rows, c, s) := c.ask look s question
    rows :: told rest c s

/-- A question is answered from the cursor when it is filled. -/
theorem ask_eq (c : Cursor γ α) (s : σ) (question : Question) :
    c.ask look s question =
      let filled := (c.fill look s).1
      let state := (c.fill look s).2
      match question with
      | .row =>
        (filled.found.head?.toList, { filled with found := filled.found.tail },
          state)
      | .page => (filled.found, { filled with found := [] }, state) := by
  unfold ask nextPage next
  generalize c.fill look s = filled
  obtain ⟨⟨pageSize, pending, found⟩, state⟩ := filled
  cases question with
  | row => rfl
  | page => cases found <;> rfl

/-- Nothing is told where nothing is left. -/
theorem told_of_none_left (questions : List Question) {c : Cursor γ α}
    (hfound : c.found = []) (hpending : c.pending = []) (s : σ) :
    told look questions c s = questions.map fun _ => [] := by
  induction questions generalizing c s with
  | nil => rfl
  | cons question rest ih =>
    obtain ⟨hleft, -⟩ := fill_of_pending_nil look hpending s
    have hnone : (c.fill look s).1.found = [] := by
      rw [fill_eq, hpending]
      split
      · cases c.pageSize <;> rfl
      · exact hfound
    rw [told, ask_eq, List.map_cons]
    cases question with
    | row =>
      dsimp only
      rw [hnone]
      refine congrArg ([] :: ·) (ih ?_ ?_ _)
      · rfl
      · exact hleft
    | page =>
      dsimp only
      rw [hnone]
      refine congrArg ([] :: ·) (ih ?_ ?_ _)
      · rfl
      · exact hleft

/-- So cursors with nothing left cannot be told apart, whatever they look
at. -/
theorem told_congr_of_none_left (questions : List Question) {c : Cursor γ α}
    {c' : Cursor δ α} (look' : δ → τ → Option α × τ) (hfound : c.found = [])
    (hpending : c.pending = []) (hfound' : c'.found = [])
    (hpending' : c'.pending = []) (s : σ) (t : τ) :
    told look' questions c' t = told look questions c s := by
  rw [told_of_none_left look' questions hfound' hpending',
    told_of_none_left look questions hfound hpending]

end Cursor

-- ============================================================= agreement

/-- Two ways of looking that give the same answers in states that belong
together, and leave states that belong together. -/
def Agree (R : σ → τ → Prop) (look : γ → σ → Option α × σ)
    (look' : γ → τ → Option α × τ) : Prop :=
  ∀ c s t, R s t → (look c s).1 = (look' c t).1 ∧
    R (look c s).2 (look' c t).2

namespace Agree

variable {R : σ → τ → Prop} {look : γ → σ → Option α × σ}
  {look' : γ → τ → Option α × τ}

/-- Searches that agree on every candidate find the same rows and leave
the same candidates. -/
theorem search (h : Agree R look look') (limit : Nat) (pending : List γ)
    {s : σ} {t : τ} (hst : R s t) :
    (Cursor.search look limit pending s).1
        = (Cursor.search look' limit pending t).1 ∧
      (Cursor.search look limit pending s).2.1
        = (Cursor.search look' limit pending t).2.1 ∧
      R (Cursor.search look limit pending s).2.2
        (Cursor.search look' limit pending t).2.2 := by
  induction pending generalizing limit s t with
  | nil => cases limit <;> exact ⟨rfl, rfl, hst⟩
  | cons c rest ih =>
    cases limit with
    | zero => exact ⟨rfl, rfl, hst⟩
    | succ limit =>
      obtain ⟨hrow, hleft⟩ := h c s t hst
      rw [Cursor.search, Cursor.search]
      generalize look c s = looked at hrow hleft
      generalize look' c t = looked' at hrow hleft
      obtain ⟨row, s'⟩ := looked
      obtain ⟨row', t'⟩ := looked'
      obtain rfl : row = row' := hrow
      cases row with
      | none => exact ih (limit + 1) hleft
      | some row =>
        obtain ⟨hfound, hpending, hstates⟩ := ih limit hleft
        exact ⟨congrArg (row :: ·) hfound, hpending, hstates⟩

/-- Two cursors that look alike find the same rows for their next page, and
leave their states related. -/
theorem fill (h : Agree R look look') (c : Cursor γ α) {s : σ} {t : τ}
    (hst : R s t) :
    (c.fill look s).1 = (c.fill look' t).1 ∧
      R (c.fill look s).2 (c.fill look' t).2 := by
  obtain ⟨hfound, hpending, hstates⟩ :=
    h.search c.pageSize c.pending hst
  rw [Cursor.fill_eq, Cursor.fill_eq]
  split
  · dsimp only
    rw [hfound, hpending]
    exact ⟨rfl, hstates⟩
  · exact ⟨rfl, hst⟩

/-- The same is told where the ways of looking agree. -/
theorem told (h : Agree R look look') (questions : List Question)
    (c : Cursor γ α) {s : σ} {t : τ} (hst : R s t) :
    c.told look questions s = c.told look' questions t := by
  induction questions generalizing c s t with
  | nil => rfl
  | cons question rest ih =>
    obtain ⟨hfill, hstates⟩ := h.fill c hst
    rw [Cursor.told, Cursor.told, Cursor.ask_eq, Cursor.ask_eq, hfill]
    cases question with
    | row => exact congrArg (_ :: ·) (ih _ hstates)
    | page => exact congrArg (_ :: ·) (ih _ hstates)

end Agree

namespace Answers

variable {look : γ → σ → Option α × σ} {look' : γ → τ → Option α × τ}
  {Keeps : σ → Prop} {Keeps' : τ → Prop} {answer : γ → Option α}

/-- Candidates that are answered by one function are agreed on. -/
theorem agree (h : Answers look Keeps answer)
    (h' : Answers look' Keeps' answer) :
    Agree (fun s t => Keeps s ∧ Keeps' t) look look' :=
  fun c s t hst =>
    ⟨(h.row c s hst.1).trans (h'.row c t hst.2).symm,
      h.keeps c s hst.1, h'.keeps c t hst.2⟩

/-- The same is told where candidates are answered alike. -/
theorem told_eq (h : Answers look Keeps answer)
    (h' : Answers look' Keeps' answer) (questions : List Question)
    (c : Cursor γ α) {s : σ} {t : τ} (hs : Keeps s) (ht : Keeps' t) :
    c.told look questions s = c.told look' questions t :=
  (h.agree h').told questions c ⟨hs, ht⟩

-- ================================================================ views

section Views

variable {δ α' ε : Type} {look : γ → σ → Option α × σ}
  {look' : δ → τ → Option α' × τ} {answer' : δ → Option α'}

/-- Two cursors, over candidates of different kinds even, from which the
same rows are still to come as far as one looks at some part of a row. -/
structure Level (answer : γ → Option α) (answer' : δ → Option α')
    (view : α → ε) (view' : α' → ε) (c : Cursor γ α) (c' : Cursor δ α') :
    Prop where
  pageSize : c'.pageSize = c.pageSize
  found : c'.found.map view' = c.found.map view
  pending : (c'.pending.filterMap answer').map view'
    = (c.pending.filterMap answer).map view

variable {view : α → ε} {view' : α' → ε}

/-- Filling keeps cursors level. -/
theorem Level.fill (h : Answers look Keeps answer)
    (h' : Answers look' Keeps' answer') {c : Cursor γ α} {c' : Cursor δ α'}
    {s : σ} {t : τ} (hs : Keeps s) (ht : Keeps' t)
    (hlevel : Level answer answer' view view' c c') :
    Level answer answer' view view' (c.fill look s).1
      (c'.fill look' t).1 := by
  obtain ⟨hsize, hfound, hpending⟩ := hlevel
  obtain ⟨htake, hleft⟩ := h.search c.pageSize c.pending hs
  obtain ⟨htake', hleft'⟩ := h'.search c'.pageSize c'.pending ht
  have hempty : c'.found.isEmpty = c.found.isEmpty := by
    rw [← List.isEmpty_map (f := view'), hfound, List.isEmpty_map]
  rw [Cursor.fill_eq, Cursor.fill_eq, hempty]
  split
  · refine ⟨hsize, ?_, ?_⟩
    · dsimp only
      rw [htake, htake', List.map_take, List.map_take, hpending, hsize]
    · dsimp only
      rw [hleft, hleft', List.map_drop, List.map_drop, hpending, hsize]
  · exact ⟨hsize, hfound, hpending⟩

/-- The same part of every row is told by cursors that are level. -/
theorem told_level (h : Answers look Keeps answer)
    (h' : Answers look' Keeps' answer') (questions : List Question)
    {c : Cursor γ α} {c' : Cursor δ α'} {s : σ} {t : τ} (hs : Keeps s)
    (ht : Keeps' t) (hlevel : Level answer answer' view view' c c') :
    (c'.told look' questions t).map (List.map view')
      = (c.told look questions s).map (List.map view) := by
  induction questions generalizing c c' s t with
  | nil => rfl
  | cons question rest ih =>
    obtain ⟨hsize, hfound, hpending⟩ := hlevel.fill h h' hs ht
    have hkept := c.fill_keeps look h.keeps hs
    have hkept' := c'.fill_keeps look' h'.keeps ht
    rw [Cursor.told, Cursor.told, Cursor.ask_eq, Cursor.ask_eq]
    cases question with
    | row =>
      have hhead := congrArg (·.head?.toList) hfound
      have htail := congrArg List.tail hfound
      simp only [List.head?_map, ← List.map_tail, Option.toList_map]
        at hhead htail
      refine List.cons_eq_cons.2 ⟨hhead, ?_⟩
      exact ih hkept hkept' ⟨hsize, htail, hpending⟩
    | page =>
      refine List.cons_eq_cons.2 ⟨hfound, ?_⟩
      exact ih hkept hkept' ⟨hsize, rfl, hpending⟩

end Views

end Answers

-- =============================================================== all rows

/-- Every row that a cursor still hands out. -/
def Cursor.all (look : γ → σ → Option α × σ) (c : Cursor γ α) (s : σ) :
    List α :=
  (c.take look c.bound s).1

/-- There are no more rows than the bound says. -/
theorem Answers.all {look : γ → σ → Option α × σ} {Keeps : σ → Prop}
    {answer : γ → Option α} (h : Answers look Keeps answer)
    {c : Cursor γ α} {s : σ} (hpage : 0 < c.pageSize) (hs : Keeps s) :
    c.all look s = c.remaining answer := by
  obtain ⟨htake, -⟩ := h.take c.bound hpage hs
  refine htake.trans (List.take_of_length_le ?_)
  rw [Cursor.remaining, List.length_append, Cursor.bound]
  exact Nat.add_le_add_left (List.length_filterMap_le _ _) _

end DiskAtlas.Query

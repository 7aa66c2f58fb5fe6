/-
Rows and pages in turn. Whoever reads an answer is given the next row or
the rest of a page, or is told that there is nothing left. Looking at a
candidate may change the state in any way, but the candidates are looked
at in their order and each once, however one asks; so a cursor has a fixed
list of rows left (`Cursor.left`). Every reply takes rows off the front of
that list (`HandsOut.reply`), at least one and no more than a page, and is
empty only if the list is. What is handed out by any number of replies
follows (`Cursor.paged_replies`).
-/
import DiskAtlas.Proofs.Query.Asking

namespace DiskAtlas.Query

variable {γ α σ : Type}

namespace Cursor

variable (look : γ → σ → Option α × σ)

-- =============================================================== replies

/-- What is handed out for a question, unless nothing is left. A row is
handed out as a page of its own. -/
def reply (c : Cursor γ α) (s : σ) :
    Question → Option (List α) × Cursor γ α × σ
  | .row =>
    let (row, c, s) := c.next look s
    (row.map fun r => [r], c, s)
  | .page => c.nextPage look s

/-- The replies to some questions, one after the other. -/
def replies : List Question → Cursor γ α → σ → List (Option (List α))
  | [], _, _ => []
  | question :: rest, c, s =>
    let (page, c, s) := c.reply look s question
    page :: replies rest c s

/-- A question is replied to from the cursor when it is filled. -/
theorem reply_eq (c : Cursor γ α) (s : σ) (question : Question) :
    c.reply look s question =
      let filled := (c.fill look s).1
      let state := (c.fill look s).2
      match question with
      | .row =>
        (filled.found.head?.map fun r => [r],
          { filled with found := filled.found.tail }, state)
      | .page =>
        (if filled.found.isEmpty then none else some filled.found,
          { filled with found := [] }, state) := by
  unfold reply nextPage next
  cases question with
  | row => rfl
  | page => rfl

-- ============================================================= rows left

/-- The rows that candidates are answered with, looked at one after the
other. -/
def answered : List γ → σ → List α
  | [], _ => []
  | c :: rest, s =>
    match look c s with
    | (none, s) => answered rest s
    | (some row, s) => row :: answered rest s

/-- The rows that a cursor has still to hand out. -/
def left (c : Cursor γ α) (s : σ) : List α :=
  c.found ++ answered look c.pending s

/-- A cursor whose pages have room for a row, and that has found no more
rows than a page has room for. -/
structure HasRoom (c : Cursor γ α) : Prop where
  pos : 0 < c.pageSize
  found_le : c.found.length ≤ c.pageSize

theorem HasRoom.fresh {c : Cursor γ α} (hpos : 0 < c.pageSize)
    (hfound : c.found = []) : c.HasRoom :=
  ⟨hpos, hfound ▸ Nat.zero_le _⟩

/-- A search finds the first rows of its candidates, as many as it is told
unless the candidates run out. -/
theorem answered_search (limit : Nat) (pending : List γ) (s : σ) :
    let page := search look limit pending s
    answered look pending s = page.1 ++ answered look page.2.1 page.2.2 ∧
      page.1.length ≤ limit ∧ (page.1.length < limit → page.2.1 = []) := by
  induction pending generalizing limit s with
  | nil =>
    cases limit with
    | zero => exact ⟨rfl, Nat.le_refl _, fun _ => rfl⟩
    | succ limit => exact ⟨rfl, Nat.zero_le _, fun _ => rfl⟩
  | cons c rest ih =>
    cases limit with
    | zero => exact ⟨rfl, Nat.le_refl _, fun h => absurd h (Nat.lt_irrefl _)⟩
    | succ limit =>
      rw [search, answered]
      rcases look c s with ⟨_ | row, s'⟩
      · exact ih (limit + 1) s'
      · obtain ⟨hrows, hle, hout⟩ := ih limit s'
        refine ⟨congrArg (row :: ·) hrows, Nat.succ_le_succ hle, ?_⟩
        intro hless
        exact hout (Nat.lt_of_succ_lt_succ hless)

/-- Filling hands nothing out, and finds a row unless none is left. -/
theorem left_fill {c : Cursor γ α} (hc : c.HasRoom) (s : σ) :
    (c.fill look s).1.left look (c.fill look s).2 = c.left look s ∧
      ((c.fill look s).1.found = [] → c.left look s = []) ∧
      (c.fill look s).1.pageSize = c.pageSize ∧
      (c.fill look s).1.found.length ≤ c.pageSize := by
  obtain ⟨hrows, hle, hout⟩ := answered_search look c.pageSize c.pending s
  rw [fill_eq]
  by_cases hempty : c.found.isEmpty
  · have hnil : c.found = [] := List.isEmpty_iff.1 hempty
    rw [if_pos hempty]
    have hleft : c.left look s = answered look c.pending s := by
      rw [left, hnil, List.nil_append]
    refine ⟨?_, ?_, rfl, hle⟩
    · rw [hleft, hrows]
      rfl
    · intro hnone
      replace hnone : (search look c.pageSize c.pending s).1 = [] := hnone
      rw [hnone, List.nil_append] at hrows
      rw [hleft, hrows, hout]
      · rfl
      · rw [hnone]
        exact hc.pos
  · rw [if_neg hempty]
    refine ⟨rfl, fun hnone => ?_, rfl, hc.found_le⟩
    exact absurd (List.isEmpty_iff.2 hnone) hempty

/-- Where one function answers the candidates, it answers those that are
left. -/
theorem answered_eq {Keeps : σ → Prop} {answer : γ → Option α}
    (h : Answers look Keeps answer) (pending : List γ) {s : σ}
    (hs : Keeps s) : answered look pending s = pending.filterMap answer := by
  induction pending generalizing s with
  | nil => rfl
  | cons c rest ih =>
    have hrow := h.row c s hs
    have hkept := h.keeps c s hs
    rw [answered]
    split
    · next s' hlook =>
      rw [hlook] at hrow hkept
      rw [List.filterMap_cons_none hrow.symm, ih hkept]
    · next row s' hlook =>
      rw [hlook] at hrow hkept
      rw [List.filterMap_cons_some hrow.symm, ih hkept]

end Cursor

-- ============================================================== one reply

/-- What one reply does to the rows that are left: it takes some off the
front, or there are none. -/
structure HandsOut (pageSize : Nat) (question : Question) (rows : List α)
    (reply : Option (List α)) (left : List α) : Prop where
  rows_eq : rows = reply.getD [] ++ left
  none_iff : reply = none ↔ rows = []
  row_length : ∀ page, reply = some page → question = .row →
    page.length = 1
  page_length : ∀ page, reply = some page →
    1 ≤ page.length ∧ page.length ≤ pageSize

variable (look : γ → σ → Option α × σ) {c : Cursor γ α}

/-- One question hands out what the cursor had next: the rows it had left are
those of the reply and those left afterwards. There are as many cases as ways
to leave `reply`. -/
theorem HandsOut.reply (hc : c.HasRoom) (s : σ) (question : Question) :
    let told := c.reply look s question
    HandsOut c.pageSize question (c.left look s) told.1
        (told.2.1.left look told.2.2) ∧
      told.2.1.HasRoom ∧ told.2.1.pageSize = c.pageSize := by
  obtain ⟨hleft, hnone, hsize, hle⟩ := c.left_fill look hc s
  have hpos := hc.pos
  rw [Cursor.reply_eq]
  generalize c.fill look s = filled at hleft hnone hsize hle
  obtain ⟨⟨pageSize, pending, found⟩, state⟩ := filled
  dsimp only at hsize hle hnone
  subst hsize
  rw [← hleft] at hnone ⊢
  cases found with
  | nil =>
    rw [hnone rfl]
    -- nothing was found, so the cursor has looked at all there is
    have hbehind : Cursor.answered look pending state = [] := hnone rfl
    cases question with
    | row =>
      refine ⟨⟨hbehind.symm, ?_, nofun, nofun⟩, ⟨hpos, hle⟩, rfl⟩
      exact ⟨fun _ => rfl, fun _ => rfl⟩
    | page =>
      refine ⟨⟨hbehind.symm, ?_, nofun, nofun⟩, ⟨hpos, hle⟩, rfl⟩
      exact ⟨fun _ => rfl, fun _ => rfl⟩
  | cons row rest =>
    have hsome : (⟨c.pageSize, pending, row :: rest⟩ : Cursor γ α).left look
        state ≠ [] := List.cons_ne_nil _ _
    have hrest := Nat.le_of_succ_le hle
    cases question with
    | row =>
      refine ⟨⟨rfl, ?_, ?_, ?_⟩, ⟨hpos, hrest⟩, rfl⟩
      · exact ⟨nofun, fun h => absurd h hsome⟩
      · intro page hpage _
        obtain rfl := Option.some.inj hpage
        rfl
      · intro page hpage
        obtain rfl := Option.some.inj hpage
        exact ⟨Nat.le_refl _, hpos⟩
    | page =>
      refine ⟨⟨?_, ?_, nofun, ?_⟩, ⟨hpos, Nat.zero_le _⟩, rfl⟩
      · rfl
      · exact ⟨nofun, fun h => absurd h hsome⟩
      · intro page hpage
        obtain rfl := Option.some.inj hpage
        exact ⟨Nat.succ_le_succ (Nat.zero_le _), hle⟩

-- ========================================================== many replies

/-- The rows of some replies, in order. -/
def rowsIn (replies : List (Option (List α))) : List α :=
  replies.flatMap (·.getD [])

theorem rowsIn_cons (reply : Option (List α))
    (replies : List (Option (List α))) :
    rowsIn (reply :: replies) = reply.getD [] ++ rowsIn replies := rfl

theorem rowsIn_append (before behind : List (Option (List α))) :
    rowsIn (before ++ behind) = rowsIn before ++ rowsIn behind :=
  List.flatMap_append

/-- Rows are handed out in replies to some questions: each row once and in
order, a page at a time at most, until nothing is left. -/
structure Paged (rows : List α) (pageSize : Nat)
    (questions : List Question) (replies : List (Option (List α))) :
    Prop where
  length_eq : replies.length = questions.length
  /-- What was handed out are the first rows. -/
  handed : rowsIn replies <+: rows
  /-- No more questions have to be asked than there are rows. -/
  all_handed : rows.length ≤ questions.length → rowsIn replies = rows
  row_length : ∀ (i : Nat) (page : List α), questions[i]? = some .row →
    replies[i]? = some (some page) → page.length = 1
  page_length : ∀ page, some page ∈ replies →
    1 ≤ page.length ∧ page.length ≤ pageSize
  /-- A reply is empty exactly if all rows were handed out before it. -/
  none_iff : ∀ i : Nat, i < questions.length →
    (replies[i]? = some none ↔ rowsIn (replies.take i) = rows)
  none_for_good : ∀ i j : Nat, i ≤ j → j < questions.length →
    replies[i]? = some none → replies[j]? = some none

/-- When all rows were handed out, the replies that follow have none. -/
theorem rowsIn_take_of_le {rows : List α} {replies : List (Option (List α))}
    (handed : rowsIn replies <+: rows) {i j : Nat} (hle : i ≤ j)
    (hall : rowsIn (replies.take i) = rows) :
    rowsIn (replies.take j) = rows := by
  have hearly : rowsIn (replies.take i) <+: rowsIn (replies.take j) := by
    obtain ⟨more, hmore⟩ := List.take_prefix_take_left (l := replies) hle
    rw [← hmore, rowsIn_append]
    exact List.prefix_append _ _
  have hlate : rowsIn (replies.take j) <+: rowsIn replies := by
    obtain ⟨more, hmore⟩ := List.take_prefix j replies
    have hrows := congrArg rowsIn hmore
    rw [rowsIn_append] at hrows
    exact ⟨rowsIn more, hrows⟩
  rw [hall] at hearly
  exact (hlate.trans handed).eq_of_length_le hearly.length_le

theorem Paged.nil (rows : List α) (pageSize : Nat) :
    Paged rows pageSize [] [] where
  length_eq := rfl
  handed := List.nil_prefix
  all_handed := fun hle => (List.length_eq_zero_iff.1 (Nat.le_zero.1 hle)).symm
  row_length := nofun
  page_length := nofun
  none_iff := nofun
  none_for_good := nofun

/-- A reply in front of others takes its rows off the front. -/
theorem Paged.cons {pageSize : Nat} {question : Question}
    {questions : List Question} {rows left : List α}
    {reply : Option (List α)} {replies : List (Option (List α))}
    (first : HandsOut pageSize question rows reply left)
    (others : Paged left pageSize questions replies) :
    Paged rows pageSize (question :: questions) (reply :: replies) := by
  have handed : rowsIn (reply :: replies) <+: rows := by
    rw [first.rows_eq, rowsIn_cons]
    exact (List.prefix_append_right_inj _).2 others.handed
  -- an answer of nothing, at any place, says that all rows came before it
  have none_iff : ∀ i : Nat, i < (question :: questions).length →
      ((reply :: replies)[i]? = some none ↔
        rowsIn ((reply :: replies).take i) = rows) := by
    intro i hi
    cases i with
    | zero =>
      rw [List.getElem?_cons_zero, Option.some_inj, first.none_iff]
      exact eq_comm
    | succ i =>
      have hrows := first.rows_eq
      have hothers := others.none_iff i (Nat.lt_of_succ_lt_succ hi)
      rw [List.getElem?_cons_succ, hothers, List.take_succ_cons, rowsIn_cons]
      constructor
      · intro hall
        rw [hall, ← hrows]
      · intro hall
        exact List.append_cancel_left (hall.trans hrows)
  refine ⟨congrArg (· + 1) others.length_eq, handed, ?_, ?_, ?_, none_iff, ?_⟩
  · intro hle
    cases reply with
    | none =>
      rw [first.none_iff.1 rfl] at handed ⊢
      exact List.prefix_nil.1 handed
    | some page =>
      -- a page has a row at least, so one question less is enough for the rest
      have hpage := (first.page_length page rfl).1
      have hsplit : rows = page ++ left := first.rows_eq
      rw [hsplit, List.length_append, List.length_cons] at hle
      rw [hsplit, rowsIn_cons, others.all_handed (by omega)]
      rfl
  · intro i page hquestion hreply
    cases i with
    | zero =>
      exact first.row_length page (Option.some.inj hreply)
        (Option.some.inj hquestion)
    | succ i => exact others.row_length i page hquestion hreply
  · intro page hpage
    rcases List.mem_cons.1 hpage with hfirst | hother
    · exact first.page_length page hfirst.symm
    · exact others.page_length page hother
  · intro i j hle hj hnone
    rw [none_iff j hj]
    rw [none_iff i (Nat.lt_of_le_of_lt hle hj)] at hnone
    exact rowsIn_take_of_le handed hle hnone

/-- However a cursor is asked, it hands out the rows that it had left, in
pages of its size. -/
theorem Cursor.paged_replies (hc : c.HasRoom) (questions : List Question)
    (s : σ) :
    Paged (c.left look s) c.pageSize questions (c.replies look questions s) := by
  induction questions generalizing c s with
  | nil => exact Paged.nil _ _
  | cons question rest ih =>
    obtain ⟨hfirst, hroom, hsize⟩ :=
      HandsOut.reply look hc s question
    have hothers := ih hroom (c.reply look s question).2.2
    rw [hsize] at hothers
    exact Paged.cons hfirst hothers

end DiskAtlas.Query

/-
How a reader and its source talk to each other. An exchange leads on to a
position or nowhere, a position is asked for or lies past the end, and a
`Dialogue` is a list of exchanges in which every request is the one that
the exchange before it led to. So an exchange that leads nowhere is the
final one (`Dialogue.goes_on`). An answer itself says that it is the final
one by failing, by holding nothing or by a mark on one of its records
(`Exchange.IsFinal`).

A request is made of a position and of what the reader was asked for, so the
two readers differ in their positions: an offset here, a whole record there.
-/
import Mathlib.Data.List.Chain
import Mathlib.Data.List.TakeWhile
import DiskAtlas.Mapping.Exchange

namespace DiskAtlas.Mapping

-- ============================================================= dialogues

section Dialogue

variable {κ ρ α : Type} (asks : κ → Option ρ)
  (onward : Exchange ρ α → Option κ) (start : κ)

/-- Every request is the one that the exchange before it led to. -/
structure Dialogue (log : List (Exchange ρ α)) : Prop where
  first : ∀ x ∈ log.head?, asks start = some x.request
  chain : log.IsChain fun x y => (onward x).bind asks = some y.request

/-- The position that some exchanges have led to. -/
def ahead (log : List (Exchange ρ α)) : Option κ :=
  match log.getLast? with
  | none => some start
  | some x => onward x

@[simp] theorem ahead_nil : ahead onward start [] = some start := rfl

@[simp] theorem ahead_snoc (log : List (Exchange ρ α)) (x : Exchange ρ α) :
    ahead onward start (log ++ [x]) = onward x := by
  simp [ahead]

variable {asks onward start} {log : List (Exchange ρ α)}
  {x : Exchange ρ α}

theorem dialogue_nil : Dialogue asks onward start [] :=
  ⟨nofun, .nil⟩

/-- The request for the position ahead continues a dialogue. -/
theorem Dialogue.snoc (h : Dialogue asks onward start log)
    (hnext : (ahead onward start log).bind asks = some x.request) :
    Dialogue asks onward start (log ++ [x]) := by
  constructor
  · intro y hy
    cases log with
    | nil =>
      obtain rfl : x = y := by simpa using hy
      exact hnext
    | cons z log => exact h.first y hy
  · apply List.isChain_append.2
    refine ⟨h.chain, .singleton x, ?_⟩
    intro y hy z hz
    obtain rfl : x = z := by simpa using hz
    have hlast : log.getLast? = some y := hy
    simpa only [ahead, hlast] using hnext

/-- Every request asks for a position: the first one, or one that another
exchange led to. -/
theorem Dialogue.asked (h : Dialogue asks onward start log)
    (hx : x ∈ log) : asks start = some x.request ∨
      ∃ y ∈ log, (onward y).bind asks = some x.request := by
  obtain ⟨before, behind, rfl⟩ := List.append_of_mem hx
  cases hlast : before.getLast? with
  | none =>
    obtain rfl := List.getLast?_eq_none_iff.1 hlast
    exact .inl (h.first x rfl)
  | some y =>
    have hy : y ∈ before := List.mem_of_mem_getLast? hlast
    refine .inr ⟨y, List.mem_append_left _ hy, ?_⟩
    exact (List.isChain_append.1 h.chain).2.2 y hlast x rfl

/-- Only the final exchange may lead nowhere. -/
theorem Dialogue.goes_on (h : Dialogue asks onward start log)
    (hx : x ∈ log.dropLast) : ∃ k, onward x = some k ∧ asks k ≠ none := by
  obtain ⟨before, behind, hsplit⟩ := List.append_of_mem hx
  have hne : log ≠ [] := by
    rintro rfl
    cases hx
  have hlog : log = before ++ [x] ++ (behind ++ [log.getLast hne]) := by
    rw [List.append_assoc, List.singleton_append, ← List.cons_append,
      ← List.append_assoc, ← hsplit, List.dropLast_concat_getLast]
  have hchain := h.chain
  rw [hlog] at hchain
  have hstep := (List.isChain_append.1 hchain).2.2 x (by simp)
  cases behind with
  | nil =>
    have hasks := hstep (log.getLast hne) (by simp)
    obtain ⟨k, hk, hasks⟩ := Option.bind_eq_some_iff.1 hasks
    exact ⟨k, hk, by simp [hasks]⟩
  | cons y behind =>
    have hasks := hstep y (by simp)
    obtain ⟨k, hk, hasks⟩ := Option.bind_eq_some_iff.1 hasks
    exact ⟨k, hk, by simp [hasks]⟩

end Dialogue

-- ============================================================== answers

/-- Cutting behind the first marked record leaves what comes before it, and
itself. -/
theorem cutAfter_eq {α : Type} (isLast : α → Bool) (records : List α) :
    cutAfter isLast records
      = records.takeWhile (fun e => !isLast e)
        ++ (records.find? isLast).toList := by
  induction records with
  | nil => rfl
  | cons e rest ih =>
    by_cases hlast : isLast e
    · simp [cutAfter, hlast]
    · simp [cutAfter, hlast, ih]

namespace Answer

variable {α : Type} {isLast : α → Bool} {a : Answer α}

theorem length_shown_le (isLast : α → Bool) (a : Answer α) :
    (a.shown isLast).length ≤ a.held.length := by
  rw [shown, ← cutAfter_eq]
  induction a.held with
  | nil => exact Nat.le_refl _
  | cons e rest ih =>
    unfold cutAfter
    split
    · simp
    · simpa using ih

/-- An answer without a mark is good for all that it holds. -/
theorem shown_of_unmarked (h : ∀ e ∈ a.held, isLast e = false) :
    a.shown isLast = a.held := by
  have hfind : a.held.find? isLast = none := by
    simpa using h
  have htake : a.held.takeWhile (fun e => !isLast e) = a.held := by
    rw [List.takeWhile_eq_self_iff]
    simpa using h
  simp [shown, hfind, htake]

/-- An answer with a mark is good for records of which the final one is
marked. -/
theorem getLast?_shown_of_marked {e : α} (he : e ∈ a.held)
    (hlast : isLast e = true) :
    ∃ tail, (a.shown isLast).getLast? = some tail ∧ isLast tail = true := by
  cases hfind : a.held.find? isLast with
  | none =>
    have hnone := List.find?_eq_none.1 hfind e he
    exact absurd hlast hnone
  | some tail =>
    refine ⟨tail, ?_, List.find?_some hfind⟩
    simp [shown, hfind]

end Answer

namespace Exchange

variable {ρ α : Type} (isLast : α → Bool)

/-- The records that an exchange is good for. -/
def shown (x : Exchange ρ α) : List α :=
  match x.answer with
  | .error _ => []
  | .ok a => a.shown isLast

/-- What an exchange brings: its failure, or its records with `hand` done
to each. -/
def news (hand : α → α) (x : Exchange ρ α) : List (Except Error α) :=
  match x.answer with
  | .error e => [.error e]
  | .ok a => (a.shown isLast).map fun e => .ok (hand e)

/-- Nothing comes after an exchange that failed, that brought nothing or
that brought a record marked as the last. -/
inductive IsFinal (x : Exchange ρ α) : Prop where
  | failed {e : Error} (h : x.answer = .error e)
  | empty {a : Answer α} (h : x.answer = .ok a) (hnone : a.held = [])
  | marked {a : Answer α} {e : α} (h : x.answer = .ok a) (he : e ∈ a.held)
      (hlast : isLast e = true)

variable {isLast} {x : Exchange ρ α}

/-- An exchange that is not final has brought records, the final one of
which is no mark. -/
theorem shown_of_not_isFinal (h : ¬ x.IsFinal isLast) :
    ∃ a tail, x.answer = .ok a ∧ a.held.getLast? = some tail ∧
      (x.shown isLast).getLast? = some tail ∧ isLast tail = false := by
  cases hanswer : x.answer with
  | error e => exact absurd (.failed hanswer) h
  | ok a =>
    have hunmarked : ∀ e ∈ a.held, isLast e = false := by
      intro e he
      apply Bool.eq_false_iff.2
      intro hlast
      exact h (.marked hanswer he hlast)
    cases htail : a.held.getLast? with
    | none =>
      exact absurd (.empty hanswer (List.getLast?_eq_none_iff.1 htail)) h
    | some tail =>
      refine ⟨a, tail, rfl, htail, ?_, ?_⟩
      · simp only [shown, hanswer, Answer.shown_of_unmarked hunmarked, htail]
      · exact hunmarked tail (List.mem_of_mem_getLast? htail)

/-- A final exchange has brought no records, or the final one is the
mark. -/
theorem IsFinal.getLast?_shown (h : x.IsFinal isLast) :
    ∀ tail, (x.shown isLast).getLast? = some tail → isLast tail = true := by
  intro tail htail
  cases h with
  | failed hanswer => simp [shown, hanswer] at htail
  | empty hanswer hnone =>
    simp [shown, hanswer, Answer.shown, hnone] at htail
  | marked hanswer he hlast =>
    obtain ⟨mark, hmark, hismark⟩ :=
      Answer.getLast?_shown_of_marked he hlast
    simp only [shown, hanswer, hmark] at htail
    obtain rfl := Option.some_inj.1 htail
    exact hismark

end Exchange

end DiskAtlas.Mapping

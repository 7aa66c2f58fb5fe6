/-
The walk over a device and its pager. A pager that was drained has told
what the walk gives, if that may use enough answers, and has left the
source in the same state (`walk_of_drained`). One request of the pager is
one answer that the walk uses (`toTell_fetch`).

The number of answers only bounds the walk and has no part in what it gives.
The comparison is therefore made for every number that is large enough, and
each call of the pager uses up one of them or none.
-/
import DiskAtlas.Mapping.DevicePager
import DiskAtlas.Proofs.Mapping.FileWalk
import DiskAtlas.Proofs.Mapping.Paging

namespace DiskAtlas.Mapping

variable {σ : Type} {source : DeviceSource σ}

-- ============================================================== walking

section Walk

variable {capacity : Nat} {low : DeviceRecord} {s s' : σ}

/-- The records and failures that a walk gives, and the state of the source
behind it. -/
def deviceItems (source : DeviceSource σ) (capacity answers : Nat)
    (low : DeviceRecord) (s : σ) : List (Except Error DeviceRecord) × σ :=
  let (walk, s) := walkDevice source capacity answers low s
  (walk.trace.items, s)

theorem deviceItems_error (answers : Nat) {e : Error}
    (hanswer : source.answer (DeviceBuffer.prepare capacity low .highest) s
      = (.error e, s')) :
    deviceItems source capacity (answers + 1) low s = ([.error e], s') := by
  unfold deviceItems walkDevice
  rw [hanswer]
  rfl

/-- An answer gives its records up to the last one, and the walk goes on from
the last of these unless it is marked. -/
theorem deviceItems_ok (answers : Nat) {b : DeviceBuffer capacity}
    (hanswer : source.answer (DeviceBuffer.prepare capacity low .highest) s
      = (.ok b, s'))
    {page : List DeviceRecord} (hpage : cutAfter (·.isLast) b.answered = page) :
    deviceItems source capacity (answers + 1) low s =
      match page.getLast? with
      | none => ([], s')
      | some tail =>
        if tail.isLast then (page.map .ok, s')
        else
          let (more, s'') := deviceItems source capacity answers tail s'
          (page.map .ok ++ more, s'') := by
  have hgive : Trace.items (page.map .give : Trace DeviceRecord _)
      = page.map .ok := Trace.items_give id page
  unfold deviceItems
  rw [walkDevice, hanswer]
  simp only [hpage]
  cases page.getLast? with
  | none => rfl
  | some tail =>
    by_cases hlast : tail.isLast
    · simp only [hlast, if_true, Trace.items_ask, hgive]
    · simp only [hlast, Bool.false_eq_true, if_false, Trace.items_ask,
        Trace.items_append, hgive]

end Walk

-- =============================================================== paging

namespace DevicePager

variable {p q : DevicePager σ}

/-- What a pager has still to tell, as the walk with some answers has it,
and the state of the source then. -/
def toTell (source : DeviceSource σ) (answers : Nat) (p : DevicePager σ) :
    List (Except Error DeviceRecord) × σ :=
  if p.done then (p.pending.map .ok, p.state)
  else
    let (items, s) := deviceItems source p.capacity answers p.low p.state
    (p.pending.map .ok ++ items, s)

/-- A request uses one answer of the walk. -/
theorem toTell_fetch (source : DeviceSource σ) (answers : Nat)
    (hopen : p.done = false) :
    match p.fetch source with
    | (.ok (), q) => q.toTell source answers = p.toTell source (answers + 1)
    | (.error e, q) => q.pending = p.pending ∧ q.done = true ∧
        p.toTell source (answers + 1)
          = (p.pending.map .ok ++ [.error e], q.state) := by
  unfold fetch
  rcases hanswer : source.answer
    (DeviceBuffer.prepare p.capacity p.low .highest) p.state with
    ⟨_ | b, s⟩
  · simp [hanswer, toTell, hopen, deviceItems_error answers hanswer]
  · generalize hpage : cutAfter (·.isLast) b.answered = page
    have hitems := deviceItems_ok answers hanswer hpage
    simp only [hanswer, hpage]
    cases htail : page.getLast? with
    | none => simp [toTell, hopen, hitems, htail]
    | some tail =>
      cases hlast : tail.isLast <;>
        simp [toTell, hopen, hitems, htail, hlast]

/-- A fetch that brought nothing ends the reading: an answer without records is
final. -/
theorem done_of_fetch (hpending : p.pending = [])
    (hfetch : p.fetch source = (.ok (), q)) (hnil : q.pending = []) :
    q.done = true := by
  unfold fetch at hfetch
  rcases hanswer : source.answer
    (DeviceBuffer.prepare p.capacity p.low .highest) p.state with
    ⟨_ | b, s⟩
  · simp [hanswer] at hfetch
  · simp only [hanswer] at hfetch
    split at hfetch
    · cases hfetch
      rfl
    · next tail htail =>
      cases hfetch
      simp only [hpending, List.nil_append] at hnil
      simp [hnil] at htail

/-- Handing a record out takes the first thing there is to tell. -/
theorem toTell_pop (source : DeviceSource σ)
    (hend : p.pending = [] → p.done = true) :
    match p.pop with
    | (none, q) => ∀ answers, p.toTell source answers = ([], q.state)
    | (some item, q) => ∀ answers, p.toTell source answers
        = (item :: (q.toTell source answers).1,
          (q.toTell source answers).2) := by
  unfold pop
  cases hpending : p.pending with
  | nil => simp [toTell, hend hpending, hpending]
  | cons r rest =>
    intro answers
    unfold toTell
    rw [hpending]
    split <;> rfl

/-- The next answer is the first thing there is to tell, and may use an
answer of the walk. -/
theorem toTell_next (source : DeviceSource σ) (p : DevicePager σ) :
    match p.next source with
    | (none, q) => ∃ used, ∀ answers,
        p.toTell source (answers + used) = ([], q.state)
    | (some item, q) => ∃ used, ∀ answers,
        p.toTell source (answers + used)
          = (item :: (q.toTell source answers).1,
            (q.toTell source answers).2) := by
  unfold next
  by_cases hask : (p.pending.isEmpty && !p.done) = true
  · rw [if_pos hask]
    simp only [Bool.and_eq_true, List.isEmpty_iff, Bool.not_eq_true'] at hask
    -- with nothing left to hand out, a pager that is open asks first
    obtain ⟨hpending, hopen⟩ := hask
    have htell := fun answers => toTell_fetch source answers hopen
    rcases hfetch : p.fetch source with ⟨e | _, q⟩
    · simp only [hfetch] at htell
      refine ⟨1, fun answers => ?_⟩
      obtain ⟨hkept, hdone, htold⟩ := htell answers
      rw [htold, toTell, hdone, hkept, hpending]
      rfl
    · simp only [hfetch] at htell
      have hpop := toTell_pop source (done_of_fetch hpending hfetch)
      dsimp only
      rcases hq : q.pop with ⟨_ | item, q'⟩ <;> simp only [hq] at hpop <;>
        exact ⟨1, fun answers => (htell answers).symm.trans (hpop answers)⟩
  · rw [if_neg hask]
    have hend : p.pending = [] → p.done = true := by
      intro hnil
      simpa [hnil] using hask
    have hpop := toTell_pop source hend
    rcases hq : p.pop with ⟨_ | item, q'⟩ <;> simp only [hq] at hpop <;>
      exact ⟨0, hpop⟩

/-- A drained pager has told what the walk gives, if that may use enough
answers, and has left the source in the same state. -/
theorem walk_of_drained {items : List (Except Error DeviceRecord)}
    (h : Drained (·.next source) p items q) :
    ∃ used, ∀ answers, p.toTell source (answers + used)
      = (items, q.state) := by
  induction h with
  | @ended p q hnext =>
    have htell := toTell_next source p
    simp only [hnext] at htell
    exact htell
  | @more p p' q item items hnext _ ih =>
    have htell := toTell_next source p
    simp only [hnext] at htell
    obtain ⟨used, hfirst⟩ := htell
    obtain ⟨more, hrest⟩ := ih
    refine ⟨more + used, fun answers => ?_⟩
    rw [← Nat.add_assoc, hfirst, hrest]

end DevicePager

end DiskAtlas.Mapping

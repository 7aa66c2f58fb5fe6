/-
Where finished tables come from. Tables that are open or with the backend
after a step were there before it, or the step finished their scan
(`Step.has_cases`); nothing else makes tables that pass for finished. So
whatever finishing a scan ensures of its tables is true of all finished
tables in a life that began at a blank place, through any number of uses,
saves, crashes and returns (`Run.finished_of`).

The step lemma follows the tables backwards, from the phase after the step to
the one before it. It distinguishes where they are kept, since a save copies
them to the backend and a crash takes away all other copies.
-/
import DiskAtlas.Proofs.Life.Answers

namespace DiskAtlas.Life

open LawfulBackend (held)

variable {β : Type} [Backend β] [LawfulBackend β]

variable {p q : Phase β} {event : Event} {events : List Event}
  {t : Tables} {c : Calculated} {summary : Summary}

/-- What a backend holds after a save was there before, or is what was
saved. -/
theorem tables_of_sameRows {s s' : Store β} (h : s.SameRows s')
    {state : Persisted} (hstate : held s'.backend = some state) :
    held s.backend = some state ∨ state.tables = s.tables := by
  rcases h.held_eq with heq | ⟨calculated, heq⟩
  · exact .inl (heq.symm.trans hstate)
  · obtain rfl := Option.some_inj.1 (heq.symm.trans hstate)
    exact .inr rfl

/-- Tables of a store that is opened were with the backend, or are empty. -/
theorem tables_of_opened {b : β} {fsPath : String} {s : Store β}
    (h : Store.opened b fsPath = .ok s)
    (hfinished : s.tables.Finished summary) :
    ∃ state, held b = some state ∧ state.tables = s.tables := by
  obtain ⟨-, -, -, hstate⟩ := Store.opened_eq h
  cases hheld : held b with
  | none =>
    rw [hheld] at hstate
    obtain ⟨htables, -⟩ := Persisted.mk.inj hstate
    obtain ⟨hsome, -⟩ := hfinished
    rw [← htables] at hsome
    cases hsome
  | some state =>
    rw [hheld, Option.getD_some] at hstate
    exact ⟨state, rfl, hstate ▸ rfl⟩

/-- Finished tables were there before a step, or the step finished them. -/
theorem Step.has_cases (h : Step p event q) (hp : p.Indexed)
    (hq : q.Indexed) (hhas : q.Has t c) (hfinished : t.Finished summary) :
    (∃ c, p.Has t c) ∨ ∃ x, p = .scanning x ∧ t = x.finish.2.tables := by
  have hheld : ∀ state, held p.backend = some state → state.tables = t →
      ∃ c, p.Has t c := by
    rintro state hstate rfl
    exact ⟨_, .held state hstate⟩
  have hresting : ∀ d, p = .resting d → d.store.tables = t →
      ∃ c, p.Has t c := by
    rintro d hd rfl
    exact ⟨_, .resting d hd⟩
  have hscanning : ∀ x, p = .scanning x → x.store.tables = t →
      ∃ c, p.Has t c := by
    rintro x hx rfl
    exact ⟨_, .scanning x hx⟩
  -- by where the tables are kept behind the step, and then by the step: each
  -- of them leaves the tables in place, moves them, or ends a scan
  cases hhas with
  | scanning x hx =>
    subst hx
    exact absurd hfinished (hq.2.not_finished summary)
  | held state hstate =>
    cases h with
    | opens same loaded =>
      obtain ⟨rfl, -⟩ := Store.opened_eq loaded
      exact .inl (hheld state (same.symm.trans hstate) rfl)
    | @closes d =>
      rcases tables_of_sameRows d.store.flush_saved.sameRows hstate with
        hold | hsaved
      · exact .inl (hheld state hold rfl)
      · exact .inl (hresting d rfl hsaved.symm)
    | crashes => exact .inl (hheld state hstate rfl)
    | @uses d use =>
      rcases tables_of_sameRows (d.after_sameRows use) hstate with
        hold | hsaved
      · exact .inl (hheld state hold rfl)
      · exact .inl (hresting d rfl hsaved.symm)
    | @begins d given s saved =>
      obtain ⟨-, hbegun⟩ := Store.beginScanWith_ok saved
      obtain rfl := Option.some_inj.1 (hbegun.symm.trans hstate)
      exact absurd hfinished
        ((d.store.unfinished_cleared given).not_finished summary)
    | refuses failed =>
      rcases Store.beginScanWith_error failed with rfl | ⟨-, hsame⟩
      · exact .inl (hheld state hstate rfl)
      · exact .inl (hheld state (hsame.symm.trans hstate) rfl)
    | @puts x call =>
      change held (call.put x).store.backend = some state at hstate
      rw [(call.put_fills x).store_eq] at hstate
      exact .inl (hheld state hstate rfl)
    | @checkpoints x =>
      rcases tables_of_sameRows x.checkpoint_saved.sameRows hstate with
        hold | hsaved
      · exact .inl (hheld state hold rfl)
      · exact .inl (hscanning x rfl hsaved.symm)
    | abandons => exact .inl (hheld state hstate rfl)
    | @finishes x =>
      obtain ⟨given, hgiven, -⟩ := hp.2
      have hsaved := Session.finish_saved hgiven
      -- the only step that makes finished tables
      rcases tables_of_sameRows hsaved.sameRows hstate with hold | htables
      · exact .inl (hheld state hold rfl)
      · exact .inr ⟨x, rfl, htables.trans hsaved.tables_eq.symm⟩
  | resting d hd =>
    cases h with
    | opens same loaded =>
      obtain rfl := (Phase.resting.inj hd).symm
      obtain ⟨state, hstate, htables⟩ := tables_of_opened loaded hfinished
      exact .inl (hheld state (same.symm.trans hstate) htables)
    | closes => cases hd
    | crashes => cases hd
    | @uses d' use =>
      obtain rfl := (Phase.resting.inj hd).symm
      exact .inl (hresting d' rfl (d'.after_sameRows use).tables_eq.symm)
    | begins => cases hd
    | @refuses d' given e s failed =>
      obtain rfl := (Phase.resting.inj hd).symm
      rcases Store.beginScanWith_error failed with rfl | ⟨hsaved, -⟩
      · exact .inl (hresting d' rfl rfl)
      · exact absurd hfinished
          ((Store.unfinished_of_saved hsaved).not_finished summary)
    | puts => cases hd
    | checkpoints => cases hd
    | @abandons x =>
      obtain rfl := (Phase.resting.inj hd).symm
      exact .inl (hscanning x rfl rfl)
    | @finishes x =>
      obtain rfl := (Phase.resting.inj hd).symm
      exact .inr ⟨x, rfl, rfl⟩

/-- What is true of tables whenever their scan is finished is true of all
tables that pass for finished. -/
theorem Run.finished_of {P : Tables → Prop} {b : β} (hb : Blank b)
    (hfinish : ∀ before x, Run (.closed b) before (.scanning x) →
      P x.finish.2.tables)
    (h : Run (.closed b) events p) (hhas : p.Has t c)
    (hfinished : t.Finished summary) : P t := by
  induction h generalizing c with
  | start =>
    cases hhas with
    | held state hstate => cases hb.symm.trans hstate
    | resting d hd => cases hd
    | scanning x hx => cases hx
  | step run last ih =>
    rcases last.has_cases run.indexedOrBegun (run.step last).indexedOrBegun
      hhas hfinished with ⟨_, hold⟩ | ⟨x, rfl, rfl⟩
    · exact ih hold
    · exact hfinish _ x run

end DiskAtlas.Life

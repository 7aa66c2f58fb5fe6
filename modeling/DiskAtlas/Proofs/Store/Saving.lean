/-
What saving does to a store and to the place it is saved to. A backend is
lawful if it holds one state at a time: what a load gives, what was saved
last, and after a save that failed still what it held before. Every way of
saving writes the store's present tables and computed values or nothing,
and leaves these as they are (`Store.Saved`); so about each operation that
may save it is enough to know which store it saves. On a place where every
save succeeds (`Reliable`), nothing that saves fails.
-/
import DiskAtlas.Store.Session

namespace DiskAtlas

/-- A backend that gives back what was saved last. A save that fails
leaves in place what was there. -/
class LawfulBackend (β : Type) [Backend β] where
  /-- What the backend holds. -/
  held : β → Option Persisted
  held_of_load : ∀ {b : β} {state : Option Persisted},
    Backend.load b = .ok state → held b = state
  held_of_save : ∀ {b b' : β} {state : Persisted},
    Backend.save state b = (.ok (), b') → held b' = some state
  held_of_failed_save : ∀ {b b' : β} {state : Persisted} {e : Error},
    Backend.save state b = (.error e, b') → held b' = held b

namespace Vault

/-- A vault that is saved holds the new state, or refuses and holds the old
one. -/
theorem save_cases (state : Persisted) (v : Vault) :
    (∃ v', v.save state = (.ok (), v') ∧ v'.held = some state) ∨
      ∃ e v', v.save state = (.error e, v') ∧ v'.held = v.held := by
  unfold save
  cases v.access with
  | readOnly => exact Or.inr ⟨_, _, rfl, rfl⟩
  | readWrite =>
    dsimp only
    split
    · exact Or.inr ⟨_, _, rfl, rfl⟩
    · exact Or.inl ⟨_, rfl, rfl⟩

instance : LawfulBackend Vault where
  held v := v.held
  held_of_load := by
    intro v state h
    replace h : v.load = .ok state := h
    unfold load at h
    split at h
    · cases h
    · exact Except.ok.inj h
  held_of_save := by
    intro v v' state h
    obtain ⟨w, hw, hheld⟩ | ⟨e, w, hw, -⟩ := save_cases state v
    · obtain rfl := (Prod.mk.inj (hw.symm.trans h)).2
      exact hheld
    · cases (Prod.mk.inj (hw.symm.trans h)).1
  held_of_failed_save := by
    intro v v' state e h
    obtain ⟨w, hw, -⟩ | ⟨e', w, hw, hheld⟩ := save_cases state v
    · cases (Prod.mk.inj (hw.symm.trans h)).1
    · obtain rfl := (Prod.mk.inj (hw.symm.trans h)).2
      exact hheld

end Vault

namespace Store

variable {β : Type} [Backend β] [LawfulBackend β] {s s' : Store β}

open LawfulBackend (held)

/-- A store before and after something that may have saved it. -/
structure Saved (s s' : Store β) : Prop where
  fsPath_eq : s'.fsPath = s.fsPath
  tables_eq : s'.tables = s.tables
  index_eq : s'.index = s.index
  calculated_eq : s'.calculated = s.calculated
  held_eq : held s'.backend = held s.backend ∨
    held s'.backend = some ⟨s.tables, s.calculated⟩

theorem Saved.refl (s : Store β) : s.Saved s :=
  ⟨rfl, rfl, rfl, rfl, Or.inl rfl⟩

/-- Two stores with the same rows, where the backend still holds what it
held or these rows, with something computed beside them. -/
structure SameRows (s s' : Store β) : Prop where
  fsPath_eq : s'.fsPath = s.fsPath
  tables_eq : s'.tables = s.tables
  index_eq : s'.index = s.index
  held_eq : held s'.backend = held s.backend ∨
    ∃ calculated, held s'.backend = some ⟨s.tables, calculated⟩

theorem SameRows.refl (s : Store β) : s.SameRows s :=
  ⟨rfl, rfl, rfl, Or.inl rfl⟩

theorem Saved.sameRows (h : s.Saved s') : s.SameRows s' :=
  ⟨h.fsPath_eq, h.tables_eq, h.index_eq, h.held_eq.imp_right fun h => ⟨_, h⟩⟩

-- ============================================================== opening

/-- A store opens with what the backend holds, or with nothing, and indexes
it. -/
theorem opened_eq {b : β} {fsPath : String}
    (h : Store.opened b fsPath = .ok s) :
    s.backend = b ∧ s.fsPath = fsPath ∧ s.index = .build s.tables ∧
      (held b).getD default = ⟨s.tables, s.calculated⟩ := by
  unfold Store.opened at h
  cases hload : Backend.load b with
  | error e =>
    rw [hload] at h
    cases h
  | ok state =>
    rw [hload] at h
    obtain rfl := Except.ok.inj h
    rw [LawfulBackend.held_of_load hload]
    exact ⟨rfl, rfl, rfl, rfl⟩

-- =============================================================== saving

/-- A save that succeeds leaves the tables with the backend, one that
fails what the backend held. -/
theorem persist_cases (s : Store β) :
    (s.persist.1 = .ok () ∧
      held s.persist.2.backend = some ⟨s.tables, s.calculated⟩) ∨
    ((∃ e, s.persist.1 = .error e) ∧
      held s.persist.2.backend = held s.backend) := by
  unfold persist
  split
  · next backend hsave =>
    exact Or.inl ⟨rfl, LawfulBackend.held_of_save hsave⟩
  · next e backend hsave =>
    exact Or.inr ⟨⟨e, rfl⟩, LawfulBackend.held_of_failed_save hsave⟩

theorem persist_saved (s : Store β) : s.Saved s.persist.2 := by
  have hheld : held s.persist.2.backend = held s.backend ∨
      held s.persist.2.backend = some ⟨s.tables, s.calculated⟩ := by
    obtain ⟨-, h⟩ | ⟨-, h⟩ := s.persist_cases
    · exact Or.inr h
    · exact Or.inl h
  revert hheld
  unfold persist
  split
  · exact fun h => ⟨rfl, rfl, rfl, rfl, h⟩
  · exact fun h => ⟨rfl, rfl, rfl, rfl, h⟩

/-- The same where a save is made only if there is something to save. -/
theorem flush_saved (s : Store β) : s.Saved s.flush.2 := by
  unfold flush
  split
  · exact persist_saved s
  · exact Saved.refl s

/-- Dropping computed values changes nothing if it is refused, and
otherwise saves the store without them. -/
theorem dropCalculated_cases (s : Store β)
    (keep : Calculated → Calculated) :
    (s.dropCalculated keep).2 = s ∨
      Saved { s with calculated := keep s.calculated, dirty := true }
        (s.dropCalculated keep).2 := by
  unfold dropCalculated
  split
  · exact Or.inl rfl
  · exact Or.inr (flush_saved _)

theorem dropCalculated_sameRows (s : Store β)
    (keep : Calculated → Calculated) :
    s.SameRows (s.dropCalculated keep).2 := by
  obtain h | h := s.dropCalculated_cases keep
  · rw [h]
    exact .refl s
  · exact ⟨h.fsPath_eq, h.tables_eq, h.index_eq,
      h.held_eq.imp_right fun h => ⟨_, h⟩⟩

-- ============================================================= scanning

/-- A scan that begins leaves its empty tables with the backend. -/
theorem beginScanWith_ok {summary : Summary} {s' : Store β}
    (h : s.beginScanWith summary = (.ok (), s')) :
    (s.cleared summary).Saved s' ∧
      held s'.backend = some ⟨(s.cleared summary).tables, .empty⟩ := by
  unfold beginScanWith at h
  split at h
  · cases (Prod.mk.inj h).1
  · obtain ⟨hok, hsaved⟩ := Prod.ext_iff.1 h
    subst hsaved
    refine ⟨persist_saved _, ?_⟩
    obtain ⟨-, hheld⟩ | ⟨⟨e, herror⟩, -⟩ := (s.cleared summary).persist_cases
    · exact hheld
    · cases hok.symm.trans herror

/-- A scan that cannot begin either changes nothing or leaves the store
without rows, and the backend with what it held. -/
theorem beginScanWith_error {summary : Summary} {s' : Store β} {e : Error}
    (h : s.beginScanWith summary = (.error e, s')) :
    s' = s ∨ ((s.cleared summary).Saved s' ∧
      held s'.backend = held s.backend) := by
  unfold beginScanWith at h
  split at h
  · exact Or.inl (Prod.mk.inj h).2.symm
  · obtain ⟨hfailed, hsaved⟩ := Prod.ext_iff.1 h
    subst hsaved
    refine Or.inr ⟨persist_saved _, ?_⟩
    obtain ⟨hok, -⟩ | ⟨-, hheld⟩ := (s.cleared summary).persist_cases
    · cases hok.symm.trans hfailed
    · exact hheld

end Store

namespace Session

variable {β : Type} [Backend β] [LawfulBackend β]

/-- A checkpoint saves the store as it is. -/
theorem checkpoint_saved (x : Session β) :
    x.store.Saved x.checkpoint.2.store :=
  x.store.persist_saved

/-- Finishing saves the finished store. -/
theorem finish_saved {x : Session β} {summary : Summary}
    (h : x.summary = some summary) :
    (x.finishedStore summary).Saved x.finish.2 := by
  have hsaved := Store.persist_saved (x.finishedStore summary)
  unfold finish
  rw [h]
  dsimp only
  split
  · next hpersist => rwa [hpersist] at hsaved
  · next hpersist => rwa [hpersist] at hsaved

end Session

-- ====================================================== places that hold

/-- A place on which every save succeeds. -/
def Reliable {β : Type} [Backend β] (b : β) : Prop :=
  ∃ P : β → Prop, P b ∧ ∀ b, P b → Backend.isWritable b = true ∧
    ∀ state, ∃ b', Backend.save state b = (.ok (), b') ∧ P b'

/-- A vault that may be written and has no failure ahead takes every save. -/
theorem Vault.reliable {v : Vault} (haccess : v.access = .readWrite)
    (hfailing : v.failing = []) : Reliable v := by
  refine ⟨fun v => v.access = .readWrite ∧ v.failing = [],
    ⟨haccess, hfailing⟩, ?_⟩
  rintro v ⟨haccess, hfailing⟩
  refine ⟨?_, fun state => ⟨{ v with
    attempts := v.attempts + 1, held := some state }, ?_, haccess, hfailing⟩⟩
  · show (v.access == .readWrite) = true
    rw [haccess]
    rfl
  · show v.save state = _
    unfold Vault.save
    rw [haccess]
    simp [hfailing]

section Reliable

variable {β : Type} [Backend β]

theorem Reliable.isWritable {b : β} (h : Reliable b) :
    Backend.isWritable b = true := by
  obtain ⟨P, hb, hP⟩ := h
  exact (hP b hb).1

/-- Saving changes what is known of the place and nothing else. -/
theorem Store.persist_eq (s : Store β) :
    ∃ backend dirty, s.persist.2 = { s with backend, dirty } := by
  unfold persist
  split
  · exact ⟨_, _, rfl⟩
  · exact ⟨_, _, rfl⟩

/-- A store on such a place can be saved, there and ever after. -/
theorem Store.persist_reliable {s : Store β} (h : Reliable s.backend) :
    ∃ b, s.persist = (.ok (), { s with backend := b, dirty := false }) ∧
      Reliable b := by
  obtain ⟨P, hb, hP⟩ := h
  obtain ⟨b, hsave, hkept⟩ := (hP _ hb).2 ⟨s.tables, s.calculated⟩
  refine ⟨b, ?_, P, hkept, hP⟩
  unfold persist
  rw [hsave]

/-- Where every save succeeds, a scan begins with tables that hold nothing
but the facts. -/
theorem Store.beginScan_reliable {s : Store β} (h : Reliable s.backend)
    (facts : String → Except Error Summary) {summary : Summary}
    (hfacts : facts s.fsPath = .ok summary) :
    ∃ begun, s.beginScan facts = (.ok (), begun) ∧
      begun.fsPath = s.fsPath ∧ begun.tables = (s.cleared summary).tables ∧
      Reliable begun.backend := by
  have hwritable : s.ensureWritable = .ok () := if_pos h.isWritable
  have hplace : Reliable (s.cleared summary).backend := h
  obtain ⟨backend, hsaved, hbackend⟩ := Store.persist_reliable hplace
  refine ⟨{ s.cleared summary with backend, dirty := false }, ?_, rfl, rfl,
    hbackend⟩
  simp only [beginScan, beginScanWith, hwritable, hfacts]
  exact hsaved

end Reliable

end DiskAtlas

/-
Scans that do not begin. There are three reasons: the store cannot be
written, the facts about the file system are not to be had, and the empty
tables cannot be saved (`Store.beginScan_error_iff`). For the first two the
store is asked before anything is done, and it stays as it is. The third
one comes last. A scan first drops everything that the store holds, and
what was dropped is not brought back; so the store is left with the facts
of a scan that is not finished and has nothing else to say
(`Life.emptied_cleared`).

The backend is better off: a save that fails leaves what it held, in memory
as well as in a file, wherever the writing of the file stops, and closing a
store that had nothing to save saves nothing now either
(`Life.begin_failed`). But a store that had something to save tries again
when it is closed, and then it is the emptied tables that are saved in
place of what was held (`Life.close_of_unsaved`).
-/
import DiskAtlas.Proofs.Life.Finished
import DiskAtlas.Proofs.Life.Reopening
import DiskAtlas.Proofs.Snapshot.Lawful

namespace DiskAtlas

-- ================================================================ reasons

namespace Store

section Reasons

variable {β : Type} [Backend β] {s s' : Store β} {e : Error}
  {facts : String → Except Error Summary}

/-- Saving fails with the backend, and the store is the same beside it. -/
theorem persist_error_iff : s.persist = (.error e, s') ↔
    ∃ backend, Backend.save ⟨s.tables, s.calculated⟩ s.backend
      = (.error e, backend) ∧ s' = { s with backend } := by
  unfold persist
  constructor
  · intro h
    split at h
    · cases (Prod.mk.inj h).1
    · next e' backend hsave =>
      obtain ⟨he, rfl⟩ := Prod.mk.inj h
      obtain rfl := Except.error.inj he
      exact ⟨backend, hsave, rfl⟩
  · rintro ⟨backend, hsave, rfl⟩
    rw [hsave]

/-- A scan with given facts is one whose facts are always to be had. -/
theorem beginScanWith_eq (s : Store β) (given : Summary) :
    s.beginScanWith given = s.beginScan fun _ => .ok given := by
  unfold beginScan beginScanWith
  cases s.ensureWritable with
  | error e => rfl
  | ok => rfl

/-- Why a scan does not begin, and the store then. -/
inductive Unbegun (s : Store β) (facts : String → Except Error Summary) :
    Error → Store β → Prop
  | refused (unwritable : s.isWritable = false) :
      Unbegun s facts (.notWritable (Backend.location s.backend)) s
  | unknown {e : Error} (writable : s.isWritable = true)
      (failed : facts s.fsPath = .error e) : Unbegun s facts e s
  | unsaved {e : Error} {given : Summary} {s' : Store β}
      (writable : s.isWritable = true) (told : facts s.fsPath = .ok given)
      (failed : (s.cleared given).persist = (.error e, s')) :
      Unbegun s facts e s'

/-- A scan does not begin for one of these reasons and for no other. -/
theorem beginScan_error_iff :
    s.beginScan facts = (.error e, s') ↔ Unbegun s facts e s' := by
  unfold beginScan beginScanWith
  constructor
  · intro h
    -- in the order of the checks: rights, facts, save
    cases hwritable : s.isWritable with
    | false =>
      rw [ensureWritable, hwritable] at h
      obtain ⟨he, rfl⟩ := Prod.mk.inj h
      obtain rfl := Except.error.inj he
      exact .refused hwritable
    | true =>
      rw [ensureWritable, hwritable] at h
      cases hfacts : facts s.fsPath with
      | error e' =>
        rw [hfacts] at h
        obtain ⟨he, rfl⟩ := Prod.mk.inj h
        obtain rfl := Except.error.inj he
        exact .unknown hwritable hfacts
      | ok given =>
        rw [hfacts] at h
        exact .unsaved hwritable hfacts h
  · intro h
    unfold ensureWritable
    cases h with
    | refused hwritable => rw [hwritable]; rfl
    | unknown hwritable hfailed => rw [hwritable, hfailed]; rfl
    | unsaved hwritable htold hfailed =>
      rw [hwritable, htold]
      exact hfailed

end Reasons

end Store

-- =============================================================== answers

namespace Life

section Answers

variable {β : Type} {s : Store β}

/-- A store that holds nothing but the facts of a scan that has begun. It
has no rows to show and refuses whatever waits for a finished scan. -/
structure Emptied (given : Summary) (s : Store β) : Prop where
  tables_eq : s.tables = { Tables.empty with
    summary := some { given with path := s.fsPath, finished := false } }
  index_eq : s.index = .empty
  calculated_eq : s.calculated = .empty
  refuses : RefusesAll s
  inode : ∀ ino, s.inode ino = none
  inodes : s.inodes = []
  lookupPath : ∀ path, s.lookupPath path = none
  pathsOf : ∀ ino, s.pathsOf ino = []
  listDirectory : ∀ ino, s.listDirectory ino = []
  extentsOf : ∀ ino, s.extentsOf ino = []

/-- Dropping all rows leaves nothing else, wherever the store is kept
then. -/
theorem emptied_cleared [Backend β] (s : Store β) (given : Summary)
    (backend : β) : Emptied given { s.cleared given with backend } where
  tables_eq := rfl
  index_eq := rfl
  calculated_eq := rfl
  refuses := by
    have hunfinished : (s.cleared given).tables.Unfinished :=
      s.unfinished_cleared given
    exact refusesAll_of_unfinished hunfinished
  inode _ := rfl
  inodes := rfl
  lookupPath _ := rfl
  pathsOf ino := (Store.owners_of_none rfl ino).1
  listDirectory _ := rfl
  extentsOf ino := (Store.owners_of_none rfl ino).2

end Answers

end Life

-- =============================================================== backends

namespace Snapshot.OpenFile

open Disk

variable [Packer] {f f' : OpenFile} {state : Persisted} {e : Error}

/-- A snapshot after a save of it that failed. What could be loaded can be
loaded now, and where nothing was there is nothing. -/
structure Keeps (f f' : OpenFile) : Prop where
  found : ∀ file, f.disk.find f.path = .ok file →
    f'.disk.find f'.path = .ok file ∧ f'.load = f.load
  missing : f.disk.files.get? f.place = none →
    ∀ state, f'.load ≠ .ok (some state)

/-- A save that fails was cut short. -/
theorem cutShort_of_failed (h : f.Ends state (.error e) f') :
    f.CutShort f' := by
  have hends : ∀ r, f.Ends state r f' → r ≠ .ok () → f.CutShort f' := by
    intro r hends hr
    cases hends with
    | whole =>
      have hwhole : f.save state = ((f.save state).1, (f.save state).2) := rfl
      obtain ⟨hcut, -⟩ | ⟨hok, -⟩ := save_cases hwhole
      · exact hcut
      · exact absurd hok hr
    | cut stopped => exact stopped
  exact hends _ h nofun

/-- However a save fails, the snapshot is kept, unless the file beside it is
at its own place. -/
theorem keeps_of_failed (htop : f.disk.host.isDirectory [] = true)
    (hown : f.place ≠ f.beside) (h : f.Ends state (.error e) f') :
    f.Keeps f' where
  found file hfound := (cutShort_of_failed h).load_eq htop hown hfound
  missing hnone state hload := by
    have hmissing : f.held = none := by
      refine held_of_not_found fun file hfound => ?_
      cases hnone.symm.trans (get?_placeOf hfound)
    have hheld : f'.held = none :=
      ((cutShort_of_failed h).held_eq htop hown).trans hmissing
    rw [held, hload] at hheld
    cases hheld

end Snapshot.OpenFile

namespace Life

open LawfulBackend (held)
open Snapshot (OpenFile)

-- ============================================================= in memory

section Memory

variable {β : Type} [Backend β] {s s' : Store β}
  {facts : String → Except Error Summary} {e : Error}

/-- What a scan leaves that did not begin. A store that cannot be written,
or whose facts are not to be had, is as it was; otherwise it holds nothing
but the facts. One that had nothing to save saves nothing when it is
closed. -/
structure Leaves (s : Store β) (facts : String → Except Error Summary)
    (s' : Store β) : Prop where
  fsPath_eq : s'.fsPath = s.fsPath
  untouched : s.isWritable = false ∨ (∃ e, facts s.fsPath = .error e) →
    s' = s
  emptied : ∀ given, s.isWritable = true → facts s.fsPath = .ok given →
    Emptied given s'
  closed : s.dirty = false → s'.close = s'.backend

theorem close_of_clean (h : s.dirty = false) : s.close = s.backend := by
  unfold Store.close Store.flush
  rw [h]
  rfl

/-- Each way in which a begin fails leaves a store of that kind. -/
theorem leaves_of_unbegun (h : s.Unbegun facts e s') : Leaves s facts s' := by
  cases h with
  | refused hwritable =>
    refine ⟨rfl, fun _ => rfl, fun given hyes => ?_, close_of_clean⟩
    cases hwritable.symm.trans hyes
  | unknown hwritable hfailed =>
    refine ⟨rfl, fun _ => rfl, fun given _ htold => ?_, close_of_clean⟩
    cases hfailed.symm.trans htold
  | @unsaved _ given _ hwritable htold hfailed =>
    obtain ⟨backend, hsave, rfl⟩ := Store.persist_error_iff.1 hfailed
    refine ⟨rfl, ?_, fun given' _ htold' => ?_,
      fun hclean => close_of_clean hclean⟩
    · rintro (hno | ⟨e', hnone⟩)
      · cases hno.symm.trans hwritable
      · cases hnone.symm.trans htold
    · obtain rfl := Except.ok.inj (htold.symm.trans htold')
      exact emptied_cleared s given backend

/-- A lawful backend holds what it held. -/
theorem held_of_unbegun [LawfulBackend β] (h : s.Unbegun facts e s') :
    held s'.backend = held s.backend := by
  cases h with
  | refused => rfl
  | unknown => rfl
  | unsaved hwritable htold hfailed =>
    obtain ⟨backend, hsave, rfl⟩ := Store.persist_error_iff.1 hfailed
    exact LawfulBackend.held_of_failed_save hsave

/-- A store that still had something to save tries again when it is closed.
What it has now are the emptied tables: if they are saved, the backend has
lost what it held. -/
theorem close_of_unsaved [LawfulBackend β] {given : Summary}
    (h : s.Unbegun facts e s') (hwritable : s.isWritable = true)
    (htold : facts s.fsPath = .ok given) (hdirty : s.dirty = true)
    (hstill : s'.isWritable = true) :
    let again := Backend.save ⟨s'.tables, .empty⟩ s'.backend
    Emptied given s' ∧ s'.close = again.2 ∧
      (again.1 = .ok () → held s'.close = some ⟨s'.tables, .empty⟩) ∧
      ∀ e', again.1 = .error e' → held s'.close = held s.backend := by
  intro again
  have hheld := held_of_unbegun h
  have hleaves := leaves_of_unbegun h
  have hemptied := hleaves.emptied given hwritable htold
  -- the save that failed has not taken the mark away
  have hdirty' : s'.dirty = true := by
    cases h with
    | refused => exact hdirty
    | unknown => exact hdirty
    | unsaved _ _ hfailed =>
      obtain ⟨backend, -, rfl⟩ := Store.persist_error_iff.1 hfailed
      exact hdirty
  have hclose : s'.close = again.2 := by
    rw [Store.close, Store.flush, hdirty', hstill, Bool.true_and,
      if_pos rfl, Store.persist, hemptied.calculated_eq]
    split
    · next hsave => exact (congrArg Prod.snd hsave).symm
    · next hsave => exact (congrArg Prod.snd hsave).symm
  refine ⟨hemptied, hclose, fun hsaved => ?_, fun e' hfailed => ?_⟩
  · rw [hclose]
    exact LawfulBackend.held_of_save (Prod.ext hsaved rfl)
  · rw [hclose, ← hheld]
    exact LawfulBackend.held_of_failed_save (Prod.ext hfailed rfl)

end Memory

-- =============================================================== in files

section Files

variable [Snapshot.Packer] {s s' : Store OpenFile}
  {facts : String → Except Error Summary}
  {e : Error}

/-- A snapshot is kept, unless the file beside it is at its own place. -/
theorem keeps_of_unbegun (htop : s.backend.disk.host.isDirectory [] = true)
    (hown : s.backend.place ≠ s.backend.beside)
    (h : s.Unbegun facts e s') : s.backend.Keeps s'.backend := by
  have hsame : s.backend.Keeps s.backend :=
    Snapshot.OpenFile.keeps_of_failed htop hown
      (.cut .unopened e : s.backend.Ends default (.error e) s.backend)
  cases h with
  | refused => exact hsame
  | unknown => exact hsame
  | @unsaved _ given _ hwritable htold hfailed =>
    obtain ⟨backend, hsave, rfl⟩ := Store.persist_error_iff.1 hfailed
    let state : Persisted := ⟨(s.cleared given).tables, .empty⟩
    have hends : s.backend.Ends state (s.backend.save state).1
        (s.backend.save state).2 := .whole
    rw [show s.backend.save state = _ from hsave] at hends
    exact Snapshot.OpenFile.keeps_of_failed htop hown hends

end Files

/-- A scan that does not begin leaves the backend with what it held, in
memory or in a file, wherever the writing of the file stops. The store is
left as it was if it was not asked to save yet. If it was, everything in it
has been dropped by then, and nothing but the facts of the new scan is
left. -/
theorem begin_failed {β : Type} [Backend β] [LawfulBackend β]
    [Snapshot.Packer] (s : Store β)
    (facts : String → Except Error Summary) (given : Summary) :
    (∀ e s', s.beginScan facts = (.error e, s') →
      Leaves s facts s' ∧ held s'.backend = held s.backend) ∧
    (∀ e s', s.beginScanWith given = (.error e, s') →
      Leaves s (fun _ => .ok given) s' ∧
        held s'.backend = held s.backend) ∧
    ∀ t : Store OpenFile, t.backend.disk.host.isDirectory [] = true →
      t.backend.place ≠ t.backend.beside →
      (∀ e t', t.beginScan facts = (.error e, t') →
        Leaves t facts t' ∧ t.backend.Keeps t'.backend) ∧
      (∀ e t', t.beginScanWith given = (.error e, t') →
        Leaves t (fun _ => .ok given) t' ∧ t.backend.Keeps t'.backend) ∧
      ∀ e f, t.backend.Ends ⟨(t.cleared given).tables, .empty⟩ (.error e) f →
        t.backend.Keeps f := by
  refine ⟨fun e s' h => ?_, fun e s' h => ?_, fun t htop hown =>
    ⟨fun e t' h => ?_, fun e t' h => ?_, fun e f hends => ?_⟩⟩
  · have hunbegun := Store.beginScan_error_iff.1 h
    exact ⟨leaves_of_unbegun hunbegun, held_of_unbegun hunbegun⟩
  · rw [Store.beginScanWith_eq] at h
    have hunbegun := Store.beginScan_error_iff.1 h
    exact ⟨leaves_of_unbegun hunbegun, held_of_unbegun hunbegun⟩
  · have hunbegun := Store.beginScan_error_iff.1 h
    exact ⟨leaves_of_unbegun hunbegun, keeps_of_unbegun htop hown hunbegun⟩
  · rw [Store.beginScanWith_eq] at h
    have hunbegun := Store.beginScan_error_iff.1 h
    exact ⟨leaves_of_unbegun hunbegun, keeps_of_unbegun htop hown hunbegun⟩
  · exact Snapshot.OpenFile.keeps_of_failed htop hown hends

/-- A finished scan of one file, in a place where the next save fails. -/
def brittle : Store Vault :=
  let s := scanned "/" (.blank "/") oneFile
  { s with backend := { s.backend with failing := [3] } }

/-- Where the save fails, the finished scan is still with the place, and a
store that is opened there knows the file. Where the facts are not to be
had, the store itself still knows it. -/
theorem begin_failed_brittle :
    let s' := (brittle.beginScanWith (.blank "/")).2
    brittle.beginScanWith (.blank "/")
      = (.error (.system .inputOutput), s') ∧
    Emptied (.blank "/") s' ∧ held s'.close = held brittle.backend ∧
    (∃ t, Store.opened s'.close "/" = .ok t ∧ t.lookupPath "/a" = some 7) ∧
    brittle.beginScan (fun _ => .error (.system .notFound))
      = (.error (.system .notFound), brittle) := by
  intro s'
  have hfailed : brittle.beginScanWith (.blank "/")
      = (.error (.system .inputOutput), s') := rfl
  obtain ⟨-, hbegin, -⟩ := begin_failed brittle
    (fun _ => .error (.system .notFound)) (.blank "/")
  obtain ⟨hleaves, hheld⟩ := hbegin _ _ hfailed
  refine ⟨hfailed, hleaves.emptied _ rfl rfl, ?_, ⟨_, rfl, rfl⟩, rfl⟩
  rw [hleaves.closed rfl, hheld]

/-- A store with a finished scan of one file forgets it when another scan
does not begin: it was neither stale nor without the file, and it is both
now. -/
theorem begin_failed_forgets :
    let s' := (brittle.beginScanWith (.blank "/")).2
    (brittle.beginScanWith (.blank "/")).1
      = .error (.system .inputOutput) ∧
    brittle.isStale = false ∧ s'.isStale = true ∧
    brittle.lookupPath "/a" = some 7 ∧ s'.lookupPath "/a" = none ∧
    brittle.pathsOf 7 = ["/a"] ∧ s'.pathsOf 7 = [] ∧
    (∃ report, brittle.report = .ok report) ∧
    s'.report = .error .unfinishedScan ∧ s'.tables ≠ brittle.tables := by
  intro s'
  have hlost : s'.tables ≠ brittle.tables := by
    intro hsame
    have hfile : s'.lookupPath "/a" = brittle.lookupPath "/a" :=
      congrArg (·.paths.get? "/a") hsame
    exact absurd hfile (by decide)
  exact ⟨rfl, rfl, rfl, rfl, rfl, rfl, rfl, ⟨_, rfl⟩, rfl, hlost⟩

end Life

end DiskAtlas

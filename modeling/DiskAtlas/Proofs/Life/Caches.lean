/-
Computed values never outlive what they were computed from. In every phase
of its life a store's computed values are sound beside its tables, and so
is what the backend holds (`Phase.Sound`): a store computes only when its
scan is finished and indexed, a scan begins by dropping everything that
was computed and computes nothing, and whatever is saved is saved
together. Each step keeps this (`Step.sound`), so every run from a blank
place does (`Run.sound`), and with it everything a store answers follows
from its tables.

Nothing in this needs a backend that never fails. A save that fails leaves
what was held, and what was held was sound.
-/
import DiskAtlas.Proofs.Life.Rows

namespace DiskAtlas.Life

open LawfulBackend (held)

variable {β : Type}

-- ================================================================ stores

section Stores

variable {s : Store β} {x : Session β}

/-- A store whose scan has begun has nothing that could be unsound. -/
theorem sound_cleared (s : Store β) (summary : Summary) :
    (s.cleared summary).Sound := by
  refine ⟨fun ino inode h => ?_, Calculated.sound_empty _, fun other h => ?_⟩
  · cases h
  · exact absurd h ((s.unfinished_cleared summary).not_finished other)

/-- A store that a scan has filled and given up is sound, because nothing
was computed from it. -/
theorem sound_unfinished (hkeyed : x.store.tables.Keyed)
    (hnothing : x.store.calculated = .empty)
    (hunfinished : x.store.tables.Unfinished) :
    x.store.Sound := by
  refine ⟨hkeyed, ?_, fun summary hfinished => ?_⟩
  · rw [hnothing]
    exact Calculated.sound_empty _
  · exact absurd hfinished (hunfinished.not_finished summary)

/-- A scan that is finished leaves a sound store: its indexes are built
and nothing is computed yet. -/
theorem sound_finishedStore (hkeyed : x.store.tables.Keyed)
    (hnothing : x.store.calculated = .empty) (summary : Summary) :
    (x.finishedStore summary).Sound := by
  refine ⟨hkeyed, ?_, fun _ _ => rfl⟩
  show x.store.calculated.Sound _
  rw [hnothing]
  exact Calculated.sound_empty _

/-- A query that looks at anything was begun on a finished scan. -/
theorem finished_of_query {context : QueryContext} {filter : InodeFilter}
    {rows : Query.InodeRows} (h : Query.inodes s context filter = .ok rows) :
    (∃ summary, s.tables.Finished summary) ∨ rows.cursor.pending = [] := by
  unfold Query.inodes at h
  split at h
  · obtain rfl := Except.ok.inj h
    exact Or.inr rfl
  · cases hready : s.ensureReady with
    | error e =>
      rw [hready] at h
      cases h
    | ok summary =>
      exact Or.inl ⟨summary, Store.ensureReady_eq_ok_iff.1 hready⟩

end Stores

-- ============================================================= invariant

variable [Backend β] [LawfulBackend β]

/-- What a place holds, if anything, is sound. -/
def HeldSound (b : β) : Prop :=
  ∀ state, held b = some state →
    state.tables.Keyed ∧ state.calculated.Sound state.tables

/-- A store at rest is sound, its counts belong to its tables, and its
queries look at nothing unless the scan is finished. -/
structure Desk.Sound (d : Desk β) : Prop where
  held : HeldSound d.store.backend
  store : d.store.Sound
  counts : ∀ scan ∈ d.counts, Store.Counts d.store.tables scan
  queries : (∃ summary, d.store.tables.Finished summary) ∨
    ∀ rows ∈ d.queries, rows.cursor.pending = []

/-- While a scan fills a store, nothing is computed. -/
structure ScanSound (x : Session β) : Prop where
  held : HeldSound x.store.backend
  keyed : x.store.tables.Keyed
  nothing : x.store.calculated = .empty
  unfinished : x.store.tables.Unfinished

/-- What holds of a store in every phase of its life. -/
def Phase.Sound : Phase β → Prop
  | .closed backend => HeldSound backend
  | .resting desk => desk.Sound
  | .scanning session => ScanSound session

-- ================================================================ saving

variable {s s' : Store β}

/-- What a sound store leaves with its backend is sound. -/
theorem heldSound_of_saved (hs : s.Sound) (hheld : HeldSound s.backend)
    (h : s.Saved s') : HeldSound s'.backend := by
  intro state hstate
  rcases h.held_eq with heq | heq
  · exact hheld state (heq ▸ hstate)
  · obtain rfl := Option.some_inj.1 (heq.symm.trans hstate)
    exact ⟨hs.keyed, hs.calculated⟩

/-- A save changes the backend only, and what it wrote is what the store held;
so a sound store saved, whatever the save came to, is sound. -/
theorem sound_of_saved (hs : s.Sound) (h : s.Saved s') : s'.Sound := by
  refine ⟨?_, ?_, ?_⟩
  · rw [h.tables_eq]
    exact hs.keyed
  · rw [h.tables_eq, h.calculated_eq]
    exact hs.calculated
  · rw [h.tables_eq, h.index_eq]
    exact hs.indexed

/-- A store at rest that was just opened or saved has no counts and no
queries that could be unsound. -/
theorem Desk.sound_of_store (hs : s.Sound) (hheld : HeldSound s.backend) :
    ({ store := s } : Desk β).Sound :=
  ⟨hheld, hs, fun _ h => absurd h List.not_mem_nil,
    Or.inr fun _ h => absurd h List.not_mem_nil⟩

namespace Desk.Sound

variable {d : Desk β}

/-- Computing something leaves a desk sound. -/
theorem alike (hd : d.Sound) (halike : d.store.Alike s') (hs : s'.Sound) :
    ({ d with store := s' } : Desk β).Sound := by
  refine ⟨?_, hs, ?_, ?_⟩
  · rw [halike.backend_eq]
    exact hd.held
  · rw [halike.tables_eq]
    exact hd.counts
  · rw [halike.tables_eq]
    exact hd.queries

/-- Saving the store, or the store with less computed, leaves a desk
sound. -/
theorem saved (hd : d.Sound) {calculated : Calculated} {dirty : Bool}
    (hsound : calculated.Sound d.store.tables)
    (h : Store.Saved { d.store with calculated, dirty } s') :
    ({ d with store := s' } : Desk β).Sound := by
  have hs : ({ d.store with calculated, dirty } : Store β).Sound :=
    ⟨hd.store.keyed, hsound, hd.store.indexed⟩
  refine ⟨heldSound_of_saved hs hd.held h, sound_of_saved hs h, ?_, ?_⟩
  · rw [h.tables_eq]
    exact hd.counts
  · rw [h.tables_eq]
    exact hd.queries

/-- Counts and queries that are given up, or go on, leave a desk sound. -/
theorem replace (hd : d.Sound) {counts : List Overview.Scan}
    {queries : List Query.InodeRows}
    (hcounts : ∀ scan ∈ counts, Store.Counts d.store.tables scan)
    (hqueries : (∃ summary, d.store.tables.Finished summary) ∨
      ∀ rows ∈ queries, rows.cursor.pending = []) :
    ({ d with counts, queries } : Desk β).Sound :=
  ⟨hd.held, hd.store, hcounts, hqueries⟩

-- =============================================================== queries

/-- Asking a query for rows leaves a desk sound. -/
theorem asked (hd : d.Sound) {place : Nat} {rows : Query.InodeRows}
    (hrows : d.queries[place]? = some rows)
    {cursor : Query.Cursor Int64 InodeRow}
    (hcursor : cursor.pending
      = (rows.cursor.fill rows.look d.store).1.pending) :
    ({ d with
      store := (rows.cursor.fill rows.look d.store).2
      queries := d.queries.set place { rows with cursor } } : Desk β).Sound := by
  have hmem : rows ∈ d.queries := List.mem_of_getElem? hrows
  rcases hd.queries with ⟨summary, hfinished⟩ | hnone
  · obtain ⟨halike, hsound⟩ :=
      rows.cursor.fill_keeps rows.look
        (Query.lookInode_answers hfinished rows.filter).keeps
        ⟨.refl d.store, hd.store⟩
    have hmoved := hd.alike halike hsound
    refine hmoved.replace hmoved.counts (Or.inl ⟨summary, ?_⟩)
    rw [halike.tables_eq]
    exact hfinished
  · -- nothing is looked at, and nothing ever will be
    obtain ⟨hpending, hstore⟩ :=
      Query.Cursor.fill_of_pending_nil rows.look (hnone rows hmem) d.store
    rw [hstore]
    refine hd.replace hd.counts (Or.inr fun other hother => ?_)
    rcases List.mem_or_eq_of_mem_set hother with hold | rfl
    · exact hnone other hold
    · exact hcursor.trans hpending

-- ================================================================== uses

/-- Whatever is done with a store at rest, it stays sound. -/
theorem after (hd : d.Sound) (use : Use) : (d.after use).Sound := by
  cases use with
  | stats ino =>
    exact hd.alike (d.store.inodeStats_alike ino) (hd.store.inodeStats ino)
  | overview calledOff cells force =>
    exact hd.alike (d.store.overviewUnless_alike calledOff cells force)
      (hd.store.overviewUnless calledOff cells force)
  | beginCount cells =>
    dsimp only [Desk.after]
    split
    · exact hd
    · next scan hscan =>
      refine hd.replace (fun other hother => ?_) hd.queries
      rcases List.mem_append.1 hother with hold | hnew
      · exact hd.counts other hold
      · obtain rfl := List.mem_singleton.1 hnew
        exact Store.counts_of_overviewScan hscan
  | countOn place batch =>
    dsimp only [Desk.after]
    split
    · exact hd
    · next scan hscan =>
      refine hd.replace (fun other hother => ?_) hd.queries
      rcases List.mem_or_eq_of_mem_set hother with hold | rfl
      · exact hd.counts other hold
      · exact (hd.counts scan (List.mem_of_getElem? hscan)).step batch
  | finishCount place =>
    dsimp only [Desk.after]
    split
    · exact hd
    · next scan hscan =>
      have hcounts := hd.counts scan (List.mem_of_getElem? hscan)
      have hfinished := hd.alike (d.store.finishOverview_alike scan)
        (hd.store.finishOverview hcounts)
      -- what was counted is kept with the store before the count is given up
      exact hfinished.replace
        (fun other hother => hfinished.counts other
          (List.mem_of_mem_eraseIdx hother)) hfinished.queries
  | dropCount place =>
    exact hd.replace (fun other hother => hd.counts other
      (List.mem_of_mem_eraseIdx hother)) hd.queries
  | beginQuery context filter =>
    dsimp only [Desk.after]
    split
    · exact hd
    · next rows hrows =>
      refine hd.replace hd.counts ?_
      rcases finished_of_query hrows with hfinished | hpending
      · exact Or.inl hfinished
      · -- without a finished scan the new query hands nothing out, like the
        -- others
        refine hd.queries.imp_right fun hnone other hother => ?_
        rcases List.mem_append.1 hother with hold | hnew
        · exact hnone other hold
        · obtain rfl := List.mem_singleton.1 hnew
          exact hpending
  | nextRow place =>
    dsimp only [Desk.after]
    split
    · exact hd
    · next rows hrows => exact hd.asked hrows rfl
  | nextPage place =>
    dsimp only [Desk.after]
    split
    · exact hd
    · next rows hrows => exact hd.asked hrows rfl
  | dropQuery place =>
    exact hd.replace hd.counts (hd.queries.imp_right fun hnone other hother =>
      hnone other (List.mem_of_mem_eraseIdx hother))
  | clearCalculated =>
    obtain hsame | hsaved := d.store.dropCalculated_cases fun _ => .empty
    · dsimp only [Desk.after, Store.clearCalculated]
      rw [hsame]
      exact hd
    · exact hd.saved (Calculated.sound_empty _) hsaved
  | clearOverviews =>
    obtain hsame | hsaved := d.store.dropCalculated_cases fun c =>
      { c with overviews := .empty }
    · dsimp only [Desk.after, Store.clearOverviews]
      rw [hsame]
      exact hd
    · have hkept : ({ d.store.calculated with overviews := .empty } :
          Calculated).Sound d.store.tables :=
        ⟨hd.store.calculated.stats, fun _ _ h => absurd h List.not_mem_nil⟩
      exact hd.saved hkept hsaved
  | flush => exact hd.saved hd.store.calculated d.store.flush_saved

end Desk.Sound

-- ============================================================== scanning

namespace ScanSound

variable {x y : Session β}

/-- Filling changes the tables through their own insertions, which keep the
keys, and no statistics are kept while a session is open. -/
theorem fills {n : Nat} (hx : ScanSound x) (h : x.Fills n y) :
    ScanSound y := by
  refine ⟨?_, h.keyed hx.keyed, ?_, h.unfinished hx.unfinished⟩
  · rw [h.store_eq]
    exact hx.held
  · rw [h.store_eq]
    exact hx.nothing

theorem store (hx : ScanSound x) : x.store.Sound :=
  sound_unfinished hx.keyed hx.nothing hx.unfinished

theorem checkpoint (hx : ScanSound x) : ScanSound x.checkpoint.2 := by
  have hsaved := x.checkpoint_saved
  exact ⟨heldSound_of_saved hx.store hx.held hsaved,
    (sound_of_saved hx.store hsaved).keyed,
    hsaved.calculated_eq.trans hx.nothing,
    Session.unfinished_checkpoint hx.unfinished⟩

/-- Finishing a scan leaves a sound store and a sound state with its
backend, whether the save succeeds or not. -/
theorem finish (hx : ScanSound x) :
    ({ store := x.finish.2 } : Desk β).Sound := by
  cases hsummary : x.summary with
  | none =>
    have hsame : x.finish.2 = x.store := by
      rw [Session.finish, hsummary]
    rw [hsame]
    exact Desk.sound_of_store hx.store hx.held
  | some summary =>
    have hsaved := Session.finish_saved hsummary
    have hs := sound_finishedStore hx.keyed hx.nothing summary
    exact Desk.sound_of_store (sound_of_saved hs hsaved)
      (heldSound_of_saved hs hx.held hsaved)

end ScanSound

-- ================================================================= steps

variable {p q : Phase β} {event : Event} {events : List Event}

theorem Phase.Sound.held (hp : p.Sound) : HeldSound p.backend := by
  cases p with
  | closed => exact hp
  | resting => exact Desk.Sound.held hp
  | scanning => exact ScanSound.held hp

/-- A store opened on a sound state is sound. -/
theorem sound_opened {b : β} {fsPath : String} (hb : HeldSound b)
    (h : Store.opened b fsPath = .ok s) : s.Sound := by
  obtain ⟨-, -, hindex, hstate⟩ := Store.opened_eq h
  cases hheld : held b with
  | none =>
    rw [hheld] at hstate
    obtain ⟨htables, hcalculated⟩ := Persisted.mk.inj hstate
    refine ⟨?_, ?_, fun _ _ => hindex⟩
    · rw [← htables]
      exact fun _ _ h => nomatch h
    · rw [← hcalculated]
      exact Calculated.sound_empty _
  | some state =>
    rw [hheld, Option.getD_some] at hstate
    subst hstate
    obtain ⟨hkeyed, hcalculated⟩ := hb _ hheld
    exact ⟨hkeyed, hcalculated, fun _ _ => hindex⟩

/-- No step computes from tables that change, or keeps what was computed
from tables that did. -/
theorem Step.sound (h : Step p event q) (hp : p.Sound) : q.Sound := by
  cases h with
  | @opens b b' fsPath s same loaded =>
    have hb : HeldSound b' := fun state hstate => hp state (same ▸ hstate)
    obtain ⟨hbackend, -⟩ := Store.opened_eq loaded
    exact Desk.sound_of_store (sound_opened hb loaded) (hbackend ▸ hb)
  | @closes d =>
    have hd : d.Sound := hp
    exact heldSound_of_saved hd.store hd.held d.store.flush_saved
  | crashes => exact hp.held
  | uses use => exact Desk.Sound.after hp use
  | @begins d summary s saved =>
    have hd : d.Sound := hp
    obtain ⟨hsaved, -⟩ := Store.beginScanWith_ok saved
    have hcleared := sound_cleared d.store summary
    have hs := sound_of_saved hcleared hsaved
    exact ⟨heldSound_of_saved hcleared hd.held hsaved, hs.keyed,
      hsaved.calculated_eq, Store.unfinished_of_saved hsaved⟩
  | @refuses d summary e s failed =>
    have hd : d.Sound := hp
    -- the store is as it was, or emptied
    rcases Store.beginScanWith_error failed with rfl | ⟨hsaved, -⟩
    · exact Desk.sound_of_store hd.store hd.held
    · have hcleared := sound_cleared d.store summary
      exact Desk.sound_of_store (sound_of_saved hcleared hsaved)
        (heldSound_of_saved hcleared hd.held hsaved)
  | @puts x call => exact ScanSound.fills hp (call.put_fills x)
  | checkpoints => exact ScanSound.checkpoint hp
  | @abandons x =>
    have hx : ScanSound x := hp
    exact Desk.sound_of_store hx.store hx.held
  | finishes => exact ScanSound.finish hp

/-- Every phase that a run reaches from a sound one is sound. -/
theorem Run.sound (h : Run p events q) (hp : p.Sound) : q.Sound := by
  induction h with
  | start => exact hp
  | step _ last ih => exact last.sound ih

/-- A place where nothing was saved is sound. -/
theorem Blank.sound {b : β} (hb : Blank b) : (Phase.closed b).Sound := by
  intro state hstate
  cases hb.symm.trans hstate

-- ========================================================== transparency

/-- Tables with what is computed from them, in an open store or with its
backend. -/
inductive Phase.Has (p : Phase β) : Tables → Calculated → Prop where
  | held (state : Persisted) (h : held p.backend = some state) :
      p.Has state.tables state.calculated
  | resting (d : Desk β) (h : p = .resting d) :
      p.Has d.store.tables d.store.calculated
  | scanning (x : Session β) (h : p = .scanning x) :
      p.Has x.store.tables x.store.calculated

/-- The tables of a phase are keyed and its statistics are those of its tables,
whether they are in memory or only in the backend. -/
theorem Phase.Sound.has (hp : p.Sound) {t : Tables} {c : Calculated}
    (h : p.Has t c) : t.Keyed ∧ c.Sound t := by
  cases h with
  | held state h => exact hp.held state h
  | resting d h =>
    subst h
    have hd : d.Sound := hp
    exact ⟨hd.store.keyed, hd.store.calculated⟩
  | scanning x h =>
    subst h
    have hx : ScanSound x := hp
    exact ⟨hx.store.keyed, hx.store.calculated⟩

/-- What is kept can be told from what would be computed by nothing but
the time it takes. -/
structure Phase.Transparent (p : Phase β) : Prop where
  /-- Statistics that are kept are those of the inode's own content, in the
  order of the file. -/
  stats : ∀ t c, p.Has t c → ∀ ino stats,
    c.inodeStats.get? ino = some stats →
      ∃ inode, t.inodes.get? ino = some inode ∧
        stats = travelStats
          ((t.extentsOf ino).filter fun e => e.kind == inode.kind.primary)
  /-- Overviews that are kept have a resolution that the device allows, as
  many cells, and the counts of one pass over the extent table. -/
  overviews : ∀ t c, p.Has t c → ∀ cells overview,
    c.overviews.get? cells = some overview →
      ∃ summary, t.Finished summary ∧ 1 ≤ cells ∧
        cells ≤ summary.totalBytes ∧ overview.size = cells.toNat ∧
        overview = t.overviewOf cells summary.totalBytes
  /-- An overview that may be given from what is kept is the one that
  counting afresh gives, before and after whatever else is done. -/
  overview_eq : ∀ d, p = .resting d → ∀ (uses : List Use) cells,
    ((uses.foldl Desk.after d).store.overview cells false).1
      = (d.store.overview cells true).1
  /-- The statistics of an inode are the same whenever they are asked
  for. -/
  inodeStats_eq : ∀ d, p = .resting d → ∀ (uses : List Use) ino,
    ((uses.foldl Desk.after d).store.inodeStats ino).1
      = (d.store.inodeStats ino).1
  /-- When a scan has begun, nothing that was computed is left. -/
  rescan : ∀ fsPath summary q, Step p (.begun fsPath summary) q →
    ∀ t c, q.Has t c → c = .empty

/-- Whatever is done with a store at rest, it stays sound and keeps its
tables. -/
theorem Desk.Sound.foldl_after {d : Desk β} (hd : d.Sound)
    (uses : List Use) :
    (uses.foldl Desk.after d).Sound ∧
      (uses.foldl Desk.after d).store.tables = d.store.tables := by
  induction uses generalizing d with
  | nil => exact ⟨hd, rfl⟩
  | cons use rest ih =>
    obtain ⟨hsound, htables⟩ := ih (hd.after use)
    exact ⟨hsound, htables.trans (d.after_sameRows use).tables_eq⟩

/-- When a scan has begun, its store and what the backend holds have
nothing computed. -/
theorem has_of_begun {d : Desk β} {summary : Summary}
    (hbegun : d.store.beginScanWith summary = (.ok (), s)) {t : Tables}
    {c : Calculated} (h : (Phase.scanning { store := s }).Has t c) :
    c = .empty := by
  obtain ⟨hsaved, hheld⟩ := Store.beginScanWith_ok hbegun
  cases h with
  | held state h =>
    have hstate : held s.backend = some state := h
    rw [hheld] at hstate
    rw [← Option.some_inj.1 hstate]
  | resting d h => cases h
  | scanning x h =>
    obtain rfl := Phase.scanning.inj h
    exact hsaved.calculated_eq

/-- In every phase of a life that began at a blank place, computed values
are transparent. -/
theorem caches_transparent {b : β} (hb : Blank b) {events : List Event}
    {p : Phase β} (h : Run (.closed b) events p) : p.Transparent := by
  have hp : p.Sound := h.sound hb.sound
  refine ⟨?_, ?_, ?_, ?_, ?_⟩
  · intro t c hhas ino stats hkept
    obtain ⟨hkeyed, hsound⟩ := hp.has hhas
    obtain ⟨-, inode, hinode, rfl⟩ :=
      hsound.stats ino stats (SortedMap.get?_eq_some_iff.1 hkept)
    obtain rfl := hkeyed ino inode hinode
    exact ⟨inode, hinode, rfl⟩
  · intro t c hhas cells overview hkept
    obtain ⟨-, hsound⟩ := hp.has hhas
    obtain ⟨summary, hfinished, hpos, hle, rfl⟩ :=
      hsound.overviews cells overview (SortedMap.get?_eq_some_iff.1 hkept)
    exact ⟨summary, hfinished, hpos, hle,
      Overview.size_countAll _ _ _, rfl⟩
  · intro d hd uses cells
    subst hd
    obtain ⟨hsound, htables⟩ := Desk.Sound.foldl_after hp uses
    exact hp.store.overview_congr hsound.store htables cells true false
  · intro d hd uses ino
    subst hd
    obtain ⟨hsound, htables⟩ := Desk.Sound.foldl_after hp uses
    exact hp.store.inodeStats_congr hsound.store htables ino
  · intro fsPath summary q hstep t c hhas
    cases hstep with
    | begins saved => exact has_of_begun saved hhas

/-- Statistics of one file that are kept are transparent. -/
theorem caches_transparent_oneFile :
    let d : Desk Vault := { store := scanned "/" (.blank "/") oneFile }
    (d.after (.stats 7)).store.calculated.inodeStats.contains 7 = true ∧
      (Phase.resting (d.after (.stats 7))).Transparent := by
  have run := (run_scan "/" (.blank "/") oneFile).step (.uses (.stats 7))
  have hblank : Blank ({} : Vault) := rfl
  exact ⟨rfl, caches_transparent hblank run⟩

end DiskAtlas.Life

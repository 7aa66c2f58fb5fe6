/-
An interrupted scan never passes for a finished one. From the moment a
scan has begun both the store and its backend hold unfinished tables, and
only finishing changes that (`Step.unfinished`): whatever is saved, opened
or begun again in between is unfinished too. So a finished state with the
backend was left there by the scan that was finished last, and since
nothing but calls and checkpoints happened in that scan, its rows are
those of the calls (`Phase.Explained`).

The invariants are about the past and not about the store alone, since a state
that looks finished says nothing about how it came to be. `Explained`
therefore reads the events backwards to the last finish.
-/
import DiskAtlas.Proofs.Life.Rows

namespace DiskAtlas

namespace Life

open LawfulBackend (held)

-- =============================================================== answers

variable {β : Type}

section Answers

variable {s : Store β}

/-- What a store with an unfinished scan has to say. -/
structure RefusesAll (s : Store β) : Prop where
  stale : s.isStale = true
  report : s.report = .error .unfinishedScan
  overviewScan : ∀ cells, s.overviewScan cells = .error .unfinishedScan
  overview : ∀ calledOff cells force,
    (s.overviewUnless calledOff cells force).1 = .error .unfinishedScan
  inodeStats : ∀ ino, (s.inodeStats ino).1 = .error .unfinishedScan
  extents : ∀ context filter, context.visible.isEmpty = false →
    Query.extents s context filter = .error .unfinishedScan
  inodes : ∀ context filter, context.visible.isEmpty = false →
    Query.inodes s context filter = .error .unfinishedScan

/-- A store with an unfinished scan is stale and answers nothing. -/
theorem refusesAll_of_unfinished (h : s.tables.Unfinished) :
    RefusesAll s := by
  obtain ⟨summary, hsome, hnot⟩ := h
  have hready : s.ensureReady = .error .unfinishedScan := by
    simp [Store.ensureReady, hsome, hnot]
  have hscan : ∀ cells, s.overviewScan cells = .error .unfinishedScan := by
    intro cells
    rw [Store.overviewScan, hready]
    rfl
  refine ⟨?_, ?_, hscan, ?_, ?_, ?_, ?_⟩
  · simp [Store.isStale, hsome, hnot]
  · rw [Store.report, hready]
    rfl
  · intro calledOff cells force
    rw [Store.overviewUnless, hscan]
  · intro ino
    rw [Store.inodeStats, hready]
  · intro context filter hvisible
    rw [Query.extents, hvisible, hready]
    rfl
  · intro context filter hvisible
    rw [Query.inodes, hvisible, hready]
    rfl

end Answers

-- ========================================================== explanations

section Explanations

variable {event : Event} {events : List Event} {x : Session β}

/-- The calls among events. -/
def callsOf (events : List Event) : List Call :=
  events.filterMap fun
    | .put call => some call
    | _ => none

/-- Events in which a scan is filled, and saved now and then. -/
def IsFilling (events : List Event) : Prop :=
  ∀ event ∈ events, event = .checkpointed ∨ ∃ call, event = .put call

/-- Tables with the rows that some calls put in, no more and no fewer. -/
structure RowsOf (fsPath : String) (given : Summary) (calls : List Call)
    (t : Tables) : Prop where
  inodes : t.inodes = (filled fsPath given calls).store.tables.inodes
  paths : t.paths = (filled fsPath given calls).store.tables.paths
  directories :
    t.directories = (filled fsPath given calls).store.tables.directories
  extents : t.extents = (filled fsPath given calls).store.tables.extents

/-- Tables with the rows of the scan that was finished last. -/
def LastFinished (events : List Event) (t : Tables) : Prop :=
  ∃ before fsPath given filling after,
    events = before ++ .begun fsPath given :: filling ++ .finished :: after ∧
      .finished ∉ after ∧ IsFilling filling ∧
      RowsOf fsPath given (callsOf filling) t

/-- Finished tables have the rows of the last scan that was finished. -/
def Explained (events : List Event) (t : Tables) : Prop :=
  ∀ summary, t.Finished summary → LastFinished events t

/-- A session was begun and filled by nothing but calls. -/
def FilledBy (events : List Event) (x : Session β) : Prop :=
  ∃ before fsPath given filling,
    events = before ++ .begun fsPath given :: filling ∧ IsFilling filling ∧
      x = (filled fsPath given (callsOf filling)).within x.store

theorem explained_of_unfinished {t : Tables} (h : t.Unfinished) :
    Explained events t :=
  fun summary hfinished => absurd hfinished (h.not_finished summary)

/-- Anything but a finish leaves tables explained that were. -/
theorem Explained.mono {t : Tables} (h : Explained events t)
    (hevent : event ≠ .finished) : Explained (events ++ [event]) t := by
  intro summary hfinished
  obtain ⟨before, fsPath, given, filling, after, rfl, hafter, hrest⟩ :=
    h summary hfinished
  refine ⟨before, fsPath, given, filling, after ++ [event], ?_, ?_, hrest⟩
  · simp
  · simp only [List.mem_append, List.mem_singleton, not_or]
    exact ⟨hafter, Ne.symm hevent⟩

theorem FilledBy.unfinished (h : FilledBy events x) :
    x.store.tables.Unfinished := by
  obtain ⟨before, fsPath, given, filling, -, -, hx⟩ := h
  rw [(Session.eq_within_iff.1 hx).1]
  exact unfinished_filled _ _ _

/-- A call goes on filling a session. -/
theorem FilledBy.put (h : FilledBy events x) (call : Call) :
    FilledBy (events ++ [.put call]) (call.put x) := by
  obtain ⟨before, fsPath, given, filling, rfl, hfilling, hx⟩ := h
  refine ⟨before, fsPath, given, filling ++ [.put call], by simp, ?_, ?_⟩
  · intro event hevent
    rcases List.mem_append.1 hevent with hold | hnew
    · exact hfilling event hold
    · exact Or.inr ⟨call, List.mem_singleton.1 hnew⟩
  · have hcalls : callsOf (filling ++ [.put call])
        = callsOf filling ++ [call] := by
      rw [callsOf, List.filterMap_append]
      rfl
    rw [hcalls, filled_snoc]
    exact call.eq_within_put hx

/-- A scan that is finished has the rows that its calls put in. -/
theorem FilledBy.lastFinished (h : FilledBy events x)
    (summary : Summary) :
    LastFinished (events ++ [.finished]) (x.finishedStore summary).tables := by
  obtain ⟨before, fsPath, given, filling, rfl, hfilling, hx⟩ := h
  have htables := (Session.eq_within_iff.1 hx).1
  refine ⟨before, fsPath, given, filling, [], rfl, List.not_mem_nil,
    hfilling, ?_⟩
  exact ⟨congrArg (·.inodes) htables, congrArg (·.paths) htables,
    congrArg (·.directories) htables, congrArg (·.extents) htables⟩

end Explanations

variable [Backend β] [LawfulBackend β]

-- ============================================================ unfinished

/-- The backend holds an unfinished scan. -/
def HeldUnfinished (b : β) : Prop :=
  ∃ state, held b = some state ∧ state.tables.Unfinished

/-- An unfinished scan is with the backend, and in the store if it is
open. -/
def Phase.Unfinished : Phase β → Prop
  | .closed backend => HeldUnfinished backend
  | .resting desk =>
    HeldUnfinished desk.store.backend ∧ desk.store.tables.Unfinished
  | .scanning session =>
    HeldUnfinished session.store.backend ∧ session.store.tables.Unfinished

/-- Before anything has finished, the backend holds no finished scan either. -/
theorem Phase.Unfinished.held {p : Phase β} (hp : p.Unfinished) :
    HeldUnfinished p.backend := by
  cases p with
  | closed => exact hp
  | resting => exact hp.1
  | scanning => exact hp.1

variable {s s' : Store β}

/-- A backend with an unfinished scan, or with the rows of one. -/
theorem heldUnfinished_of_sameRows (h : s.SameRows s')
    (hheld : HeldUnfinished s.backend) (hs : s.tables.Unfinished) :
    HeldUnfinished s'.backend := by
  rcases h.held_eq with heq | ⟨calculated, heq⟩
  · obtain ⟨state, hstate, hunfinished⟩ := hheld
    exact ⟨state, heq.trans hstate, hunfinished⟩
  · exact ⟨_, heq, hs⟩

theorem unfinished_opened {b : β} {fsPath : String}
    (hb : HeldUnfinished b) (h : Store.opened b fsPath = .ok s) :
    s.tables.Unfinished := by
  obtain ⟨state, hheld, hunfinished⟩ := hb
  obtain ⟨-, -, -, hstate⟩ := Store.opened_eq h
  rw [hheld, Option.getD_some] at hstate
  rwa [hstate] at hunfinished

variable {p q : Phase β} {event : Event} {events : List Event}

/-- When a scan has begun, it is unfinished everywhere. -/
theorem Step.unfinished_of_begun {fsPath : String} {given : Summary}
    (h : Step p (.begun fsPath given) q) : q.Unfinished := by
  cases h with
  | @begins d given s saved =>
    obtain ⟨hsaved, hheld⟩ := Store.beginScanWith_ok saved
    exact ⟨⟨_, hheld, d.store.unfinished_cleared given⟩,
      Store.unfinished_of_saved hsaved⟩

/-- No step but finishing makes a scan finished. -/
theorem Step.unfinished (h : Step p event q) (hevent : event ≠ .finished)
    (hp : p.Unfinished) : q.Unfinished := by
  -- a finish is excluded, and nothing else sets the mark
  cases h with
  | @opens b b' fsPath s same loaded =>
    obtain ⟨state, hstate, hunfinished⟩ := hp
    have hb : HeldUnfinished b' := ⟨state, same.trans hstate, hunfinished⟩
    obtain ⟨rfl, -⟩ := Store.opened_eq loaded
    exact ⟨hb, unfinished_opened hb loaded⟩
  | @closes d =>
    exact heldUnfinished_of_sameRows d.store.flush_saved.sameRows hp.1 hp.2
  | crashes => exact hp.held
  | @uses d use =>
    have hsame := d.after_sameRows use
    refine ⟨heldUnfinished_of_sameRows hsame hp.1 hp.2, ?_⟩
    rw [hsame.tables_eq]
    exact hp.2
  | begins saved => exact Step.unfinished_of_begun (.begins saved)
  | @refuses d given e s failed =>
    rcases Store.beginScanWith_error failed with rfl | ⟨hsaved, hheld⟩
    · exact hp
    · obtain ⟨state, hstate, hunfinished⟩ := hp.1
      exact ⟨⟨state, hheld.trans hstate, hunfinished⟩,
        Store.unfinished_of_saved hsaved⟩
  | @puts x call =>
    have hfills := call.put_fills x
    refine ⟨?_, hfills.unfinished hp.2⟩
    rw [hfills.store_eq]
    exact hp.1
  | @checkpoints x =>
    exact ⟨heldUnfinished_of_sameRows x.checkpoint_saved.sameRows hp.1 hp.2,
      Session.unfinished_checkpoint hp.2⟩
  | abandons => exact hp
  | finishes => exact absurd rfl hevent

/-- A state with an unfinished scan that whoever opens it will know. -/
structure Phase.Interrupted (p : Phase β) : Prop where
  unfinished : HeldUnfinished p.backend
  refuses : ∀ (b : β) fsPath s, held b = held p.backend →
    Store.opened b fsPath = .ok s → RefusesAll s

/-- Whoever opens a place that holds an unfinished scan is refused every query.
-/
theorem Phase.Unfinished.interrupted (hp : p.Unfinished) :
    p.Interrupted := by
  refine ⟨hp.held, fun b fsPath s hb hopened => ?_⟩
  obtain ⟨state, hstate, hunfinished⟩ := hp.held
  exact refusesAll_of_unfinished
    (unfinished_opened ⟨state, hb.trans hstate, hunfinished⟩ hopened)

/-- From the beginning of a scan on, as long as none is finished, the scan
is unfinished everywhere. -/
theorem Run.unfinished {b : β} (h : Run (.closed b) events p)
    {before after : List Event} {fsPath : String} {given : Summary}
    (hevents : events = before ++ .begun fsPath given :: after)
    (hafter : .finished ∉ after) : p.Unfinished := by
  induction h generalizing after with
  | start =>
    have hlength := congrArg List.length hevents
    simp at hlength
  | @step p q events event run last ih =>
    rcases List.eq_nil_or_concat after with rfl | ⟨rest, final, rfl⟩
    · obtain ⟨-, hlast⟩ := List.append_inj' hevents rfl
      obtain rfl := List.singleton_inj.1 hlast
      exact last.unfinished_of_begun
    · rw [List.concat_eq_append, ← List.cons_append,
        ← List.append_assoc] at hevents
      obtain ⟨hinit, hlast⟩ := List.append_inj' hevents rfl
      obtain rfl := List.singleton_inj.1 hlast
      simp only [List.concat_eq_append, List.mem_append, List.mem_singleton,
        not_or] at hafter
      exact last.unfinished (Ne.symm hafter.2) (ih hinit hafter.1)

-- ============================================================ explained

/-- Wherever there is a finished scan, it is the one finished last. -/
def Phase.Explained (events : List Event) : Phase β → Prop
  | .closed backend =>
    ∀ state, held backend = some state → Life.Explained events state.tables
  | .resting desk =>
    (∀ state, held desk.store.backend = some state →
      Life.Explained events state.tables) ∧
    Life.Explained events desk.store.tables
  | .scanning session =>
    HeldUnfinished session.store.backend ∧ FilledBy events session

/-- What the backend holds is explained if it was before, and the rows are
that may have been saved. -/
theorem heldExplained_of_sameRows (h : s.SameRows s')
    (hheld : ∀ state, held s.backend = some state →
      Explained events state.tables)
    (hs : Explained events s.tables) {state : Persisted}
    (hstate : held s'.backend = some state) :
    Explained events state.tables := by
  rcases h.held_eq with heq | ⟨calculated, heq⟩
  · exact hheld state (heq.symm.trans hstate)
  · obtain rfl := Option.some_inj.1 (heq.symm.trans hstate)
    exact hs

/-- An unfinished scan needs no explanation. -/
theorem HeldUnfinished.explained {b : β} (h : HeldUnfinished b)
    {state : Persisted} (hstate : held b = some state) :
    Explained events state.tables := by
  obtain ⟨other, hother, hunfinished⟩ := h
  obtain rfl := Option.some_inj.1 (hother.symm.trans hstate)
  exact explained_of_unfinished hunfinished

/-- A scan that has just begun is filled by no calls. -/
theorem filledBy_of_begun {given : Summary}
    (h : s.beginScanWith given = (.ok (), s')) :
    FilledBy (events ++ [.begun s.fsPath given]) ({ store := s' } : Session β)
    := by
  obtain ⟨hsaved, -⟩ := Store.beginScanWith_ok h
  refine ⟨events, s.fsPath, given, [], rfl,
    fun _ hevent => absurd hevent List.not_mem_nil, ?_⟩
  exact Session.eq_within_iff.2 ⟨hsaved.tables_eq, rfl⟩

/-- A checkpoint leaves a session as it was filled. -/
theorem FilledBy.checkpoint {x : Session β} (h : FilledBy events x) :
    FilledBy (events ++ [.checkpointed]) x.checkpoint.2 := by
  obtain ⟨before, fsPath, given, filling, rfl, hfilling, hx⟩ := h
  have hcalls : callsOf (filling ++ [.checkpointed]) = callsOf filling := by
    rw [callsOf, List.filterMap_append]
    exact List.append_nil _
  refine ⟨before, fsPath, given, filling ++ [.checkpointed], by simp, ?_, ?_⟩
  · intro event hevent
    rcases List.mem_append.1 hevent with hold | hnew
    · exact hfilling event hold
    · exact Or.inl (List.mem_singleton.1 hnew)
  · obtain ⟨htables, hdiscarded⟩ := Session.eq_within_iff.1 hx
    rw [hcalls]
    refine Session.eq_within_iff.2 ⟨?_, hdiscarded⟩
    exact x.checkpoint_saved.tables_eq.trans htables

/-- Finishing a scan leaves its own rows, in the store and, if the save
succeeds, with the backend. -/
theorem FilledBy.finish {x : Session β} (h : FilledBy events x)
    (hheld : HeldUnfinished x.store.backend) :
    Phase.Explained (events ++ [.finished])
      (.resting { store := x.finish.2 }) := by
  obtain ⟨summary, hsummary, -⟩ := h.unfinished
  have hsaved := Session.finish_saved hsummary
  have hlast := h.lastFinished summary
  refine ⟨fun state hstate => ?_, ?_⟩
  · exact heldExplained_of_sameRows hsaved.sameRows
      (fun _ hstate => hheld.explained hstate) (fun _ _ => hlast) hstate
  · intro other hother
    show LastFinished _ x.finish.2.tables
    rw [hsaved.tables_eq]
    exact hlast

/-- A store opens with the scan that the backend holds, or with none. -/
theorem explained_opened {b : β}
    (h : (held b).getD default = ⟨s.tables, s.calculated⟩)
    (hb : ∀ state, held b = some state → Explained events state.tables) :
    Explained events s.tables := by
  cases hheld : held b with
  | none =>
    rw [hheld] at h
    obtain ⟨htables, -⟩ := Persisted.mk.inj h
    rintro summary ⟨hsome, -⟩
    rw [← htables] at hsome
    cases hsome
  | some state =>
    rw [hheld, Option.getD_some] at h
    have hstate := hb state hheld
    rwa [h] at hstate

/-- Every step leaves finished scans explained. -/
theorem Step.explained (h : Step p event q) (hp : p.Explained events) :
    q.Explained (events ++ [event]) := by
  cases h with
  | @opens b b' fsPath s same loaded =>
    obtain ⟨rfl, -, -, hopened⟩ := Store.opened_eq loaded
    refine ⟨fun state hstate => ?_, ?_⟩
    · exact (hp state (same.symm.trans hstate)).mono nofun
    · exact (explained_opened (same ▸ hopened) hp).mono nofun
  | @closes d =>
    intro state hstate
    exact (heldExplained_of_sameRows d.store.flush_saved.sameRows hp.1 hp.2
      hstate).mono nofun
  | crashes =>
    intro state hstate
    refine Explained.mono ?_ nofun
    cases p with
    | closed => exact hp state hstate
    | resting => exact hp.1 state hstate
    | scanning => exact hp.1.explained hstate
  | @uses d use =>
    have hsame := d.after_sameRows use
    refine ⟨fun state hstate => ?_, ?_⟩
    · exact (heldExplained_of_sameRows hsame hp.1 hp.2 hstate).mono nofun
    · rw [hsame.tables_eq]
      exact hp.2.mono nofun
  | begins saved =>
    have hunfinished := Step.unfinished_of_begun (.begins saved)
    -- from here on nothing is finished, and the session is filled from the
    -- start
    exact ⟨hunfinished.held, filledBy_of_begun saved⟩
  | @refuses d given e s failed =>
    rcases Store.beginScanWith_error failed with rfl | ⟨hsaved, hheld⟩
    · exact ⟨fun state hstate => (hp.1 state hstate).mono nofun,
        hp.2.mono nofun⟩
    · -- the rows are gone from the store, and the backend has its own
      refine ⟨fun state hstate => ?_, ?_⟩
      · exact (hp.1 state (hheld.symm.trans hstate)).mono nofun
      · exact explained_of_unfinished (Store.unfinished_of_saved hsaved)
  | @puts x call =>
    refine ⟨?_, hp.2.put call⟩
    rw [(call.put_fills x).store_eq]
    exact hp.1
  | @checkpoints x =>
    exact ⟨heldUnfinished_of_sameRows x.checkpoint_saved.sameRows hp.1
      hp.2.unfinished, hp.2.checkpoint⟩
  | abandons =>
    exact ⟨fun state hstate => hp.1.explained hstate,
      explained_of_unfinished hp.2.unfinished⟩
  | finishes => exact hp.2.finish hp.1

/-- Whatever happened since nothing was saved, finished scans are
explained. -/
theorem Run.explained {b : β} (hb : Blank b)
    (h : Run (.closed b) events p) : p.Explained events := by
  induction h with
  | start =>
    intro state hstate
    cases hb.symm.trans hstate
  | step _ last ih => exact last.explained ih

/-- What the backend holds is explained by the same events as the phase itself,
so a reopening starts from an explained state. -/
theorem Phase.Explained.held (hp : p.Explained events) {state : Persisted}
    (hstate : held p.backend = some state) :
    Life.Explained events state.tables := by
  cases p with
  | closed => exact hp state hstate
  | resting => exact hp.1 state hstate
  | scanning => exact hp.1.explained hstate

/-- In a life that began at a blank place, a scan that has begun and was
not finished is known as such by whoever opens the store; and a finished
scan has the rows of the calls of the one session that was finished last.
-/
theorem interrupted_or_explained {b : β} (hb : Blank b)
    (h : Run (.closed b) events p) :
    (∀ before fsPath given after,
      events = before ++ .begun fsPath given :: after →
        .finished ∉ after → p.Interrupted) ∧
    ∀ state summary, held p.backend = some state →
      state.tables.Finished summary → LastFinished events state.tables := by
  constructor
  · intro before fsPath given after hevents hafter
    exact (h.unfinished hevents hafter).interrupted
  · intro state summary hstate hfinished
    exact (h.explained hb).held hstate summary hfinished

/-- A scan of one file is interrupted until it is finished, and then it is
the one finished last. -/
theorem interrupted_or_explained_oneFile :
    let events := fillingOf "/" (.blank "/") oneFile
    let x := (filled "/" (.blank "/") oneFile).within (begun "/" (.blank "/"))
    let s := scanned "/" (.blank "/") oneFile
    (Phase.scanning x).Interrupted ∧ s.isStale = false ∧
      LastFinished (events ++ [.finished]) s.tables := by
  intro events x s
  have hblank : Blank ({} : Vault) := rfl
  have hfilled := run_filling "/" (.blank "/") oneFile
  have hfinished := run_scan "/" (.blank "/") oneFile
  refine ⟨?_, rfl, ?_⟩
  · exact (interrupted_or_explained hblank hfilled).1 [.opened "/"] "/" _ _ rfl
      (by simp [oneFile])
  · exact (interrupted_or_explained hblank hfinished).2 ⟨s.tables, .empty⟩ _ rfl
      ⟨rfl, rfl⟩

end Life

end DiskAtlas

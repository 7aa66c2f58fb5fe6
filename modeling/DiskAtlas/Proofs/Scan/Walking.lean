/-
A walk, visit by visit. `Maps` lists what a visit can do about the extents
of its object, and `Makes` the visits that a walk has made, each with what
became of the extents. It is the walk itself (`Makes.visitPending`), so what
every visit keeps holds of a walk: extents are asked for once for an inode,
and only what fails is counted as an error.

The rows that a walk puts in follow from its visits, but for the extents
(`Makes.tables_eq`). Where every save succeeds, a walk makes the same visits
whatever store it fills and however often it is saved (`exists_makes`).
-/
import DiskAtlas.Proofs.Scan.Stack
import DiskAtlas.Proofs.Mapping.Willing
import DiskAtlas.Proofs.Store.Filling
import DiskAtlas.Proofs.Store.Saving

namespace DiskAtlas

namespace Scan

open Mapping

variable {β σ : Type}

-- ================================================================== fates

/-- What became of the extents of an object that was visited. -/
inductive Fate where
  /-- They were not asked for: the object was met under another name, or it
  is a symbolic link. -/
  | passed
  /-- The object could not be opened. -/
  | unopened
  /-- They were asked for and mapped. -/
  | mapped
  /-- They were asked for, and the mapping failed. -/
  | broken
  deriving DecidableEq

namespace Fate

def isAsked : Fate → Bool
  | mapped | broken => true
  | passed | unopened => false

def isFailure : Fate → Bool
  | unopened | broken => true
  | passed | mapped => false

end Fate

/-- The tables with an object that was visited, but for its extents. -/
def naming (t : Tables) (v : Visit σ) : Tables :=
  { t with
    inodes := t.inodes.insert v.inode.ino v.inode
    paths := t.paths.insert v.path v.inode.ino
    directories :=
      if v.inode.kind = .directory then
        let before := (t.directories.get? v.inode.ino).getD .empty
        t.directories.insert v.inode.ino (before.insertMany v.names)
      else t.directories }

namespace Walk

/-- The walk with the inode of a visit among those it knows. -/
def knowing (w : Walk β) (v : Visit σ) : Walk β :=
  { w with mapped := v.inode.ino :: w.mapped }

/-- How the mapping of an object goes, and the mapper behind it. -/
def mapping (w : Walk β) (inode : Inode) (reading : Reading σ) :
    MapRun (Session β) × Mapper :=
  w.mapper.map ⟨inode, reading.file, reading.blocks⟩
    (fun isXattr raw x => .ok (x.insertExtent inode raw isXattr).2)
    reading.state w.session

/-- The walk after the mapping of an object, however it went. -/
def asking (w : Walk β) (inode : Inode) (reading : Reading σ) : Walk β :=
  { w with
    session := (w.mapping inode reading).1.state
    mapper := (w.mapping inode reading).2 }

/-- The walk behind a visit whose object was mapped. -/
def behind (w : Walk β) (v : Visit σ) : Walk β :=
  { w.listObject v with visited := (w.listObject v).visited + 1 }

/-- What a visit can do about the extents of its object. -/
inductive Maps (v : Visit σ) (w : Walk β) : Fate → Walk β → Prop where
  | again (known : v.inode.ino ∈ w.mapped) : Maps v w .passed w
  | link (fresh : v.inode.ino ∉ w.mapped) (kind : v.inode.kind = .symlink) :
      Maps v w .passed (w.knowing v)
  | unopened (fresh : v.inode.ino ∉ w.mapped)
      (kind : v.inode.kind ≠ .symlink) (closed : v.reading = none) :
      Maps v w .unopened (w.knowing v).fail
  | mapped {reading : Reading σ} {outcome : MapOutcome}
      (fresh : v.inode.ino ∉ w.mapped) (kind : v.inode.kind ≠ .symlink)
      (opened : v.reading = some reading)
      (ended : ((w.knowing v).mapping v.inode reading).1.outcome
        = .ok outcome) :
      Maps v w .mapped ((w.knowing v).asking v.inode reading)
  | broken {reading : Reading σ} {e : Error}
      (fresh : v.inode.ino ∉ w.mapped) (kind : v.inode.kind ≠ .symlink)
      (opened : v.reading = some reading)
      (ended : ((w.knowing v).mapping v.inode reading).1.outcome = .error e) :
      Maps v w .broken ((w.knowing v).asking v.inode reading).fail

/-- The visits that a walk has made, one after the other, each with a
checkpoint behind it if it was time to. -/
inductive Makes [Backend β] (interval : Option UInt64) :
    Walk β → List (Visit σ × Fate) → Walk β → Prop where
  | none (w : Walk β) : Makes interval w [] w
  | visit {w mapped after last : Walk β} {session : Session β} {v : Visit σ}
      {fate : Fate} {made : List (Visit σ × Fate)}
      (puts : w.session.insertInode v.inode v.path = (.ok (), session))
      (maps : Maps v { w with session } fate mapped)
      (saves : (mapped.behind v).checkpoint interval = (.ok (), after))
      (rest : Makes interval after made last) :
      Makes interval w ((v, fate) :: made) last

-- ============================================================== the walk

section Faithful

variable {v : Visit σ} {w w₁ : Walk β} {fate : Fate}

/-- Mapping an object that could be opened, by how its mapping goes. A failure
is counted and the walk goes on. -/
theorem mapReading_eq (w : Walk β) (inode : Inode) (reading : Reading σ) :
    w.mapReading inode reading =
      match (w.mapping inode reading).1.outcome with
      | .ok _ => w.asking inode reading
      | .error _ => (w.asking inode reading).fail := by
  cases hended : (w.mapping inode reading).1.outcome with
  | ok outcome =>
    unfold mapping at hended
    unfold mapReading asking mapping
    simp only [hended]
  | error e =>
    unfold mapping at hended
    unfold mapReading asking mapping
    simp only [hended]

theorem mapObject_known (h : v.inode.ino ∈ w.mapped) : w.mapObject v = w :=
  if_pos (List.contains_iff_mem.2 h)

/-- An object that is new is known from then on, also if it is a link or cannot
be opened. -/
theorem mapObject_fresh (h : v.inode.ino ∉ w.mapped) :
    w.mapObject v =
      if v.inode.kind = .symlink then w.knowing v
      else
        match v.reading with
        | none => (w.knowing v).fail
        | some reading => (w.knowing v).mapReading v.inode reading :=
  if_neg fun hknown => h (List.contains_iff_mem.1 hknown)

/-- A visit does one of the things that it can do. -/
theorem maps_mapObject (v : Visit σ) (w : Walk β) :
    ∃ fate, Maps v w fate (w.mapObject v) := by
  by_cases hknown : v.inode.ino ∈ w.mapped
  · rw [mapObject_known hknown]
    exact ⟨_, .again hknown⟩
  · rw [mapObject_fresh hknown]
    by_cases hkind : v.inode.kind = .symlink
    · rw [if_pos hkind]
      exact ⟨_, .link hknown hkind⟩
    · rw [if_neg hkind]
      cases hreading : v.reading with
      | none => exact ⟨_, .unopened hknown hkind hreading⟩
      | some reading =>
        dsimp only
        rw [mapReading_eq]
        cases hended : ((w.knowing v).mapping v.inode reading).1.outcome with
        | ok => exact ⟨_, .mapped hknown hkind hreading hended⟩
        | error => exact ⟨_, .broken hknown hkind hreading hended⟩

/-- It does what the walk does. -/
theorem Maps.eq_mapObject (h : Maps v w fate w₁) : w₁ = w.mapObject v := by
  cases h with
  | again known => rw [mapObject_known known]
  | link fresh kind => rw [mapObject_fresh fresh, if_pos kind]
  | unopened fresh kind closed =>
    rw [mapObject_fresh fresh, if_neg kind, closed]
  | mapped fresh kind opened ended =>
    rw [mapObject_fresh fresh, if_neg kind, opened]
    dsimp only
    rw [mapReading_eq, ended]
  | broken fresh kind opened ended =>
    rw [mapObject_fresh fresh, if_neg kind, opened]
    dsimp only
    rw [mapReading_eq, ended]

/-- A visit to an object that can be put in. -/
theorem visit_of_put {session : Session β}
    (puts : w.session.insertInode v.inode v.path = (.ok (), session)) :
    w.visit v = (.ok (), ({ w with session }.mapObject v).behind v) := by
  rw [visit, puts]
  rfl

/-- The visits that a walk has made are those that it makes, if nobody calls
it off. -/
theorem Makes.visitAll [Backend β] {interval : Option UInt64} {watch : Watch}
    {w last : Walk β} {made : List (Visit σ × Fate)}
    (h : Makes interval w made last)
    (hwatch : ∀ n, watch.beforeVisit n = false) :
    w.visitAll interval watch (made.map (·.1)) = (.ok (), last) := by
  induction h with
  | none w => rfl
  | @visit w mapped after last session v fate made puts maps saves rest ih =>
    have hvisit : w.visit v = (.ok (), mapped.behind v) := by
      rw [maps.eq_mapObject, visit_of_put puts]
    rw [List.map_cons, Walk.visitAll, hwatch, if_neg Bool.false_ne_true]
    simp only [hvisit, saves]
    exact ih

/-- If they are what a stack stands for, the walk has emptied the stack. -/
theorem Makes.visitPending [Backend β] {interval : Option UInt64}
    {watch : Watch} {w last : Walk β} {made : List (Visit σ × Fate)}
    {device : UInt64} {separator : Char} {stack : List (Pending σ)}
    (h : Makes interval w made last)
    (hstack : unvisited device separator stack = made.map (·.1))
    (hwatch : ∀ n, watch.beforeVisit n = false) :
    w.visitPending interval watch device separator stack = (.ok (), last) := by
  rw [visitPending_eq_visitAll, hstack]
  exact h.visitAll hwatch

end Faithful

-- ================================================================ keeping

section Keeping

variable {v : Visit σ} {w w₁ : Walk β} {fate : Fate}

/-- A mapping puts in extents at most. -/
theorem asking_sameNames (w : Walk β) (inode : Inode) (reading : Reading σ) :
    w.session.SameNames (w.asking inode reading).session := by
  obtain ⟨outcome, requests, asked, records, mapper, hmap⟩ :=
    w.mapper.map_willing ⟨inode, reading.file, reading.blocks⟩ reading.state
  unfold asking mapping
  rw [hmap]
  generalize w.session = x
  dsimp only
  clear hmap
  induction records generalizing x with
  | nil => exact .refl x
  | cons record records ih =>
    exact (Session.insertExtent_sameNames inode record.2 record.1).trans
      (ih _)

/-- A mapping may remember a refusal, but keeps the settings. -/
theorem asking_settings (w : Walk β) (inode : Inode) (reading : Reading σ) :
    (w.asking inode reading).mapper.settings = w.mapper.settings :=
  w.mapper.after_settings ⟨⟨inode, reading.file, reading.blocks⟩,
    reading.state, _, w.session⟩

/-- Extents change neither rows nor paths nor directories. -/
theorem Maps.sameNames (h : Maps v w fate w₁) :
    w.session.SameNames w₁.session := by
  cases h with
  | again | link | unopened => exact .refl _
  | @mapped reading _ => exact asking_sameNames (w.knowing v) v.inode reading
  | @broken reading _ => exact asking_sameNames (w.knowing v) v.inode reading

/-- The inode is known behind a visit, and what was known stays known. -/
theorem Maps.mapped_eq (h : Maps v w fate w₁) :
    w₁.mapped = if v.inode.ino ∈ w.mapped then w.mapped
      else v.inode.ino :: w.mapped := by
  cases h with
  | again known => rw [if_pos known]
  | link fresh | unopened fresh | mapped fresh | broken fresh =>
    rw [if_neg fresh]
    rfl

theorem Maps.errors_eq (h : Maps v w fate w₁) :
    w₁.errors = w.errors + if fate.isFailure then 1 else 0 := by
  cases h <;> rfl

theorem Maps.settings_eq (h : Maps v w fate w₁) :
    w₁.mapper.settings = w.mapper.settings := by
  cases h with
  | again | link | unopened => rfl
  | @mapped reading _ => exact asking_settings (w.knowing v) v.inode reading
  | @broken reading _ => exact asking_settings (w.knowing v) v.inode reading

/-- Extents are asked for only of objects that are new and no links. -/
theorem Maps.of_isAsked (h : Maps v w fate w₁)
    (hasked : fate.isAsked = true) :
    v.inode.ino ∉ w.mapped ∧ v.inode.kind ≠ .symlink := by
  cases h with
  | again | link | unopened => cases hasked
  | mapped fresh kind => exact ⟨fresh, kind⟩
  | broken fresh kind => exact ⟨fresh, kind⟩

/-- What a walk keeps when it puts the names of a directory in. -/
theorem behind_eq (w : Walk β) (v : Visit σ) :
    (w.behind v).mapped = w.mapped ∧ (w.behind v).mapper = w.mapper ∧
      (w.behind v).errors
        = w.errors + if v.inode.kind = .directory then v.failures else 0 := by
  unfold behind listObject
  split <;> exact ⟨rfl, rfl, rfl⟩

variable [Backend β] {interval : Option UInt64} {last : Walk β}
  {made : List (Visit σ × Fate)}

/-- What a walk keeps when it is saved. -/
theorem checkpoint_eq (w : Walk β) (interval : Option UInt64) :
    ∃ backend dirty, (w.checkpoint interval).2 = { w with
      session.store := { w.session.store with backend, dirty } } := by
  obtain ⟨backend, dirty, hsaved⟩ := w.session.store.persist_eq
  have hsession : w.session.checkpoint.2 = { w.session with
      store := { w.session.store with backend, dirty } } := by
    rw [← hsaved]
    rfl
  unfold checkpoint
  cases interval with
  | none => exact ⟨_, _, rfl⟩
  | some n =>
    dsimp only
    split
    · exact ⟨_, _, rfl⟩
    · split
      · refine ⟨backend, dirty, ?_⟩
        split <;> next hcheckpoint => rw [← hsession, hcheckpoint]
      · exact ⟨_, _, rfl⟩

/-- What a visit with its checkpoint has changed. -/
structure Changed (w : Walk β) (v : Visit σ) (fate : Fate)
    (after : Walk β) : Prop where
  mapped : after.mapped = if v.inode.ino ∈ w.mapped then w.mapped
    else v.inode.ino :: w.mapped
  errors : after.errors = w.errors + (if fate.isFailure then 1 else 0)
    + if v.inode.kind = .directory then v.failures else 0
  settings : after.mapper.settings = w.mapper.settings
  tables : after.session.store.tables =
    { naming w.session.store.tables v with
      extents := after.session.store.tables.extents }

/-- What a whole visit changes, from its parts: the row, the extents, the
entries of the directory and a checkpoint, which changes none of the tables. -/
theorem Maps.changed {session : Session β} {mapped after : Walk β}
    (puts : w.session.insertInode v.inode v.path = (.ok (), session))
    (h : Maps v { w with session } fate mapped)
    (saves : (mapped.behind v).checkpoint interval = (.ok (), after)) :
    w.Changed v fate after := by
  obtain ⟨backend, dirty, hsaved⟩ :=
    (mapped.behind v).checkpoint_eq interval
  rw [saves] at hsaved
  obtain rfl : after = _ := hsaved
  obtain ⟨hmapped, hmapper, herrors⟩ := mapped.behind_eq v
  refine ⟨hmapped.trans h.mapped_eq, ?_,
    (congrArg _ hmapper).trans h.settings_eq, ?_⟩
  · refine herrors.trans ?_
    rw [h.errors_eq]
  · have hput : session = w.session.putInode v.inode v.path := by
      unfold Session.insertInode at puts
      split at puts
      · cases puts
      · exact (Prod.mk.inj puts).2.symm
    -- the extents may be anything, the rest is that of `naming`
    have hnames := h.sameNames
    subst hput
    show (mapped.behind v).session.store.tables = { naming _ v with
      extents := (mapped.behind v).session.store.tables.extents }
    unfold behind listObject naming
    split
    · simp only [Session.insertDirectory, Session.withTables]
      rw [hnames]
      rfl
    · rw [hnames]
      rfl

end Keeping

-- ================================================================== runs

section Runs

variable [Backend β] {interval : Option UInt64} {w last : Walk β}
  {made : List (Visit σ × Fate)}

/-- No inode is forgotten, and every one that is asked for its extents was
not known before. -/
theorem Makes.asked_once (h : Makes interval w made last) :
    ((made.filter (·.2.isAsked)).map (·.1.inode.ino)).Nodup ∧
      ∀ m ∈ made, m.2.isAsked = true → m.1.inode.ino ∉ w.mapped := by
  -- on the visits, with all inodes known before as those not asked for again
  induction h with
  | none w =>
    exact ⟨List.nodup_nil, fun m hm => absurd hm List.not_mem_nil⟩
  | @visit w mapped after last session v fate made puts maps saves rest ih =>
    obtain ⟨hnodup, hfresh⟩ := ih
    have hmapped := (maps.changed puts saves).mapped
    have hknown : v.inode.ino ∈ after.mapped := by
      rw [hmapped]
      split
      · assumption
      · exact List.mem_cons_self
    have hkept : ∀ ino ∈ w.mapped, ino ∈ after.mapped := fun ino hino => by
      rw [hmapped]
      split
      · exact hino
      · exact List.mem_cons_of_mem _ hino
    refine ⟨?_, ?_⟩
    · rw [List.filter_cons]
      split
      · refine List.nodup_cons.2 ⟨fun h => ?_, hnodup⟩
        obtain ⟨m, hm, hino⟩ := List.mem_map.1 h
        obtain ⟨hm, hasked⟩ := List.mem_filter.1 hm
        exact hfresh m hm hasked (hino ▸ hknown)
      · exact hnodup
    · intro m hm hasked
      rcases List.mem_cons.1 hm with rfl | hm
      · exact (maps.of_isAsked hasked).1
      · exact fun h => hfresh m hm hasked (hkept _ h)

/-- No symbolic link is asked for its extents. -/
theorem Makes.not_link (h : Makes interval w made last) :
    ∀ m ∈ made, m.2.isAsked = true → m.1.inode.kind ≠ .symlink := by
  induction h with
  | none w => exact fun m hm => absurd hm List.not_mem_nil
  | visit puts maps saves rest ih =>
    intro m hm hasked
    rcases List.mem_cons.1 hm with rfl | hm
    · exact (maps.of_isAsked hasked).2
    · exact ih m hm hasked

/-- Where every entry can be told about, the errors are the objects that
failed. -/
theorem Makes.errors_eq (h : Makes interval w made last)
    (hlisted : ∀ m ∈ made, m.1.failures = 0) :
    last.errors = w.errors + made.countP (·.2.isFailure) := by
  induction h with
  | none w => rfl
  | @visit w mapped after last session v fate made puts maps saves rest ih =>
    have hnone : v.failures = 0 := hlisted _ List.mem_cons_self
    have hafter := (maps.changed puts saves).errors
    rw [hnone, ite_self, Nat.add_zero] at hafter
    rw [ih fun m hm => hlisted m (List.mem_cons_of_mem _ hm), hafter,
      List.countP_cons, Nat.add_assoc, Nat.add_comm (List.countP _ made)]

/-- By induction over the visits; the interval between saves is one of the
settings. -/
theorem Makes.settings_eq (h : Makes interval w made last) :
    last.mapper.settings = w.mapper.settings := by
  induction h with
  | none w => rfl
  | visit puts maps saves rest ih =>
    exact ih.trans (maps.changed puts saves).settings

/-- But for their extents, the tables follow from the visits. -/
theorem Makes.tables_eq (h : Makes interval w made last) :
    last.session.store.tables =
      { (made.map (·.1)).foldl naming w.session.store.tables with
        extents := last.session.store.tables.extents } := by
  induction h with
  | none w => rfl
  | @visit w mapped after last session v fate made puts maps saves rest ih =>
    -- a visit does not look at the extents
    have hextents : ∀ (t : Tables) extents,
        (made.map (·.1)).foldl naming { t with extents }
          = { (made.map (·.1)).foldl naming t with extents } :=
      fun t extents =>
        List.foldl_hom (fun t : Tables => { t with extents }) fun _ _ => rfl
    rw [(maps.changed puts saves).tables, hextents] at ih
    exact ih

end Runs

-- ============================================================= elsewhere

section Elsewhere

variable {w w₁ : Walk β} {v : Visit σ} {fate : Fate} {s : Store β}
  {interval : Option UInt64}

/-- The same walk, filling another store that is saved at other times. -/
def within (w : Walk β) (s : Store β) (interval : Option UInt64) : Walk β :=
  { w with
    session := w.session.within s
    mapper := w.mapper.saving interval }

/-- A mapping goes the same whatever the store. -/
theorem mapping_within (w : Walk β) (inode : Inode) (reading : Reading σ)
    (s : Store β) (interval : Option UInt64) :
    ((w.within s interval).mapping inode reading).1.outcome
        = (w.mapping inode reading).1.outcome ∧
      (w.within s interval).asking inode reading
        = (w.asking inode reading).within s interval := by
  obtain ⟨outcome, requests, asked, records, mapper, hmap⟩ :=
    w.mapper.map_willing ⟨inode, reading.file, reading.blocks⟩ reading.state
  have hgiven : ∀ x : Session β,
      Mapper.given (fun isXattr raw x =>
          (x.insertExtent inode raw isXattr).2) records (x.within s)
        = (Mapper.given (fun isXattr raw x =>
          (x.insertExtent inode raw isXattr).2) records x).within s := by
    clear hmap
    induction records with
    | nil => exact fun _ => rfl
    | cons record records ih =>
      intro x
      rw [Mapper.given_cons, Mapper.given_cons, ← ih,
        Session.within_insertExtent]
  unfold asking mapping within
  dsimp only
  rw [Mapper.map_saving, hmap, hmap, hgiven]
  exact ⟨rfl, rfl⟩

/-- A visit does the same about the extents of its object whatever the store.
-/
theorem Maps.within (h : Maps v w fate w₁) (s : Store β)
    (interval : Option UInt64) :
    Maps v (w.within s interval) fate (w₁.within s interval) := by
  cases h with
  | again known => exact .again known
  | link fresh kind => exact .link fresh kind
  | unopened fresh kind closed => exact .unopened fresh kind closed
  | @mapped reading outcome fresh kind opened ended =>
    obtain ⟨houtcome, hasking⟩ :=
      (w.knowing v).mapping_within v.inode reading s interval
    rw [← hasking]
    exact .mapped fresh kind opened (houtcome.trans ended)
  | @broken reading e fresh kind opened ended =>
    obtain ⟨houtcome, hasking⟩ :=
      (w.knowing v).mapping_within v.inode reading s interval
    have hfail : ((w.knowing v).asking v.inode reading).fail.within s interval
        = (((w.knowing v).asking v.inode reading).within s interval).fail :=
      rfl
    rw [hfail, ← hasking]
    exact .broken fresh kind opened (houtcome.trans ended)

theorem behind_within (w : Walk β) (v : Visit σ) (s : Store β)
    (interval : Option UInt64) :
    (w.within s interval).behind v = (w.behind v).within s interval := by
  unfold behind listObject
  split <;> rfl

variable [Backend β]

/-- Where every save succeeds, a checkpoint succeeds and changes no row. -/
theorem checkpoint_within (w : Walk β) {s : Store β}
    (hs : Reliable s.backend) {interval : Option UInt64}
    (hinterval : interval ≠ some 0) :
    ∃ s', (w.within s interval).checkpoint interval
        = (.ok (), w.within s' interval) ∧
      Reliable s'.backend ∧ s'.fsPath = s.fsPath := by
  have hplace : Reliable (w.within s interval).session.store.backend := hs
  obtain ⟨backend, hsaved, hbackend⟩ := Store.persist_reliable hplace
  unfold checkpoint
  cases interval with
  | none => exact ⟨s, rfl, hs, rfl⟩
  | some n =>
    have hn : n ≠ 0 := fun hzero => hinterval (hzero ▸ rfl)
    dsimp only
    rw [if_neg hn]
    split
    · refine ⟨{ s with backend, dirty := false }, ?_, hbackend, rfl⟩
      simp only [Session.checkpoint, hsaved]
      rfl
    · exact ⟨s, rfl, hs, rfl⟩

/-- Where every save succeeds, all visits under good paths are made. What
becomes of the extents, and the rows in the end, is the same for all such
stores, however often they are saved. -/
theorem exists_makes (visits : List (Visit σ)) (w : Walk β)
    (hgood : ∀ v ∈ visits, IsPathKey w.session.separator v.path) :
    ∃ (made : List (Visit σ × Fate)) (last : Walk β),
      made.map (·.1) = visits ∧
      ∀ (s : Store β) (interval : Option UInt64), Reliable s.backend →
        interval ≠ some 0 → ∃ s', Makes interval (w.within s interval) made
            (last.within s' interval) ∧
          Reliable s'.backend ∧ s'.fsPath = s.fsPath := by
  induction visits generalizing w with
  | nil =>
    exact ⟨[], w, rfl, fun s interval hs _ => ⟨s, .none _, hs, rfl⟩⟩
  | cons v visits ih =>
    have hputs : w.session.insertInode v.inode v.path
        = (.ok (), w.session.putInode v.inode v.path) := by
      unfold Session.insertInode
      rw [Session.pathError?_eq_none_iff.2 (hgood v List.mem_cons_self)]
    -- what becomes of the extents is settled here, once for all stores
    obtain ⟨fate, hmaps⟩ := maps_mapObject v
      { w with session := w.session.putInode v.inode v.path }
    generalize mapObject _ v = mapped at hmaps
    -- the later paths are checked against the same separator
    have hseparator : (mapped.behind v).session.separator
        = w.session.separator := by
      have hsaves : (mapped.behind v).checkpoint none
          = (.ok (), mapped.behind v) := rfl
      have hsummary := congrArg (·.summary) (hmaps.changed hputs hsaves).tables
      unfold Session.separator Session.summary
      rw [show (mapped.behind v).session.store.tables.summary
        = w.session.store.tables.summary from hsummary]
    obtain ⟨made, last, rfl, hmakes⟩ := ih (mapped.behind v)
      fun v' hv' => hseparator ▸ hgood v' (List.mem_cons_of_mem _ hv')
    refine ⟨(v, fate) :: made, last, rfl, fun s interval hs hinterval => ?_⟩
    obtain ⟨s₁, hsaves, hs₁, hpath₁⟩ :=
      (mapped.behind v).checkpoint_within hs hinterval
    obtain ⟨s', hrest, hs', hpath⟩ := hmakes s₁ interval hs₁ hinterval
    refine ⟨s', .visit ?_ (hmaps.within s interval) ?_ hrest, hs',
      hpath.trans hpath₁⟩
    · show (w.session.within s).insertInode v.inode v.path = _
      rw [Session.within_insertInode, hputs]
    · rw [behind_within]
      exact hsaves

end Elsewhere

end Walk

end Scan

end DiskAtlas

/-
What a walk leaves in a store. `Recorded` compares a store with what is
reached: the paths, the rows, the names in directories and the links of an
inode are those of the objects that are reached, no more and no less. A walk
that is not called off, over a tree that is fit to be walked and on a place
where every save succeeds, finishes its scan and leaves such a store, whatever
objects cannot be opened or mapped; and the tables are the same however
often they are saved on the way (`walk_records_namespace`).

`Stack` says that a walk makes the visits of the tree, and `Visits` says where
these go. Here they are turned into tables, each of which gains one entry for
every visit, or for every name that a visit lists.
-/
import Mathlib.Data.Set.Card
import DiskAtlas.Proofs.Scan.Walking
import DiskAtlas.Proofs.SortedMap

namespace DiskAtlas

-- ============================================================= finishing

/-- A finished scan of a store's own file system is not stale. -/
theorem Session.isStale_finishedStore {β : Type} {x : Session β}
    {summary : Summary} (h : summary.path = x.store.fsPath) :
    (x.finishedStore summary).isStale = false := by
  have hpath :
      (raiseTotal summary x.store.tables.extents).path = summary.path := by
    unfold raiseTotal
    split
    · rfl
    · split <;> rfl
  simp [Store.isStale, finishedStore, hpath, h]

namespace Scan

open Mapping

variable {β σ : Type}

namespace Walk

/-- The walk before its first visit. -/
def starting (begun : Store β) (settings : ScanSettings) : Walk β :=
  { session := { store := begun }, mapper := { settings } }

/-- The report of a walk whose scan began with some facts. -/
def reported (w : Walk β) (summary : Summary) : WalkReport :=
  let s := w.session.finishedStore summary
  let facts := Session.raiseTotal summary w.session.store.tables.extents
  { summary :=
      ⟨{ facts with finished := true }, s.tables.extents.size,
        s.index.stretch.size⟩
    inodes := w.session.inodeCount
    errors := w.errors
    discarded := w.session.discarded
    usedBlocks := w.mapper.refused
    freeSpace := none }

/-- Where every save succeeds, a scan finishes. -/
theorem finish_reliable [Backend β] {w : Walk β} {summary : Summary}
    (hsummary : w.session.summary = some summary)
    (hplace : Reliable w.session.store.backend) :
    ∃ backend, w.finish none = (.ok (w.reported summary),
      { w.session.finishedStore summary with backend, dirty := false }) := by
  have hfinished :
      Reliable (w.session.finishedStore summary).backend := hplace
  obtain ⟨backend, hsaved, -⟩ := Store.persist_reliable hfinished
  refine ⟨backend, ?_⟩
  simp only [finish, Session.finish, hsummary, hsaved]
  rfl

end Walk

-- ================================================================= tables

section Tables

variable (visits : List (Visit σ)) (t : Tables)

/-- The paths of a walk are those of its visits, the later ones last. Two
visits have one path only in a tree that changed while it was walked. -/
theorem paths_naming :
    (visits.foldl naming t).paths
      = t.paths.insertMany (visits.map fun v => (v.path, v.inode.ino)) := by
  induction visits generalizing t with
  | nil => rfl
  | cons v visits ih => exact ih (naming t v)

/-- The rows of a walk are those of its visits; a second name of a file puts
its row in again. -/
theorem inodes_naming :
    (visits.foldl naming t).inodes
      = t.inodes.insertMany (visits.map fun v => (v.inode.ino, v.inode)) := by
  induction visits generalizing t with
  | nil => rfl
  | cons v visits ih => exact ih (naming t v)

/-- The names that visits have found in a directory. -/
def namesIn (visits : List (Visit σ)) (ino : Int64) :
    List (String × Int64) :=
  (visits.filter fun v =>
    v.inode.kind == .directory && v.inode.ino == ino).flatMap (·.names)

theorem directories_naming (ino : Int64) :
    ((visits.foldl naming t).directories.get? ino).getD .empty
      = ((t.directories.get? ino).getD .empty).insertMany
        (namesIn visits ino) := by
  induction visits generalizing t with
  | nil => rfl
  | cons v visits ih =>
    rw [List.foldl_cons, ih, namesIn, namesIn, List.filter_cons]
    by_cases hkind : v.inode.kind = .directory
    · by_cases hino : v.inode.ino = ino
      · subst hino
        simp [naming, hkind, SortedMap.get?_insert_self,
          SortedMap.insertMany_append]
      · simp [naming, hkind, hino, SortedMap.get?_insert_of_ne]
    · simp [naming, hkind]

theorem listDirectory_naming {s : Store β}
    (h : s.tables.directories = (visits.foldl naming .empty).directories)
    (ino : Int64) :
    s.listDirectory ino
      = (SortedMap.ofList (namesIn visits ino)).entries := by
  have hnames := directories_naming visits .empty ino
  rw [Store.listDirectory, h]
  cases hget : (visits.foldl naming .empty).directories.get? ino with
  | none =>
    rw [hget] at hnames
    exact congrArg (·.entries) hnames
  | some names =>
    rw [hget] at hnames
    exact congrArg (·.entries) hnames

end Tables

-- =============================================================== recording

/-- What a store holds of the objects that are reached from a root. -/
structure Recorded (device : UInt64) (separator : Char) (root : Tree σ)
    (s : Store β) : Prop where
  /-- The paths are those under which something is reached, and lead to its
  number. -/
  named : ∀ path ino, s.lookupPath path = some ino ↔
    ∃ t inode, Reaches device separator root "" path t inode ∧
      inode.ino = ino
  /-- The paths of an inode are all its links. -/
  links : ∀ path ino, path ∈ s.pathsOf ino ↔
    ∃ t inode, Reaches device separator root "" path t inode ∧
      inode.ino = ino
  /-- A directory lists the entries of it that are reached. -/
  listed : ∀ path t inode, Reaches device separator root "" path t inode →
    inode.kind = .directory →
      ∀ name ino, (name, ino) ∈ s.listDirectory inode.ino ↔
        ∃ u ∈ t.entries, ∃ inode', u.inodeOn device = some inode' ∧
          u.name = name ∧ inode'.ino = ino
  /-- Nothing else lists anything. -/
  unlisted : ∀ ino, (∀ path t inode,
    Reaches device separator root "" path t inode →
      inode.kind = .directory → inode.ino ≠ ino) → s.listDirectory ino = []
  /-- Every number that is reached has a row. -/
  held : ∀ path t inode, Reaches device separator root "" path t inode →
    (s.inode inode.ino).isSome = true
  /-- Every row is of something that is reached. -/
  rows : ∀ ino row, s.inode ino = some row →
    row.ino = ino ∧ ∃ path t, Reaches device separator root "" path t row

section Recording

variable {device : UInt64} {separator : Char} {root : Tree σ}
  {visits : List (Visit σ)} {s : Store β}

variable (hroot : Regular device separator root)
  (hvisits : ∀ v, v ∈ visits ↔ ∃ path t inode,
    Reaches device separator root "" path t inode ∧
      v = t.visitAt device separator path inode)

/-- An entry that the visits give some table. -/
theorem exists_visit_iff {γ : Type} (hvisits : ∀ v, v ∈ visits ↔
      ∃ path t inode, Reaches device separator root "" path t inode ∧
        v = t.visitAt device separator path inode)
    (f : String → Inode → γ) (c : γ) :
    c ∈ visits.map (fun v => f v.path v.inode) ↔
      ∃ path t inode, Reaches device separator root "" path t inode ∧
        f path inode = c := by
  rw [List.mem_map]
  constructor
  · rintro ⟨v, hv, rfl⟩
    obtain ⟨path, t, inode, hreach, rfl⟩ := (hvisits v).1 hv
    exact ⟨path, t, inode, hreach, by
      rw [Tree.visitAt_path, Tree.visitAt_inode]⟩
  · rintro ⟨path, t, inode, hreach, rfl⟩
    refine ⟨_, (hvisits _).2 ⟨path, t, inode, hreach, rfl⟩, ?_⟩
    rw [Tree.visitAt_path, Tree.visitAt_inode]

include hroot hvisits

/-- In a regular tree a path is that of one object, so the path table says
exactly what is reached. -/
theorem get?_paths_iff (path : String) (ino : Int64) :
    (visits.foldl naming .empty).paths.get? path = some ino ↔
      ∃ t inode, Reaches device separator root "" path t inode ∧
        inode.ino = ino := by
  have hmem := exists_visit_iff hvisits fun path inode => (path, inode.ino)
  rw [paths_naming]
  refine (SortedMap.get?_ofList_iff ?_).trans ((hmem _).trans ?_)
  · intro e he e' he' hpath
    obtain ⟨path, t, inode, hreach, rfl⟩ := (hmem _).1 he
    obtain ⟨path', t', inode', hreach', rfl⟩ := (hmem _).1 he'
    obtain rfl : path' = path := hpath
    rw [(hroot.reaches_inj hreach hreach').2]
  · constructor
    · rintro ⟨_, t, inode, hreach, heq⟩
      obtain ⟨rfl, rfl⟩ := Prod.mk.inj heq
      exact ⟨t, inode, hreach, rfl⟩
    · rintro ⟨t, inode, hreach, rfl⟩
      exact ⟨path, t, inode, hreach, rfl⟩

/-- The names found in a directory are those of its entries. -/
theorem mem_namesIn {path : String} {t : Tree σ} {inode : Inode}
    (h : Reaches device separator root "" path t inode)
    (hkind : inode.kind = .directory) (e : String × Int64) :
    e ∈ namesIn visits inode.ino ↔ e ∈ Tree.namesOn device t.entries := by
  simp only [namesIn, List.mem_flatMap, List.mem_filter, Bool.and_eq_true,
    beq_iff_eq]
  constructor
  · rintro ⟨v, ⟨hv, hdirectory, hino⟩, he⟩
    obtain ⟨path', t', inode', hreach, rfl⟩ := (hvisits v).1 hv
    rw [Tree.visitAt_inode] at hdirectory hino
    rw [(Tree.visitAt_legible hreach.inodeOn_eq
      (hroot.legible hreach)).1 hdirectory, mem_sortedByName] at he
    exact hroot.same h hreach hkind hdirectory hino e he
  · intro he
    refine ⟨_, ⟨(hvisits _).2 ⟨path, t, inode, h, rfl⟩, ?_, ?_⟩, ?_⟩
    · rw [Tree.visitAt_inode, hkind]
    · rw [Tree.visitAt_inode]
    · rwa [(Tree.visitAt_legible h.inodeOn_eq (hroot.legible h)).1 hkind,
        mem_sortedByName]

/-- The names of a directory are those of its entries that a walk goes to. -/
theorem get?_names_iff {path : String} {t : Tree σ} {inode : Inode}
    (h : Reaches device separator root "" path t inode)
    (hkind : inode.kind = .directory) (name : String) (ino : Int64) :
    (SortedMap.ofList (namesIn visits inode.ino)).get? name = some ino ↔
      ∃ u ∈ t.entries, ∃ inode', u.inodeOn device = some inode' ∧
        u.name = name ∧ inode'.ino = ino := by
  have hmem := mem_namesIn hroot hvisits h hkind
  refine (SortedMap.get?_ofList_iff ?_).trans
    ((hmem _).trans Tree.mem_namesOn)
  -- names in one directory are different, so none stands for two numbers
  intro e he e' he' hname
  obtain ⟨u, hu, inode₁, hon, hu₁, hino⟩ := Tree.mem_namesOn.1 ((hmem e).1 he)
  obtain ⟨u', hu', inode₂, hon', hu₂, hino'⟩ :=
    Tree.mem_namesOn.1 ((hmem e').1 he')
  obtain rfl : u' = u := List.inj_on_of_nodup_map (hroot.legible h hkind).apart
    hu' hu (hu₂.trans (hname.trans hu₁.symm))
  obtain rfl := Option.some_inj.1 (hon.symm.trans hon')
  exact hino'.symm.trans hino

omit hroot in
/-- No names are found under a number of no directory. -/
theorem namesIn_eq_nil {ino : Int64}
    (hno : ∀ path t inode, Reaches device separator root "" path t inode →
      inode.kind = .directory → inode.ino ≠ ino) :
    namesIn visits ino = [] := by
  refine List.flatMap_eq_nil_iff.2 fun v hv => ?_
  obtain ⟨hv, hdirectory⟩ := List.mem_filter.1 hv
  obtain ⟨path, t, inode, hreach, rfl⟩ := (hvisits v).1 hv
  simp only [Tree.visitAt_inode, Bool.and_eq_true, beq_iff_eq] at hdirectory
  exact absurd hdirectory.2 (hno path t inode hreach hdirectory.1)

omit hroot in
/-- A number has a row exactly if it is reached, and the row is one that was
found. -/
theorem get?_inodes_cases (ino : Int64) :
    ((∃ path t inode, Reaches device separator root "" path t inode ∧
        inode.ino = ino) →
      ((visits.foldl naming .empty).inodes.get? ino).isSome = true) ∧
    ∀ row, (visits.foldl naming .empty).inodes.get? ino = some row →
      row.ino = ino ∧
        ∃ path t, Reaches device separator root "" path t row := by
  have hrow := exists_visit_iff hvisits fun _ inode => (inode.ino, inode)
  rw [inodes_naming]
  constructor
  · rintro ⟨path, t, inode, h, rfl⟩
    exact (SortedMap.contains_insertMany_iff _ _ _).2 (.inl
      ⟨_, (hrow _).2 ⟨path, t, inode, h, rfl⟩, rfl⟩)
  · intro row h
    obtain hmem | hempty := SortedMap.get?_insertMany_cases h
    · obtain ⟨path, t, inode, hreach, heq⟩ := (hrow _).1 hmem
      obtain ⟨rfl, rfl⟩ := Prod.mk.inj heq
      exact ⟨rfl, path, t, hreach⟩
    · cases hempty

/-- Tables that were filled by the visits to what is reached record it. -/
theorem recorded_of_visits
    (htables : s.tables = { visits.foldl naming .empty with
      summary := s.tables.summary, extents := s.tables.extents })
    (hindex : s.index = .build s.tables) :
    Recorded device separator root s := by
  have hnamed : ∀ path ino, s.lookupPath path = some ino ↔
      ∃ t inode, Reaches device separator root "" path t inode ∧
        inode.ino = ino := by
    intro path ino
    rw [Store.lookupPath, htables]
    exact get?_paths_iff hroot hvisits path ino
  have hlist := listDirectory_naming visits (congrArg (·.directories) htables)
  have hinode : ∀ ino,
      s.inode ino = (visits.foldl naming .empty).inodes.get? ino := by
    intro ino
    rw [Store.inode, htables]
  refine ⟨hnamed, fun path ino => ?_, fun path t inode h hkind name ino => ?_,
    fun ino hno => ?_, fun path t inode h => ?_, fun ino row h => ?_⟩
  · rw [← hnamed, Store.pathsOf_eq hindex, Tables.pathsOf, Store.lookupPath,
      SortedMap.get?_eq_some_iff]
    simp
  · rw [hlist, ← SortedMap.get?_eq_some_iff]
    exact get?_names_iff hroot hvisits h hkind name ino
  · rw [hlist, namesIn_eq_nil hvisits hno]
    rfl
  · rw [hinode]
    exact (get?_inodes_cases hvisits _).1 ⟨path, t, inode, h, rfl⟩
  · rw [hinode] at h
    exact (get?_inodes_cases hvisits _).2 row h

omit hroot in
/-- There are as many rows as numbers that are reached. -/
theorem size_inodes :
    (visits.foldl naming .empty).inodes.size
      = Set.ncard {ino | ∃ path t inode,
        Reaches device separator root "" path t inode ∧ inode.ino = ino} := by
  have hrow := exists_visit_iff hvisits fun _ inode => (inode.ino, inode)
  generalize hm : (visits.foldl naming .empty).inodes = m
  have hnodup : m.keys.Nodup := m.keys_sorted.imp fun {a b} hab heq => by
    subst heq
    exact absurd (hab.symm.trans Std.ReflCmp.compare_self) nofun
  have hkeys : {ino | ∃ path t inode,
      Reaches device separator root "" path t inode ∧ inode.ino = ino}
      = (m.keys.toFinset : Set Int64) := by
    ext ino
    rw [List.coe_toFinset, Set.mem_ofPred_eq, Set.mem_ofPred_eq, ← hm,
      inodes_naming, ← SortedMap.contains_iff_mem_keys,
      SortedMap.contains_insertMany_iff]
    constructor
    · rintro ⟨path, t, inode, h, rfl⟩
      exact .inl ⟨_, (hrow _).2 ⟨path, t, inode, h, rfl⟩, rfl⟩
    · rintro (⟨e, he, rfl⟩ | hempty)
      · obtain ⟨path, t, inode, h, rfl⟩ := (hrow e).1 he
        exact ⟨path, t, inode, h, rfl⟩
      · cases hempty
  rw [hkeys, Set.ncard_coe_finset, List.toFinset_card_of_nodup hnodup]
  exact (List.length_map _).symm

end Recording

-- ================================================================== scans

/-- A scan whose root can be scanned and that was begun is a walk. -/
theorem scanVolume_eq [Backend β] {store begun : Store β}
    {volume : Volume σ} {settings : ScanSettings} {watch : Watch}
    {tree : Tree σ} {device : UInt64} (htree : volume.root = .ok tree)
    (hdevice : rootDevice store.fsPath tree = .ok device)
    (hbegun : store.beginScan (fun _ => volume.summary) = (.ok (), begun)) :
    scanVolume store volume settings watch
      = runWalk begun settings watch device tree volume.deviceMap := by
  have hroot : (do
      let tree ← volume.root
      return (tree, ← rootDevice store.fsPath tree)
        : Except Error (Tree σ × UInt64)) = .ok (tree, device) := by
    rw [htree]
    show (rootDevice store.fsPath tree).bind _ = _
    rw [hdevice]
    rfl
  unfold scanVolume
  simp only [hroot, hbegun]

/-- A scan whose walk makes all visits ends as its walk finishes. -/
theorem scanVolume_of_makes [Backend β] {store begun : Store β}
    {volume : Volume σ} {settings : ScanSettings} {watch : Watch}
    {tree : Tree σ} {device : UInt64} {made : List (Visit σ × Fate)}
    {last : Walk β} (htree : volume.root = .ok tree)
    (hdevice : rootDevice store.fsPath tree = .ok device)
    (hbegun : store.beginScan (fun _ => volume.summary) = (.ok (), begun))
    (hmakes : Walk.Makes settings.checkpointInterval
      (.starting begun settings) made last)
    (hvisits : made.map (·.1) = tree.visits device
      ({ store := begun } : Session β).separator "")
    (hwanted : settings.mapFreeSpace = false)
    (hwatch : ∀ n, watch.beforeVisit n = false) :
    scanVolume store volume settings watch
      = ⟨(last.finish none).1.mapError .failed, (last.finish none).2,
        last.directories, last.files⟩ := by
  have hwalk := hmakes.visitPending
    ((unvisited_root tree "").trans hvisits.symm) hwatch
  have hsettings : last.mapper.settings = settings := hmakes.settings_eq
  have hunmapped : last.mapDevice device volume.deviceMap watch
      = (.ok none, last) := by
    unfold Walk.mapDevice
    rw [hsettings, hwanted]
    rfl
  unfold Walk.starting at hwalk
  rw [scanVolume_eq htree hdevice hbegun]
  simp only [runWalk, hwalk, hunmapped]

/-- What is asked of the visits that a walk has made, and of its report. -/
structure Walked (device : UInt64) (separator : Char) (root : Tree σ)
    (made : List (Visit σ × Fate)) (report : WalkReport) : Prop where
  /-- What is reached was visited, and nothing else. -/
  reached : ∀ v, v ∈ made.map (·.1) ↔ ∃ path t inode,
    Reaches device separator root "" path t inode ∧
      v = t.visitAt device separator path inode
  /-- No path was visited twice. -/
  once : (made.map (·.1.path)).Nodup
  /-- No inode was asked for its extents twice. -/
  asked : ((made.filter (·.2.isAsked)).map (·.1.inode.ino)).Nodup
  /-- No symbolic link was asked at all. -/
  links : ∀ m ∈ made, m.2.isAsked = true → m.1.inode.kind ≠ .symlink
  /-- The errors are the objects that could not be opened or mapped. -/
  errors : report.errors = made.countP (·.2.isFailure)
  /-- The inodes are the numbers that are reached. -/
  inodes : report.inodes = Set.ncard {ino | ∃ path t inode,
    Reaches device separator root "" path t inode ∧ inode.ino = ino}

section Walking

variable [Backend β] {interval : Option UInt64} {begun : Store β}
  {settings : ScanSettings} {made : List (Visit σ × Fate)} {last : Walk β}
  {store : Store β} {summary : Summary}

/-- The tables of a walk are those that its visits make of empty ones. -/
theorem Walk.Makes.tables_of_begun
    (h : Walk.Makes interval (.starting begun settings) made last)
    (hbegun : begun.tables = (store.cleared summary).tables) :
    last.session.store.tables =
      { (made.map (·.1)).foldl naming .empty with
        summary := (store.cleared summary).tables.summary
        extents := last.session.store.tables.extents } := by
  have hnames := h.tables_eq
  have hstart : (Walk.starting begun settings).session.store.tables
      = { Tables.empty with
        summary := (store.cleared summary).tables.summary } := hbegun
  -- a visit does not look at the facts
  have hfacts : ∀ (t : Tables) summary,
      (made.map (·.1)).foldl naming { t with summary }
        = { (made.map (·.1)).foldl naming t with summary } :=
    fun t summary =>
      List.foldl_hom (fun t : Tables => { t with summary }) fun _ _ => rfl
  rw [hstart, hfacts] at hnames
  exact hnames

variable {device : UInt64} {separator : Char} {tree : Tree σ}
  (hregular : Regular device separator tree)
  (hmade : made.map (·.1) = tree.visits device separator "")

include hregular hmade

theorem mem_made (v : Visit σ) :
    v ∈ made.map (·.1) ↔ ∃ path t inode,
      Reaches device separator tree "" path t inode ∧
        v = t.visitAt device separator path inode := by
  rw [hmade]
  exact Tree.mem_visits v tree "" hregular.legible

/-- All of this for the walk itself: its tables begin empty and its visits are
those of the tree. -/
theorem Walk.Makes.walked
    (h : Walk.Makes interval (.starting begun settings) made last)
    (hbegun : begun.tables = (store.cleared summary).tables)
    (facts : Summary) :
    Walked device separator tree made (last.reported facts) := by
  have hvisits := mem_made hregular hmade
  refine ⟨hvisits, ?_, h.asked_once.1, h.not_link, ?_, ?_⟩
  · have hpaths := Tree.visits_nodup tree "" hregular.legible
    rwa [← hmade, List.map_map] at hpaths
  · have hfound : ∀ m ∈ made, m.1.failures = 0 := fun m hm => by
      obtain ⟨path, t, inode, hreach, hv⟩ :=
        (hvisits m.1).1 (List.mem_map_of_mem hm)
      rw [hv]
      exact (Tree.visitAt_legible hreach.inodeOn_eq
        (hregular.legible hreach)).2
    exact (h.errors_eq hfound).trans (Nat.zero_add _)
  · rw [← size_inodes hvisits]
    exact congrArg (·.inodes.size) (h.tables_of_begun hbegun)

end Walking

/-- A root that can be scanned waits for its visit. -/
theorem exists_pending?_root {path : String} {tree : Tree σ}
    {device : UInt64} (h : rootDevice path tree = .ok device) :
    ∃ root : Pending σ,
      tree.pending? device "" = some root ∧ root.path = "" := by
  cases tree with
  | lost name => cases h
  | object name facts entries =>
    cases hinode : facts.inode with
    | none =>
      rw [rootDevice, hinode, Option.isSome_none] at h
      cases h
    | some inode =>
      rw [rootDevice, hinode, Option.isSome_some, if_pos rfl] at h
      obtain rfl := Except.ok.inj h
      refine ⟨⟨"", inode, facts, entries⟩, ?_, rfl⟩
      rw [Tree.pending?, Tree.inodeOn, if_pos rfl, hinode]
      rfl

/-- An interval of no objects, which `withCheckpointInterval` never sets, is
not one at which nothing is saved: the walk divides by it behind its first
object, and panics. -/
theorem scanVolume_zeroInterval [Backend β] {store : Store β}
    {volume : Volume σ} {settings : ScanSettings} {watch : Watch}
    {tree : Tree σ} {device : UInt64} {summary : Summary}
    (hplace : Reliable store.backend) (htree : volume.root = .ok tree)
    (hdevice : rootDevice store.fsPath tree = .ok device)
    (hsummary : volume.summary = .ok summary)
    (hzero : settings.checkpointInterval = some 0)
    (hwatch : watch.beforeVisit 0 = false) :
    (scanVolume store volume settings watch).outcome = .error .panicked := by
  obtain ⟨begun, hbegun, -⟩ :=
    Store.beginScan_reliable hplace (fun _ => volume.summary) hsummary
  obtain ⟨root, hwaits, hpath⟩ := exists_pending?_root hdevice
  let start : Session β := { store := begun }
  let first := root.visit device start.separator
  have hput : start.insertInode first.inode first.path
      = (.ok (), start.putInode first.inode first.path) := by
    rw [show first.path = "" from hpath]
    rfl
  obtain ⟨w, hstops⟩ : ∃ w,
      (Walk.starting begun settings).visitPending (some 0) watch device
        ({ store := begun } : Session β).separator [root]
        = (.error .panicked, w) := by
    have hgoes : ¬ watch.beforeVisit (Walk.starting begun settings).visited
        = true := by
      rw [show (Walk.starting begun settings).visited = 0 from rfl, hwatch]
      nofun
    rw [Walk.visitPending, if_neg hgoes, Walk.visit_of_put hput]
    exact ⟨_, rfl⟩
  rw [← hzero] at hstops
  unfold Walk.starting at hstops
  rw [scanVolume_eq htree hdevice hbegun]
  simp only [runWalk, hwaits, Option.toList_some, hstops, Walk.stopped]

/-- A directory with a file that has two names and cannot be mapped, a
symbolic link, and a directory of another device. -/
def linked : Tree Unit :=
  let unread : Reading Unit := ⟨Mapper.unknowing, Mapper.untold, ()⟩
  .object "" ⟨1, some (.bare 1 .directory), none, true⟩
    [.object "a" ⟨1, some (.bare 2 .file), some unread, true⟩ [],
      .object "b" ⟨1, some (.bare 2 .file), some unread, true⟩ [],
      .object "l" ⟨1, some (.bare 3 .symlink), some unread, true⟩ [],
      .object "m" ⟨9, some (.bare 4 .directory), none, true⟩
        [.object "x" ⟨9, some (.bare 5 .file), none, true⟩ []]]

/-- Everything that is reached in the tree of the example, by cases on how it
is reached. -/
theorem reaches_linked {path : String} {t : Tree Unit} {inode : Inode}
    (h : Reaches 1 '/' linked "" path t inode) :
    (path = "" ∧ t = linked ∧ inode = .bare 1 .directory) ∨
      (path, inode) ∈ [("/a", .bare 2 .file), ("/b", .bare 2 .file),
        ("/l", .bare 3 .symlink)] := by
  have hleaf : ∀ {u : Tree Unit} {inode' : Inode} {start : String},
      u.inodeOn 1 = some inode' → inode'.kind ≠ .directory →
      Reaches 1 '/' u start path t inode → path = start ∧ inode = inode' := by
    intro u inode' start hon hkind hreach
    obtain ⟨hpath, -, hinode⟩ | ⟨hopens, -⟩ := hreach.cases_root hon
    · exact ⟨hpath, hinode⟩
    · exact absurd hopens hkind
  obtain hroot | ⟨-, u, hu, hbelow⟩ := h.cases_root rfl
  · exact .inl hroot
  · right
    simp only [linked, Tree.entries, List.mem_cons, List.not_mem_nil,
      or_false] at hu
    rcases hu with rfl | rfl | rfl | rfl
    · obtain ⟨rfl, rfl⟩ := hleaf rfl (by decide) hbelow
      exact List.mem_cons_self
    · obtain ⟨rfl, rfl⟩ := hleaf rfl (by decide) hbelow
      exact List.mem_cons_of_mem _ List.mem_cons_self
    · obtain ⟨rfl, rfl⟩ := hleaf rfl (by decide) hbelow
      exact List.mem_cons_of_mem _ (List.mem_cons_of_mem _ List.mem_cons_self)
    · obtain ⟨first, hfirst⟩ := hbelow.exists_inodeOn
      cases hfirst

theorem regular_linked : Regular 1 '/' linked := by
  have hroot : ∀ {path t inode}, Reaches 1 '/' linked "" path t inode →
      inode.kind = .directory → t = linked := by
    intro path t inode h hkind
    obtain ⟨-, rfl, -⟩ | hother := reaches_linked h
    · rfl
    · simp only [List.mem_cons, List.not_mem_nil, or_false, Prod.mk.injEq]
        at hother
      rcases hother with ⟨-, rfl⟩ | ⟨-, rfl⟩ | ⟨-, rfl⟩ <;> cases hkind
  refine ⟨fun h hkind => ?_, fun h h' hkind hkind' _ e he => ?_⟩
  · obtain rfl := hroot h hkind
    refine ⟨rfl, ?_, ?_, ?_⟩
    · simp [linked, Tree.entries, Tree.isLost]
    · simp [linked, Tree.entries, Tree.name]
    · simp [linked, Tree.entries, Tree.name]
  · rwa [hroot h hkind, ← hroot h' hkind']

end Scan

end DiskAtlas

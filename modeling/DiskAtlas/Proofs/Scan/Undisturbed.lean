/-
What a pass over a device leaves of the walked names. A pass gives places to
the guests that its records ask for, and changes nothing at any other path
and no other entry of a directory (`Placed`). A guest that is new is told by
its number, and not by its place: what was at the place is replaced. So of
the walked paths and entries a pass keeps those that are no guest's place,
whatever its end, and loses the others (`ingestDevice_keeps`).
-/
import DiskAtlas.Proofs.Scan.Failed

namespace DiskAtlas

open Mapping

namespace Scan

variable {β : Type}

-- ================================================================ places

namespace Guest

/-- The directory that a guest has an entry in, and the name there. -/
def listing (top : Option Int64) : Guest → Option (Int64 × String)
  | owner .root => top.map fun d => (d, HiddenOwner.root.name)
  | owner o => some (-1, o.name)
  | file ino => some (-4, toString ino.toInt)

/-- In the walked directories only the directory of all guests is new. -/
theorem listing_cases {g : Guest} {top : Option Int64} {directory : Int64}
    {name : String} (h : g.listing top = some (directory, name))
    (hwalked : 0 ≤ directory.toInt) :
    g = owner .root ∧ top = some directory ∧
      name = HiddenOwner.root.name := by
  cases g with
  | file ino =>
    obtain ⟨rfl, -⟩ := Prod.mk.inj (Option.some_inj.1 h)
    exact absurd hwalked (by decide)
  | owner o =>
    cases o with
    | root =>
      obtain ⟨d, rfl, hd⟩ := Option.map_eq_some_iff.1 h
      obtain ⟨rfl, rfl⟩ := Prod.mk.inj hd
      exact ⟨rfl, rfl, rfl⟩
    | metadata | freeSpace | unlinked | special =>
      obtain ⟨rfl, -⟩ := Prod.mk.inj (Option.some_inj.1 h)
      exact absurd hwalked (by decide)

/-- No guest is at the top. -/
theorem path_ne_empty (g : Guest) (separator : Char) :
    g.path separator ≠ "" := by
  intro hempty
  have hlist := congrArg String.toList hempty
  rw [path_eq, toList_rootedPath, List.flatMap_cons] at hlist
  cases hlist

/-- Whoever is asked for, the guests above are asked for too. -/
theorem above_mem_asked {x : Session β} {wanted : Option UInt32}
    {records : List DeviceRecord} {g g' : Guest}
    (hg : g ∈ asked x wanted records) (hg' : g' ∈ g.above) :
    g' ∈ asked x wanted records := by
  obtain ⟨caller, hcaller, hmem⟩ := List.mem_flatMap.1 hg
  refine List.mem_flatMap.2 ⟨caller, hcaller, ?_⟩
  rcases List.mem_append.1 hmem with habove | hself
  · cases caller with
    | file ino =>
      rcases List.mem_cons.1 habove with rfl | habove
      · cases hg'
      · obtain rfl := List.mem_singleton.1 habove
        obtain rfl := List.mem_singleton.1 hg'
        exact List.mem_append_left _ List.mem_cons_self
    | owner o =>
      cases o with
      | root => cases habove
      | metadata | freeSpace | unlinked | special =>
        obtain rfl := List.mem_singleton.1 habove
        cases hg'
  · obtain rfl := List.mem_singleton.1 hself
    exact List.mem_append_left _ hg'

end Guest

end Scan

-- =============================================================== placing

/-- Whoever is put in is found at one path, and nothing else changes. -/
theorem Session.lookupPath_ensureInode {β : Type} (x : Session β)
    (ino : Int64) (kind : InodeKind) {path other : String}
    (hother : other ≠ path) :
    (x.ensureInode ino kind path).lookupPath other = x.lookupPath other := by
  unfold ensureInode
  split
  · rfl
  · exact SortedMap.get?_insert_of_ne _ _ (Ne.symm hother)

theorem Session.lookupPath_pushExtent {β : Type} (x : Session β) (e : Extent)
    (path : String) : (x.pushExtent e).2.lookupPath path
      = x.lookupPath path := by
  rcases x.pushExtent_cases e with ⟨-, hpushed⟩ | ⟨-, hpushed⟩
  · rw [hpushed]
    rfl
  · rw [hpushed]
    rfl

namespace Scan

variable {β : Type}

/-- A pass that began with `x` and has changed nothing but the places of some
guests. -/
structure Placed (x : Session β) (guests : List Guest) (p : DevicePass β) :
    Prop where
  gains : x.Gains p.session
  paths : ∀ path, (∀ g ∈ guests, path ≠ g.path x.separator) →
    p.session.lookupPath path = x.lookupPath path
  names : ∀ e ∈ p.names, ∃ g ∈ guests,
    g.listing (x.lookupPath "") = some (e.1, e.2.1)
  unlinked : ∀ ino ∈ p.unlinked, .file ino ∈ guests

namespace Placed

variable {x : Session β} {guests more : List Guest} {p : DevicePass β}

theorem mono (h : Placed x guests p) (hmore : guests ⊆ more) :
    Placed x more p := by
  refine ⟨h.gains, fun path hpath => ?_, fun e he => ?_, fun ino hino => ?_⟩
  · exact h.paths path fun g hg => hpath g (hmore hg)
  · obtain ⟨g, hg, hlisting⟩ := h.names e he
    exact ⟨g, hmore hg, hlisting⟩
  · exact hmore (h.unlinked ino hino)

/-- The top is where it was. -/
theorem lookupPath_top (h : Placed x guests p) :
    p.session.lookupPath "" = x.lookupPath "" :=
  h.paths "" fun g _ => Ne.symm (g.path_ne_empty x.separator)

/-- A guest is given a place. -/
theorem put (h : Placed x guests p) {g : Guest} (hg : g ∈ guests)
    (ino : Int64) (kind : InodeKind)
    {names : List (Int64 × String × Int64)}
    (hnames : ∀ e ∈ names,
      g.listing (x.lookupPath "") = some (e.1, e.2.1)) :
    Placed x guests
      { p with
        session := p.session.ensureInode ino kind (g.path p.session.separator)
        names := p.names ++ names } := by
  have hgains := p.session.ensureInode_gains ino kind
    (g.path p.session.separator)
  refine ⟨h.gains.trans hgains, fun path hpath => ?_, fun e he => ?_,
    h.unlinked⟩
  · have hother : path ≠ g.path p.session.separator := by
      rw [h.gains.separator_eq]
      exact hpath g hg
    exact (p.session.lookupPath_ensureInode ino kind hother).trans
      (h.paths path hpath)
  · rcases List.mem_append.1 he with hold | hnew
    · exact h.names e hold
    · exact ⟨g, hg, hnames e hnew⟩

/-- The steps of a pass, one lemma each: they change places of guests that were
asked for, and the caller says which. -/
theorem attachRoot (h : Placed x guests p)
    (hroot : .owner .root ∈ guests) :
    Placed x guests p.attachRoot.2 ∧ p.attachRoot.1 = -1 := by
  rw [DevicePass.attachRoot_eq]
  split
  · exact ⟨h, rfl⟩
  · refine ⟨h.put hroot (-1) .directory fun e he => ?_, rfl⟩
    rw [h.lookupPath_top] at he
    obtain ⟨d, hd, rfl⟩ := by simpa using he
    rw [Guest.listing, hd]
    rfl

theorem attach (h : Placed x guests p) (hroot : .owner .root ∈ guests)
    {o : HiddenOwner} (ho : .owner o ∈ guests) (hne : o ≠ .root) :
    Placed x guests (p.attach o).2 := by
  let q : DevicePass β := { p with numbers := (p.numbers.number o).2 }
  have hq : Placed x guests q := ⟨h.gains, h.paths, h.names, h.unlinked⟩
  obtain ⟨hattached, hnumber⟩ := hq.attachRoot hroot
  have hlisting : (Guest.owner o).listing (x.lookupPath "")
      = some (-1, o.name) := by
    cases o with
    | root => exact absurd rfl hne
    | metadata | freeSpace | unlinked | special => rfl
  rw [DevicePass.attach_eq]
  dsimp only
  split
  · exact hq
  · refine hattached.put ho (p.numbers.number o).1 o.kind fun e he => ?_
    rw [hlisting]
    obtain rfl := by simpa using he
    rw [show q.attachRoot.1 = -1 from hnumber]

theorem attachUnlinked (h : Placed x guests p) {ino : Int64}
    (hroot : .owner .root ∈ guests) (hunlinked : .owner .unlinked ∈ guests)
    (hfile : .file ino ∈ guests) :
    Placed x guests (p.attachUnlinked ino) := by
  rw [DevicePass.attachUnlinked_eq]
  split
  · exact h
  · let q : DevicePass β := { p with unlinked := p.unlinked ++ [ino] }
    have hq : Placed x guests q := by
      refine ⟨h.gains, h.paths, h.names, fun i hi => ?_⟩
      rcases List.mem_append.1 hi with hold | hnew
      · exact h.unlinked i hold
      · obtain rfl := List.mem_singleton.1 hnew
        exact hfile
    have hattached := hq.attach hroot hunlinked (by decide)
    have hnumber : (q.attach .unlinked).1 = -4 :=
      (q.attach_gains (by decide)).2.1
    refine hattached.put hfile ino .file fun e he => ?_
    obtain rfl := List.mem_singleton.1 he
    rw [show _ = (-4 : Int64) from hnumber]
    rfl

theorem push (h : Placed x guests p) (r : DeviceRecord) (ino : Int64)
    (kind : ExtentKind) (logical : Option UInt64) :
    Placed x guests (p.push r ino kind logical) := by
  refine ⟨h.gains.trans (p.push_gains r ino kind logical),
    fun path hpath => ?_, h.names, h.unlinked⟩
  exact (p.session.lookupPath_pushExtent _ path).trans (h.paths path hpath)

section Take

variable {wanted : Option UInt32} {done : List DeviceRecord}
  {r : DeviceRecord}

/-- A file that was not put in before the pass is one that is asked for. -/
theorem file_mem_asked (h : Placed x (asked x wanted (done ++ [r])) p)
    (here : ¬ IsForeign wanted r) {raw : UInt64} {ino : Int64}
    (owner : r.owner = .inode raw) (number : ino.toInt = raw.toNat)
    (hnamed : ¬ p.isNamed ino = true) :
    .file ino ∈ asked x wanted (done ++ [r]) := by
  by_cases hunlinked : ino ∈ p.unlinked
  · exact h.unlinked ino hunlinked
  · have hnew : x.containsInode ino = false := by
      by_contra hold
      rw [Bool.not_eq_false] at hold
      have hrow := h.gains.containsInode hold
      rw [DevicePass.isNamed, hrow] at hnamed
      simp [hunlinked] at hnamed
    have hcaller := caller_of_namelessOn
      (namelessOn_eq_some_iff.2 ⟨here, raw, owner, number, hnew⟩)
    exact mem_asked (List.mem_append_right _ List.mem_cons_self) hcaller

/-- A file without a name is put in with the directories above it. -/
theorem attachUnlinked_asked (h : Placed x (asked x wanted (done ++ [r])) p)
    {ino : Int64} (hfile : .file ino ∈ asked x wanted (done ++ [r])) :
    Placed x (asked x wanted (done ++ [r])) (p.attachUnlinked ino) := by
  apply h.attachUnlinked
  · exact Guest.above_mem_asked hfile List.mem_cons_self
  · exact Guest.above_mem_asked hfile
      (List.mem_cons_of_mem _ List.mem_cons_self)
  · exact hfile

/-- A record that holds the map of an inode's extents. -/
theorem takeExtentMap (h : Placed x (asked x wanted (done ++ [r])) p)
    {ino : Int64} (hfile : ¬ p.isNamed ino = true →
      .file ino ∈ asked x wanted (done ++ [r])) :
    Placed x (asked x wanted (done ++ [r])) (p.takeExtentMap r ino) := by
  unfold DevicePass.takeExtentMap
  apply Placed.push
  by_cases named : p.isNamed ino = true
  · rw [if_pos named]
    exact ⟨h.gains, h.paths, h.names, h.unlinked⟩
  · have hattached := h.attachUnlinked_asked (hfile named)
    rw [if_neg named]
    exact ⟨hattached.gains, hattached.paths, hattached.names,
      hattached.unlinked⟩

/-- Taking a record gives places to the guests that it asks for. -/
theorem take (h : Placed x (asked x wanted done) p) :
    Placed x (asked x wanted (done ++ [r])) (p.take wanted r) := by
  have hmore : asked x wanted done ⊆ asked x wanted (done ++ [r]) := by
    rw [asked_snoc]
    exact List.subset_append_left _ _
  have hp := h.mono hmore
  have hcounted : Placed x (asked x wanted (done ++ [r]))
      { p with records := p.records + 1 } :=
    ⟨hp.gains, hp.paths, hp.names, hp.unlinked⟩
  -- whatever the record is, the guests it asks for are among `asked`
  have htakes := p.takes_take wanted r
  generalize p.take wanted r = q at htakes ⊢
  cases htakes with
  | foreign => exact ⟨hp.gains, hp.paths, hp.names, hp.unlinked⟩
  | unnumbered | known => exact hcounted
  | @hidden o here owner =>
    have hcaller : caller x wanted r = some (.owner (.ofSpecial o)) :=
      caller_of_specialOn (specialOn_eq_some_iff.2 ⟨here, owner⟩)
    have howner : .owner (.ofSpecial o) ∈ asked x wanted (done ++ [r]) :=
      mem_asked (List.mem_append_right _ List.mem_cons_self) hcaller
    have hne := ofSpecial_ne_root o
    have hroot : .owner .root ∈ asked x wanted (done ++ [r]) := by
      apply Guest.above_mem_asked howner
      rw [Guest.above_owner hne]
      exact List.mem_singleton_self _
    have hattached := hcounted.attach hroot howner hne
    apply Placed.push
    exact ⟨hattached.gains, hattached.paths, hattached.names,
      hattached.unlinked⟩
  | extentMap here owner number =>
    exact hcounted.takeExtentMap (hp.file_mem_asked here owner number)
  | content here owner number _ nameless =>
    have hfile := hp.file_mem_asked here owner number nameless
    exact (hcounted.attachUnlinked_asked hfile).push _ _ _ _

/-- By induction over the records, a pass changes the places of the guests that
its records ask for. -/
theorem takeMany (h : Placed x (asked x wanted done) p)
    (rest : List DeviceRecord) :
    Placed x (asked x wanted (done ++ rest)) (p.takeMany wanted rest) := by
  induction rest generalizing done p with
  | nil => rwa [List.append_nil]
  | cons r rest ih =>
    rw [List.append_cons]
    exact ih h.take

end Take

end Placed

-- =============================================================== guests

/-- At the place of a guest is a guest. -/
theorem Hosts.lookupPath_of_mem {x y : Session β} {met : List SpecialOwner}
    {guests : List Guest} {names : List (Int64 × String × Int64)}
    (h : Hosts x met guests y names) {g : Guest} (hg : g ∈ guests) :
    ∃ g' ∈ guests,
      y.lookupPath (g.path x.separator) = some (g'.number met) := by
  have hplace : ∃ e ∈ guests.eraseDups.map
      fun g => (g.path x.separator, g.number met),
      e.1 = g.path x.separator :=
    ⟨_, List.mem_map_of_mem (List.mem_eraseDups.2 hg), rfl⟩
  obtain ⟨ino, hmem, hget⟩ := SortedMap.exists_get?_insertMany
    x.store.tables.paths hplace
  obtain ⟨g', hg', heq⟩ := List.mem_map.1 hmem
  obtain ⟨-, rfl⟩ := Prod.mk.inj heq
  refine ⟨g', List.mem_eraseDups.1 hg', ?_⟩
  unfold Session.lookupPath
  rw [h.paths_eq]
  exact hget

-- ================================================================= ends

/-- The records that a pass takes before it is called off or fails. -/
def takenBy (calledOff : Nat → Bool) :
    (row : Nat) → List (Except Error DeviceRecord) → List DeviceRecord
  | _, [] => []
  | row, item :: rest =>
    if calledOff row then []
    else
      match item with
      | .error _ => []
      | .ok r => r :: takenBy calledOff (row + 1) rest

/-- Has a pass come to the end of its map? -/
def IsFinished (result : Except Error (Option DeviceReport)) : Prop :=
  ∃ report, result = .ok (some report)

/-- The session that is left by a pass when it has taken its records: the
names are put in if it has finished, and only then. -/
inductive LeftBy (q : DevicePass β) :
    Except Error (Option DeviceReport) × Session β → Prop where
  | finished : LeftBy q (.ok (some q.report), q.withNames)
  | stopped {result : Except Error (Option DeviceReport)}
      (early : ¬ IsFinished result) : LeftBy q (result, q.session)

/-- A pass ends at the end of its map, with an error or called off. In each
case it has taken the records before that, and the names are put in only in the
first. -/
theorem DevicePass.takeAll_leftBy (wanted : Option UInt32)
    (calledOff : Nat → Bool) (row : Nat)
    (items : List (Except Error DeviceRecord)) (p : DevicePass β) :
    LeftBy (p.takeMany wanted (takenBy calledOff row items))
      (takeAll wanted calledOff row items p) := by
  induction items generalizing row p with
  | nil => exact .finished
  | cons item rest ih =>
    rw [takeAll_cons]
    unfold takenBy
    split
    · exact .stopped nofun
    · cases item with
      | error e => exact .stopped nofun
      | ok r => exact ih (row + 1) (p.take wanted r)

/-- The same for the whole pass, which may also be refused before its first
record. -/
theorem ingestDevice_leftBy (x : Session β) (device : Option UInt64)
    (map : DeviceMap) (calledOff : Nat → Bool) :
    LeftBy (DevicePass.takeMany { session := x } (wantedDevice device map)
        (takenBy calledOff 0 map.trace.items))
      (ingestDevice x device map calledOff) := by
  obtain ⟨e, rest, hitems, hrefused⟩ | htakes :=
    ingestDevice_cases x device map calledOff
  · have hnone : takenBy calledOff 0 map.trace.items = [] := by
      rw [hitems]
      show (if calledOff 0 then [] else []) = []
      exact ite_self _
    rw [hnone, hrefused]
    exact .stopped nofun
  · rw [htakes]
    exact DevicePass.takeAll_leftBy _ _ _ _ _

-- =============================================================== keeping

/-- What a session has in common with the one before a pass that gave places
to some guests. -/
structure Kept (x : Session β) (guests : List Guest) (finished : Prop)
    (y : Session β) : Prop where
  rows : ∀ ino row, x.store.tables.inodes.get? ino = some row →
    y.store.tables.inodes.get? ino = some row
  paths : ∀ path, (∀ g ∈ guests, path ≠ g.path x.separator) →
    y.lookupPath path = x.lookupPath path
  /-- One entry is new in the walked directories. -/
  entries : ∀ (directory : Int64) name, 0 ≤ directory.toInt →
    ¬ (finished ∧ guests ≠ [] ∧ x.lookupPath "" = some directory ∧
      name = HiddenOwner.root.name) →
    y.named? directory name = x.named? directory name

/-- What is at the places of the guests after a pass, whatever was there. -/
structure Replaced (x : Session β) (guests : List Guest) (finished : Prop)
    (y : Session β) : Prop where
  paths : ∀ g ∈ guests, ∃ ino, x.containsInode ino = false ∧
    y.lookupPath (g.path x.separator) = some ino
  entry : finished → guests ≠ [] → ∀ directory,
    x.lookupPath "" = some directory →
      y.named? directory HiddenOwner.root.name = some (-1)

/-- What a pass has placed is all that is new when it has ended. -/
theorem Placed.kept {x : Session β} {guests : List Guest}
    {p : DevicePass β}
    {ended : Except Error (Option DeviceReport) × Session β}
    (h : Placed x guests p) (hleft : LeftBy p ended) :
    Kept x guests (IsFinished ended.1) ended.2 := by
  have hentries : ∀ directory name,
      p.session.named? directory name = x.named? directory name := by
    intro directory name
    unfold Session.named?
    rw [h.gains.directories_eq]
  cases hleft with
  | stopped early =>
    exact ⟨h.gains.rows, h.paths, fun directory name _ _ =>
      hentries directory name⟩
  | finished =>
    obtain ⟨directories, hresult⟩ := p.withNames_eq
    refine ⟨fun ino row hrow => ?_, fun path hpath => ?_,
      fun directory name hwalked hother => ?_⟩
    · show p.withNames.store.tables.inodes.get? ino = some row
      rw [hresult]
      exact h.gains.rows ino row hrow
    · exact (Midway.lookupPath_withNames p path).trans (h.paths path hpath)
    · refine Eq.trans ?_ (hentries directory name)
      apply named?_putNames_of_not_mem
      rintro e he ⟨rfl, rfl⟩
      obtain ⟨g, hg, hlisting⟩ := h.names e he
      obtain ⟨-, htop, hname⟩ := Guest.listing_cases hlisting hwalked
      exact hother ⟨⟨_, rfl⟩, List.ne_nil_of_mem hg, htop, hname⟩

/-- Whoever was at a guest's place is not there when the pass has ended. -/
theorem Midway.replaced {x : Session β} {wanted : Option UInt32}
    {met : List SpecialOwner} {records : List DeviceRecord}
    {offers : List (Option Extent)} {p : DevicePass β}
    {ended : Except Error (Option DeviceReport) × Session β}
    (hx : ∀ ino, x.containsInode ino = true → 0 ≤ ino.toInt)
    (hmet : Guest.Numbered met) (h : Midway x wanted met records offers p)
    (hleft : LeftBy p ended) :
    Replaced x (asked x wanted records) (IsFinished ended.1) ended.2 := by
  have hpaths : ∀ path,
      ended.2.lookupPath path = p.session.lookupPath path := by
    intro path
    cases hleft with
    | stopped early => rfl
    | finished => exact lookupPath_withNames p path
  refine ⟨fun g hg => ?_, fun hfinished hsome directory htop => ?_⟩
  · obtain ⟨g', hg', hplace⟩ := h.guests.lookupPath_of_mem hg
    have hfresh := Guest.number_fresh hx hmet (h.guests.admissible g' hg')
    exact ⟨_, hfresh, (hpaths _).trans hplace⟩
  · cases hleft with
    | stopped early => exact absurd hfinished early
    | finished =>
      -- the directory of all guests is the only one of its name
      obtain ⟨g, hg⟩ := List.exists_mem_of_ne_nil _ hsome
      have hroot : .owner .root ∈ asked x wanted records := by
        cases g with
        | file ino => exact Guest.above_mem_asked hg List.mem_cons_self
        | owner o =>
          by_cases hroot : o = .root
          · exact hroot ▸ hg
          · apply Guest.above_mem_asked hg
            rw [Guest.above_owner hroot]
            exact List.mem_singleton_self _
      obtain ⟨pre, post, hsplit⟩ :=
        List.append_of_mem (List.mem_eraseDups.2 hroot)
      have hlast : ∀ g' ∈ post, ¬ (Guest.owner .root).Twins g' := by
        rintro g' - ⟨o, o', ho, -⟩
        cases ho
      have hentry : (Guest.owner .root).entry (x.lookupPath "") met
          = some (directory, HiddenOwner.root.name, -1) := by
        rw [Guest.entry, htop]
        rfl
      exact h.guests.named?_of_last hsplit hlast hentry

/-- A pass keeps all rows, the paths that are no guest's place, and the
entries of the walked directories but for one, whatever its end. The places
of the guests are lost to what was there before. -/
theorem ingestDevice_keeps (x : Session β) (device : Option UInt64)
    (map : DeviceMap) (calledOff : Nat → Bool) :
    let wanted := wantedDevice device map
    let records := takenBy calledOff 0 map.trace.items
    let guests := asked x wanted records
    let ended := ingestDevice x device map calledOff
    Kept x guests (IsFinished ended.1) ended.2 ∧
      ((∀ ino, x.containsInode ino = true → 0 ≤ ino.toInt) →
        Guest.Numbered (numbered wanted records) →
        Replaced x guests (IsFinished ended.1) ended.2) := by
  intro wanted records guests ended
  have hleft := ingestDevice_leftBy x device map calledOff
  constructor
  · have hstart : Placed x (asked x wanted []) { session := x } :=
      ⟨.refl x, fun _ _ => rfl, nofun, nofun⟩
    exact (hstart.takeMany records).kept hleft
  · intro hx hmet
    obtain ⟨offers, hp⟩ := (Midway.start x wanted
      (numbered wanted records)).takeMany hx hmet records List.prefix_rfl
    exact hp.replaced hx hmet hleft

/-- A session with a root that holds a file with the name of the directory
of the hidden owners. -/
def lookalike : Session Vault :=
  (rooted.putInode (.bare 5 .file) "/$metadata").insertDirectory 2
    [("$metadata", 5)]

theorem toInt_of_lookalike (ino : Int64)
    (h : lookalike.containsInode ino = true) : 0 ≤ ino.toInt := by
  rcases (SortedMap.contains_insert_iff _ _ _ _).1 h with rfl | hrest
  · decide
  · exact toInt_of_rooted ino hrest

/-- A device with free space. -/
def freeMap : DeviceMap :=
  ⟨[.ask .lowest,
      .give ⟨0, .specialOwner, 0, SpecialOwner.free.raw, 0, 4096⟩], [true]⟩

/-- A pass keeps the row of the file, and replaces its path and entry. -/
theorem ingestDevice_keeps_lookalike :
    let guests : List Guest := [.owner .root, .owner .freeSpace]
    (∀ ino, lookalike.containsInode ino = true → 0 ≤ ino.toInt) ∧
    Guest.Numbered (numbered none [⟨0, .specialOwner, 0,
      SpecialOwner.free.raw, 0, 4096⟩]) ∧
    ∃ report y, ingestDevice lookalike none freeMap (fun _ => false)
        = (.ok (some report), y) ∧
      Kept lookalike guests (IsFinished (.ok (some report))) y ∧
      Replaced lookalike guests (IsFinished (.ok (some report))) y := by
  have hmet : Guest.Numbered (numbered none [⟨0, .specialOwner, 0,
      SpecialOwner.free.raw, 0, 4096⟩]) := by
    unfold Guest.Numbered
    decide
  obtain ⟨hkept, hreplaced⟩ :=
    ingestDevice_keeps lookalike none freeMap fun _ => false
  exact ⟨toInt_of_lookalike, hmet, _, _, rfl, hkept,
    hreplaced toInt_of_lookalike hmet⟩

/-- A file with the name of the directory of the hidden owners, whose path
and entry lead to that directory after a pass. -/
theorem lookalike_lost :
    (∀ ino, lookalike.containsInode ino = true → 0 ≤ ino.toInt) ∧
    lookalike.lookupPath "/$metadata" = some 5 ∧
    lookalike.named? 2 "$metadata" = some 5 ∧
    ∃ report y, ingestDevice lookalike none freeMap (fun _ => false)
        = (.ok (some report), y) ∧
      y.lookupPath "/$metadata" = some (-1) ∧
      y.named? 2 "$metadata" = some (-1) ∧
      y.containsInode 5 = true ∧ y.finish.2.pathsOf 5 = [] := by
  refine ⟨toInt_of_lookalike, by decide, by decide, _, _, rfl, ?_, ?_, ?_, ?_⟩
  · decide
  · decide
  · decide
  · decide

end Scan

end DiskAtlas

/-
What a pass over a device leaves when it fails. A pass only adds: the rows
that were there stay, and so do the extents and, until the very end, the
entries of directories (`Session.Gains`). A pass that fails has taken the
records up to the error, and what they have added is not taken back. So the
tables are those from before if none of these records adds anything, an
owner without a row or an extent that fits, and only then
(`ingestDevice_failed`).

`Underway` is kept by every record and `Idle` by those that add nothing. The
two together say when the tables are those from before, in both directions.
-/
import DiskAtlas.Mapping.Script
import DiskAtlas.Proofs.Scan.Reachable

namespace DiskAtlas

open Mapping

-- =============================================================== growing

namespace Session

variable {β : Type} {x y z : Session β}

/-- A session with more rows, paths and extents than another one. -/
structure Gains (x y : Session β) : Prop where
  summary_eq : y.summary = x.summary
  directories_eq : y.store.tables.directories = x.store.tables.directories
  rows : ∀ ino row, x.store.tables.inodes.get? ino = some row →
    y.store.tables.inodes.get? ino = some row
  extents : x.store.tables.extents.toList <+: y.store.tables.extents.toList

theorem Gains.refl (x : Session β) : x.Gains x :=
  ⟨rfl, rfl, fun _ _ hrow => hrow, List.prefix_rfl⟩

theorem Gains.trans (h : x.Gains y) (h' : y.Gains z) : x.Gains z :=
  ⟨h'.summary_eq.trans h.summary_eq,
    h'.directories_eq.trans h.directories_eq,
    fun ino row hrow => h'.rows ino row (h.rows ino row hrow),
    h.extents.trans h'.extents⟩

theorem Gains.separator_eq (h : x.Gains y) : y.separator = x.separator := by
  unfold separator
  rw [h.summary_eq]

/-- An inode that has a row keeps it. -/
theorem Gains.containsInode (h : x.Gains y) {ino : Int64}
    (hrow : x.containsInode ino = true) : y.containsInode ino = true := by
  obtain ⟨row, hget⟩ := Option.isSome_iff_exists.1 hrow
  exact Option.isSome_iff_exists.2 ⟨row, h.rows ino row hget⟩

/-- A row is put in only where there was none. -/
theorem ensureInode_gains (x : Session β) (ino : Int64) (kind : InodeKind)
    (path : String) : x.Gains (x.ensureInode ino kind path) := by
  unfold ensureInode
  split
  · exact .refl x
  · next hnew =>
    refine ⟨rfl, rfl, fun i row hrow => ?_, List.prefix_rfl⟩
    have hne : ino ≠ i := by
      rintro rfl
      exact hnew (Option.isSome_iff_exists.2 ⟨row, hrow⟩)
    exact (SortedMap.get?_insert_of_ne _ _ hne).trans hrow

/-- Whoever is put in has a row. -/
theorem containsInode_ensureInode (x : Session β) (ino : Int64)
    (kind : InodeKind) (path : String) :
    (x.ensureInode ino kind path).containsInode ino = true := by
  unfold ensureInode
  split
  · next hold => exact hold
  · exact (SortedMap.contains_insert_iff _ _ _ _).2 (Or.inl rfl)

theorem pushExtent_gains (x : Session β) (e : Extent) :
    x.Gains (x.pushExtent e).2 := by
  rcases x.pushExtent_cases e with ⟨-, hpushed⟩ | ⟨-, hpushed⟩
  · rw [hpushed]
    refine ⟨rfl, rfl, fun _ _ hrow => hrow, ?_⟩
    simp [withTables]
  · rw [hpushed]
    exact ⟨rfl, rfl, fun _ _ hrow => hrow, List.prefix_rfl⟩

/-- A session with a row or an extent that another one does not have. -/
def Exceeds (x y : Session β) : Prop :=
  (∃ ino, x.containsInode ino = false ∧ y.containsInode ino = true) ∨
    x.extentCount < y.extentCount

/-- What was added once is still there later, so it is enough that one record
adds. -/
theorem Exceeds.of_gains (h : x.Exceeds y) (h' : y.Gains z) :
    x.Exceeds z := by
  rcases h with ⟨ino, hnew, hrow⟩ | hmore
  · exact Or.inl ⟨ino, hnew, h'.containsInode hrow⟩
  · have hlength := h'.extents.length_le
    rw [Array.length_toList, Array.length_toList] at hlength
    exact Or.inr (Nat.lt_of_lt_of_le hmore hlength)

theorem Exceeds.tables_ne (h : x.Exceeds y) :
    y.store.tables ≠ x.store.tables := by
  intro hsame
  rcases h with ⟨ino, hnew, hrow⟩ | hmore
  · unfold containsInode at hnew hrow
    rw [hsame, hnew] at hrow
    cases hrow
  · unfold extentCount at hmore
    rw [hsame] at hmore
    exact Nat.lt_irrefl _ hmore

/-- An extent that fits is more. -/
theorem Gains.exceeds_pushExtent (h : x.Gains y) {e : Extent}
    (hfits : e.Fits) : x.Exceeds (y.pushExtent e).2 := by
  rcases y.pushExtent_cases e with ⟨-, hpushed⟩ | ⟨hnot, -⟩
  · have hlength := h.extents.length_le
    rw [Array.length_toList, Array.length_toList] at hlength
    rw [hpushed]
    refine Or.inr (Nat.lt_of_le_of_lt hlength ?_)
    simp [extentCount, withTables]
  · exact absurd hfits hnot

/-- An extent that does not fit is counted and nothing else. -/
theorem tables_pushExtent {e : Extent} (hnot : ¬ e.Fits) (x : Session β) :
    (x.pushExtent e).2.store.tables = x.store.tables := by
  rcases x.pushExtent_cases e with ⟨hfits, -⟩ | ⟨-, hpushed⟩
  · exact absurd hfits hnot
  · rw [hpushed]

end Session

namespace Scan

variable {β : Type}

-- ================================================================= steps

namespace DevicePass

variable {p : DevicePass β} {owner : HiddenOwner} {ino : Int64}

theorem addOwner_gains (p : DevicePass β) (owner : HiddenOwner)
    (ino : Int64) (directory : Option Int64) :
    p.session.Gains (p.addOwner owner ino directory).session :=
  Session.ensureInode_gains _ _ _ _

theorem attachRoot_gains (p : DevicePass β) :
    p.session.Gains p.attachRoot.2.session := by
  rw [attachRoot_eq]
  split
  · exact .refl _
  · exact addOwner_gains _ _ _ _

/-- It has a number of its own, so no number is given out for it. -/
theorem attachRoot_numbers (p : DevicePass β) :
    p.attachRoot.2.numbers = p.numbers ∧
      p.attachRoot.2.unlinked = p.unlinked := by
  rw [attachRoot_eq]
  split
  · exact ⟨rfl, rfl⟩
  · exact ⟨rfl, rfl⟩

/-- An owner that is asked for has a row afterwards. -/
theorem attach_gains (p : DevicePass β) (hroot : owner ≠ .root) :
    p.session.Gains (p.attach owner).2.session ∧
      (p.attach owner).1 = (p.numbers.number owner).1 ∧
      (p.attach owner).2.numbers = (p.numbers.number owner).2 ∧
      (p.attach owner).2.unlinked = p.unlinked ∧
      (p.attach owner).2.session.containsInode
        (p.numbers.number owner).1 = true := by
  let q : DevicePass β := { p with numbers := (p.numbers.number owner).2 }
  have hq := attachRoot_gains q
  obtain ⟨hnumbers, hunlinked⟩ := attachRoot_numbers q
  rw [attach_eq]
  dsimp only
  split
  · next hrow => exact ⟨.refl _, rfl, rfl, rfl, hrow⟩
  · refine ⟨hq.trans (addOwner_gains _ _ _ _), rfl, hnumbers, hunlinked, ?_⟩
    exact Session.containsInode_ensureInode _ _ _ _

/-- A file without a name that is asked for has a row afterwards, if those
that were asked for before have one. -/
theorem attachUnlinked_gains
    (hthere : ∀ i ∈ p.unlinked, p.session.containsInode i = true)
    (ino : Int64) :
    p.session.Gains (p.attachUnlinked ino).session ∧
      (p.attachUnlinked ino).numbers = p.numbers ∧
      (p.attachUnlinked ino).session.containsInode ino = true ∧
      ∀ i ∈ (p.attachUnlinked ino).unlinked,
        (p.attachUnlinked ino).session.containsInode i = true := by
  rw [attachUnlinked_eq]
  split
  · next hold =>
    have hmem := List.contains_iff_mem.1 hold
    exact ⟨.refl _, rfl, hthere ino hmem, hthere⟩
  · let q : DevicePass β := { p with unlinked := p.unlinked ++ [ino] }
    obtain ⟨hgains, -, hnumbers, hunlinked, -⟩ :=
      attach_gains q (by decide : HiddenOwner.unlinked ≠ .root)
    have hensure := Session.ensureInode_gains (q.attach .unlinked).2.session
      ino .file (HiddenOwner.unlinkedPath
        (q.attach .unlinked).2.session.separator ino)
    have hrow := Session.containsInode_ensureInode
      (q.attach .unlinked).2.session ino .file (HiddenOwner.unlinkedPath
        (q.attach .unlinked).2.session.separator ino)
    refine ⟨hgains.trans hensure, hnumbers, hrow, fun i hi => ?_⟩
    rw [show _ = q.unlinked from hunlinked] at hi
    rcases List.mem_append.1 hi with hold | hnew
    · exact (hgains.trans hensure).containsInode (hthere i hold)
    · obtain rfl := List.mem_singleton.1 hnew
      exact hrow

theorem push_gains (p : DevicePass β) (r : DeviceRecord) (ino : Int64)
    (kind : ExtentKind) (logical : Option UInt64) :
    p.session.Gains (p.push r ino kind logical).session :=
  p.session.pushExtent_gains _

end DevicePass

-- =============================================================== records

/-- A record that adds to a session when these special owners are numbered:
its owner has no row, or its extent is one that is offered and fits. -/
inductive Adds (x : Session β) (wanted : Option UInt32)
    (met : List SpecialOwner) (r : DeviceRecord) : Prop where
  | owner {o : SpecialOwner} (here : ¬ IsForeign wanted r)
      (owner : r.owner = .special o)
      (new : x.containsInode
        (Guest.number met (.owner (.ofSpecial o))) = false) :
      Adds x wanted met r
  | file {raw : UInt64} {ino : Int64} (here : ¬ IsForeign wanted r)
      (owner : r.owner = .inode raw) (number : ino.toInt = raw.toNat)
      (new : x.containsInode ino = false) : Adds x wanted met r
  | extent {o : SpecialOwner} (here : ¬ IsForeign wanted r)
      (owner : r.owner = .special o)
      (fits : (rowFor r (Guest.number met (.owner (.ofSpecial o))) .metadata
        none).Fits) : Adds x wanted met r
  | extentMap {raw : UInt64} {ino : Int64} (here : ¬ IsForeign wanted r)
      (owner : r.owner = .inode raw) (number : ino.toInt = raw.toNat)
      (map : r.flags.containsAll .extentMap = true)
      (fits : (rowFor r ino .extentMap none).Fits) : Adds x wanted met r

/-- Whether a row without a place in a file fits is a matter of the
record. -/
theorem fits_rowFor_iff {r : DeviceRecord} {ino ino' : Int64}
    {kind kind' : ExtentKind} :
    (rowFor r ino kind none).Fits ↔ (rowFor r ino' kind' none).Fits := by
  constructor
  · intro h
    exact ⟨h.nonempty, h.physical, nofun⟩
  · intro h
    exact ⟨h.nonempty, h.physical, nofun⟩

/-- A special owner is given the number that it keeps. -/
theorem DevicePass.number_eq {p : DevicePass β} {wanted : Option UInt32}
    {met : List SpecialOwner} {done : List DeviceRecord} {r : DeviceRecord}
    (hmet : p.numbers.met = numbered wanted done)
    (hmore : numbered wanted (done ++ [r]) <+: met) {o : SpecialOwner}
    (ho : specialOn wanted r = some o) :
    (p.numbers.number (.ofSpecial o)).1
      = Guest.number met (.owner (.ofSpecial o)) := by
  apply number_stable
  rw [met_number hmet ho]
  exact hmore

/-- A pass that began with `x` and has taken some records, by what it has
added. -/
structure Underway (x : Session β) (wanted : Option UInt32)
    (done : List DeviceRecord) (p : DevicePass β) : Prop where
  gains : x.Gains p.session
  met_eq : p.numbers.met = numbered wanted done
  unlinked : ∀ ino ∈ p.unlinked, p.session.containsInode ino = true

/-- A pass that has taken one more record: it has lost nothing that was there
before, and has more than `x` if the record adds anything. -/
structure Next (x : Session β) (wanted : Option UInt32)
    (met : List SpecialOwner) (done : List DeviceRecord) (r : DeviceRecord)
    (before : Session β) (q : DevicePass β) : Prop where
  underway : Underway x wanted (done ++ [r]) q
  gains : before.Gains q.session
  exceeds : Adds x wanted met r → x.Exceeds q.session

namespace Underway

variable {x : Session β} {wanted : Option UInt32} {met : List SpecialOwner}
  {done : List DeviceRecord} {r : DeviceRecord} {p q : DevicePass β}

/-- A record of a special owner. -/
theorem takeHidden (h : Underway x wanted done p)
    (hmore : numbered wanted (done ++ [r]) <+: met) {o : SpecialOwner}
    (here : ¬ IsForeign wanted r) (owner : r.owner = .special o) :
    Next x wanted met done r p.session (p.takeHidden r (.ofSpecial o)) := by
  have ho : specialOn wanted r = some o :=
    specialOn_eq_some_iff.2 ⟨here, owner⟩
  obtain ⟨hattached, hino, hnumbers, hunlinked, hrow⟩ :=
    p.attach_gains (ofSpecial_ne_root o)
  have hnumber := DevicePass.number_eq h.met_eq hmore ho
  rw [hnumber] at hino hrow
  -- the extent comes behind the owner
  let a := (p.attach (.ofSpecial o)).2
  let row := rowFor r (Guest.number met (.owner (.ofSpecial o)))
    (DevicePass.ownerExtentKind (.ofSpecial o)) none
  have hsession : (p.takeHidden r (.ofSpecial o)).session
      = (a.session.pushExtent row).2 := by
    unfold DevicePass.takeHidden DevicePass.push
    dsimp only
    rw [hino]
    rfl
  have hpushed := a.session.pushExtent_gains row
  have hgains : p.session.Gains (p.takeHidden r (.ofSpecial o)).session := by
    rw [hsession]
    exact hattached.trans hpushed
  refine ⟨⟨h.gains.trans hgains, ?_, fun ino hmem => ?_⟩, hgains, ?_⟩
  · have hmet := met_number h.met_eq ho
    rw [← hnumbers] at hmet
    exact hmet
  · have hold : ino ∈ p.unlinked := hunlinked ▸ hmem
    exact hgains.containsInode (h.unlinked ino hold)
  · intro hadds
    rw [hsession]
    cases hadds with
    | @owner o' _ owner' new =>
      obtain rfl := DeviceOwner.special.inj (owner.symm.trans owner')
      exact Or.inl ⟨_, new, hpushed.containsInode hrow⟩
    | @extent o' _ owner' fits =>
      obtain rfl := DeviceOwner.special.inj (owner.symm.trans owner')
      apply (h.gains.trans hattached).exceeds_pushExtent
      exact fits_rowFor_iff.1 fits
    | file _ owner' | extentMap _ owner' =>
      rw [owner] at owner'
      cases owner'

/-- A record of an inode that has a row by then adds an extent at most. -/
theorem takeInode (h : Underway x wanted done p) {raw : UInt64} {ino : Int64}
    (owner : r.owner = .inode raw) (number : ino.toInt = raw.toNat)
    (hgains : p.session.Gains q.session) (hnumbers : q.numbers = p.numbers)
    (hunlinked : ∀ i ∈ q.unlinked, q.session.containsInode i = true)
    (hrow : q.session.containsInode ino = true)
    (hmap : r.flags.containsAll .extentMap = true →
      (rowFor r ino .extentMap none).Fits → x.Exceeds q.session) :
    Next x wanted met done r p.session q := by
  have hsame : ∀ (raw' : UInt64) (ino' : Int64), r.owner = .inode raw' →
      ino'.toInt = raw'.toNat → ino' = ino := by
    intro raw' ino' owner' number'
    obtain rfl := DeviceOwner.inode.inj (owner.symm.trans owner')
    exact Int64.toInt_inj.1 (number'.trans number.symm)
  refine ⟨⟨h.gains.trans hgains, ?_, hunlinked⟩, hgains, fun hadds => ?_⟩
  · rw [hnumbers, numbered_snoc_of_none (specialOn_of_inode wanted owner)]
    exact h.met_eq
  cases hadds with
  | owner _ owner' | extent _ owner' =>
    rw [owner] at owner'
    cases owner'
  | file _ owner' number' new =>
    obtain rfl := hsame _ _ owner' number'
    exact Or.inl ⟨_, new, hrow⟩
  | extentMap _ owner' number' map fits =>
    obtain rfl := hsame _ _ owner' number'
    exact hmap map fits

/-- A record that holds the map of an inode's extents. -/
theorem takeExtentMap (h : Underway x wanted done p) {raw : UInt64}
    {ino : Int64} (owner : r.owner = .inode raw)
    (number : ino.toInt = raw.toNat) :
    Next x wanted met done r p.session (p.takeExtentMap r ino) := by
  let q := if p.isNamed ino then p else p.attachUnlinked ino
  have hq : p.session.Gains q.session ∧ q.numbers = p.numbers ∧
      q.session.containsInode ino = true ∧
      ∀ i ∈ q.unlinked, q.session.containsInode i = true := by
    by_cases named : p.isNamed ino = true
    · have hrow : p.session.containsInode ino = true :=
        (Bool.and_eq_true_iff.1 named).1
      rw [show q = p from if_pos named]
      exact ⟨.refl _, rfl, hrow, h.unlinked⟩
    · rw [show q = p.attachUnlinked ino from if_neg named]
      exact DevicePass.attachUnlinked_gains h.unlinked ino
  obtain ⟨hgains, hnumbers, hrow, hunlinked⟩ := hq
  have hpushed := q.session.pushExtent_gains (rowFor r ino .extentMap none)
  apply h.takeInode (q := p.takeExtentMap r ino) owner number
    (hgains.trans hpushed) hnumbers
  · intro i hi
    exact hpushed.containsInode (hunlinked i hi)
  · exact hpushed.containsInode hrow
  · intro _ hfits
    exact (h.gains.trans hgains).exceeds_pushExtent hfits

/-- A record with content of a file without a name. -/
theorem takeContent (h : Underway x wanted done p) {raw : UInt64}
    {ino : Int64} (owner : r.owner = .inode raw)
    (number : ino.toInt = raw.toNat)
    (hmap : ¬ r.flags.containsAll .extentMap = true) :
    Next x wanted met done r p.session (p.takeContent r ino) := by
  obtain ⟨hgains, hnumbers, hrow, hunlinked⟩ :=
    DevicePass.attachUnlinked_gains h.unlinked ino
  have hpushed := (p.attachUnlinked ino).push_gains r ino
    (if r.flags.containsAll .attrFork then .xattr else .file) (some r.offset)
  apply h.takeInode owner number (hgains.trans hpushed) hnumbers
  · intro i hi
    exact hpushed.containsInode (hunlinked i hi)
  · exact hpushed.containsInode hrow
  · intro map
    exact absurd map hmap

/-- Taking a record adds what the record adds, and takes nothing away. -/
theorem take (h : Underway x wanted done p)
    (hmore : numbered wanted (done ++ [r]) <+: met) :
    Next x wanted met done r p.session (p.take wanted r) := by
  have hcounted : Underway x wanted done { p with records := p.records + 1 } :=
    ⟨h.gains, h.met_eq, h.unlinked⟩
  have htakes := p.takes_take wanted r
  generalize p.take wanted r = q at htakes ⊢
  cases htakes with
  | foreign there =>
    refine ⟨⟨h.gains, ?_, h.unlinked⟩, .refl _, fun hadds => ?_⟩
    · rw [numbered_snoc_of_none (specialOn_of_foreign there)]
      exact h.met_eq
    · cases hadds with
      | owner here | file here | extent here | extentMap here =>
        exact absurd there here
  | unnumbered here owner large =>
    -- no row can have the number
    refine ⟨⟨h.gains, ?_, h.unlinked⟩, .refl _, fun hadds => ?_⟩
    · rw [numbered_snoc_of_none (specialOn_of_inode wanted owner)]
      exact h.met_eq
    cases hadds with
    | owner _ owner' | extent _ owner' =>
      rw [owner] at owner'
      cases owner'
    | @file raw' ino _ owner' number | @extentMap raw' ino _ owner' number =>
      obtain rfl := DeviceOwner.inode.inj (owner.symm.trans owner')
      have hlt := ino.toInt_lt
      omega
  | hidden here owner => exact hcounted.takeHidden hmore here owner
  | extentMap _ owner number => exact hcounted.takeExtentMap owner number
  | known _ owner number content named =>
    have hrow := (Bool.and_eq_true_iff.1 named).1
    exact hcounted.takeInode owner number (.refl _) rfl h.unlinked hrow
      fun map => absurd map content
  | content _ owner number content =>
    exact hcounted.takeContent owner number content

/-- A pass that takes several records has more than before if one of them
adds anything. -/
theorem takeMany (h : Underway x wanted done p) (rest : List DeviceRecord)
    (hmore : numbered wanted (done ++ rest) <+: met) :
    p.session.Gains (p.takeMany wanted rest).session ∧
      ((∃ r ∈ rest, Adds x wanted met r) →
        x.Exceeds (p.takeMany wanted rest).session) := by
  induction rest generalizing done p with
  | nil => exact ⟨.refl _, by simp⟩
  | cons r rest ih =>
    rw [List.append_cons] at hmore
    have hfirst := (prefix_numbered wanted (done ++ [r]) rest).trans hmore
    obtain ⟨hnext, hgains, hexceeds⟩ := h.take hfirst
    obtain ⟨hrest, hmany⟩ := ih hnext hmore
    refine ⟨hgains.trans hrest, ?_⟩
    rintro ⟨r', hr', hadds⟩
    rcases List.mem_cons.1 hr' with rfl | hlater
    · exact (hexceeds hadds).of_gains hrest
    · exact hmany ⟨r', hlater, hadds⟩

end Underway

/-- A pass that has taken some records and added nothing. -/
structure Idle (x : Session β) (wanted : Option UInt32)
    (done : List DeviceRecord) (p : DevicePass β) : Prop where
  tables_eq : p.session.store.tables = x.store.tables
  met_eq : p.numbers.met = numbered wanted done
  unlinked_eq : p.unlinked = []

namespace Idle

variable {x : Session β} {wanted : Option UInt32} {met : List SpecialOwner}
  {done : List DeviceRecord} {r : DeviceRecord} {p : DevicePass β}

/-- A pass that has added nothing has the rows it began with, so the conditions
on rows in `Adds` mean the same at every record. -/
theorem containsInode_eq (h : Idle x wanted done p) (ino : Int64) :
    p.session.containsInode ino = x.containsInode ino := by
  unfold Session.containsInode
  rw [h.tables_eq]

/-- A record of a special owner that has a row. -/
theorem takeHidden (h : Idle x wanted done p)
    (hmore : numbered wanted (done ++ [r]) <+: met)
    (hnothing : ¬ Adds x wanted met r) {o : SpecialOwner}
    (here : ¬ IsForeign wanted r) (owner : r.owner = .special o) :
    Idle x wanted (done ++ [r]) (p.takeHidden r (.ofSpecial o)) := by
  have ho : specialOn wanted r = some o :=
    specialOn_eq_some_iff.2 ⟨here, owner⟩
  have hmet := met_number h.met_eq ho
  have hnumber := DevicePass.number_eq h.met_eq hmore ho
  have hrow : p.session.containsInode
      (p.numbers.number (.ofSpecial o)).1 = true := by
    rw [h.containsInode_eq, hnumber]
    by_contra hnew
    exact hnothing (.owner here owner (Bool.eq_false_iff.2 hnew))
  have hattach : p.attach (.ofSpecial o) =
      ((p.numbers.number (.ofSpecial o)).1,
        { p with numbers := (p.numbers.number (.ofSpecial o)).2 }) := by
    rw [DevicePass.attach_eq]
    exact if_pos hrow
  have hfits : ¬ (rowFor r (p.numbers.number (.ofSpecial o)).1
      (DevicePass.ownerExtentKind (.ofSpecial o)) none).Fits := by
    intro hfits
    exact hnothing (.extent here owner (fits_rowFor_iff.1 hfits))
  unfold DevicePass.takeHidden
  rw [hattach]
  refine ⟨?_, hmet, h.unlinked_eq⟩
  exact (Session.tables_pushExtent hfits p.session).trans h.tables_eq

/-- A file that adds nothing was put in before the pass. -/
theorem isNamed (h : Idle x wanted done p) (hnothing : ¬ Adds x wanted met r)
    (here : ¬ IsForeign wanted r) {raw : UInt64} {ino : Int64}
    (owner : r.owner = .inode raw) (number : ino.toInt = raw.toNat) :
    p.isNamed ino = true := by
  have hrow : x.containsInode ino = true := by
    by_contra hnew
    exact hnothing (.file here owner number (Bool.eq_false_iff.2 hnew))
  rw [DevicePass.isNamed, h.containsInode_eq, h.unlinked_eq, hrow]
  rfl

/-- A record that adds nothing leaves nothing. -/
theorem take (h : Idle x wanted done p)
    (hmore : numbered wanted (done ++ [r]) <+: met)
    (hnothing : ¬ Adds x wanted met r) :
    Idle x wanted (done ++ [r]) (p.take wanted r) := by
  have hcounted : Idle x wanted done { p with records := p.records + 1 } :=
    ⟨h.tables_eq, h.met_eq, h.unlinked_eq⟩
  -- whatever names no special owner leaves the numbers
  have hpass : ∀ q : DevicePass β, specialOn wanted r = none →
      q.session.store.tables = p.session.store.tables →
      q.numbers = p.numbers → q.unlinked = p.unlinked →
      Idle x wanted (done ++ [r]) q := by
    intro q hspecial htables hnumbers hunlinked
    refine ⟨htables.trans h.tables_eq, ?_, hunlinked.trans h.unlinked_eq⟩
    rw [hnumbers, numbered_snoc_of_none hspecial]
    exact h.met_eq
  have htakes := p.takes_take wanted r
  generalize p.take wanted r = q at htakes ⊢
  cases htakes with
  | foreign there => exact hpass _ (specialOn_of_foreign there) rfl rfl rfl
  | unnumbered _ owner | known _ owner =>
    exact hpass _ (specialOn_of_inode wanted owner) rfl rfl rfl
  | hidden here owner => exact hcounted.takeHidden hmore hnothing here owner
  | @extentMap _ ino here owner number map =>
    have hfits : ¬ (rowFor r ino .extentMap none).Fits := fun hfits =>
      hnothing (.extentMap here owner number map hfits)
    have hnamed := hcounted.isNamed hnothing here owner number
    have htables := Session.tables_pushExtent hfits p.session
    unfold DevicePass.takeExtentMap
    rw [hnamed]
    exact hpass _ (specialOn_of_inode wanted owner) htables rfl rfl
  | content here owner number _ nameless =>
    exact absurd (h.isNamed hnothing here owner number) nameless

/-- Records that add nothing leave nothing. -/
theorem takeMany (h : Idle x wanted done p) (rest : List DeviceRecord)
    (hmore : numbered wanted (done ++ rest) <+: met)
    (hnothing : ∀ r ∈ rest, ¬ Adds x wanted met r) :
    (p.takeMany wanted rest).session.store.tables = x.store.tables := by
  induction rest generalizing done p with
  | nil => exact h.tables_eq
  | cons r rest ih =>
    rw [List.append_cons] at hmore
    have hfirst := (prefix_numbered wanted (done ++ [r]) rest).trans hmore
    have hnext := h.take hfirst (hnothing r List.mem_cons_self)
    exact ih hnext hmore fun r' hr' => hnothing r' (List.mem_cons_of_mem _ hr')

end Idle

-- =============================================================== failures

/-- A pass that fails has taken the records in front of the error. -/
theorem DevicePass.takeAll_error {wanted : Option UInt32}
    {calledOff : Nat → Bool} {row : Nat}
    {items : List (Except Error DeviceRecord)} {p : DevicePass β} {e : Error}
    {y : Session β} (h : takeAll wanted calledOff row items p = (.error e, y)) :
    ∃ (records : List DeviceRecord) (rest : _),
      items = records.map .ok ++ .error e :: rest ∧
        y = (p.takeMany wanted records).session := by
  induction items generalizing row p with
  | nil => cases h
  | cons item items ih =>
    rw [takeAll_cons] at h
    split at h
    · cases h
    · cases item with
      | error e' =>
        obtain ⟨he, rfl⟩ := Prod.mk.inj h
        obtain rfl := Except.error.inj he
        exact ⟨[], items, rfl, rfl⟩
      | ok r =>
        obtain ⟨records, rest, rfl, rfl⟩ := ih h
        exact ⟨r :: records, rest, rfl, rfl⟩

/-- A map that was refused begins with the error. -/
theorem items_of_refusal? {ρ α : Type} {trace : Trace ρ α} {e : Error}
    (h : trace.refusal? = some e) : ∃ rest, trace.items = .error e :: rest := by
  unfold Trace.refusal? at h
  split at h
  · next rest =>
    obtain rfl := Option.some_inj.1 h
    exact ⟨Trace.items rest, rfl⟩
  · cases h

/-- A map that was refused leaves the session; any other one is taken item by
item. -/
theorem ingestDevice_cases (x : Session β) (device : Option UInt64)
    (map : DeviceMap) (calledOff : Nat → Bool) :
    (∃ (e : Error) (rest : _), map.trace.items = .error e :: rest ∧
      ingestDevice x device map calledOff = (.error e, x)) ∨
    ingestDevice x device map calledOff
      = DevicePass.takeAll (wantedDevice device map) calledOff 0
        map.trace.items { session := x } := by
  unfold ingestDevice
  cases hrefused : map.trace.refusal? with
  | some e =>
    obtain ⟨rest, hitems⟩ := items_of_refusal? hrefused
    exact .inl ⟨e, rest, hitems, rfl⟩
  | none => exact .inr rfl

/-- What a pass that fails leaves: all that the records in front of the error
have added, and no entries of directories. The tables are those from before
exactly if none of these records adds anything. -/
theorem ingestDevice_failed (x : Session β) (device : Option UInt64)
    (map : DeviceMap) (calledOff : Nat → Bool) (e : Error) (y : Session β)
    (h : ingestDevice x device map calledOff = (.error e, y)) :
    let wanted := wantedDevice device map
    ∃ (records : List DeviceRecord) (rest : _),
      map.trace.items = records.map .ok ++ .error e :: rest ∧
      y = (DevicePass.takeMany { session := x } wanted records).session ∧
      x.Gains y ∧
      (y.store.tables = x.store.tables ↔
        ∀ r ∈ records, ¬ Adds x wanted (numbered wanted records) r) := by
  intro wanted
  have hends : ∃ (records : List DeviceRecord) (rest : _),
      map.trace.items = records.map .ok ++ .error e :: rest ∧
        y = (DevicePass.takeMany { session := x } wanted records).session := by
    obtain ⟨e', rest, hitems, hrefused⟩ | htakes :=
      ingestDevice_cases x device map calledOff
    · obtain ⟨he, rfl⟩ := Prod.mk.inj (h.symm.trans hrefused)
      obtain rfl := Except.error.inj he
      exact ⟨[], rest, hitems, rfl⟩
    · exact DevicePass.takeAll_error (htakes.symm.trans h)
  obtain ⟨records, rest, hitems, hy⟩ := hends
  have hstart : Underway x wanted [] { session := x } := ⟨.refl x, rfl, nofun⟩
  obtain ⟨hgains, hexceeds⟩ := hstart.takeMany records List.prefix_rfl
  refine ⟨records, rest, hitems, hy, hy ▸ hgains, ?_⟩
  constructor
  · -- one record that adds is enough, for nothing is taken back later
    intro hsame r hr hadds
    have hmore := hexceeds ⟨r, hr, hadds⟩
    rw [← hy] at hmore
    exact hmore.tables_ne hsame
  · intro hnothing
    have hidle : Idle x wanted [] { session := x } := ⟨rfl, rfl, rfl⟩
    rw [hy]
    exact hidle.takeMany records List.prefix_rfl hnothing

/-- A map of three records and an error: of a file with a row, of a file
without one, and of free space. -/
def brokenMap : DeviceMap :=
  let records := [⟨0, ⟨0⟩, 0, 5, 0, 4096⟩, ⟨0, ⟨0⟩, 4096, 77, 0, 4096⟩,
    ⟨0, .specialOwner, 8192, SpecialOwner.free.raw, 0, 4096⟩]
  ⟨.ask .lowest :: records.map .give ++ [.fail (.system (.code 5))], [false]⟩

/-- The error leaves what the three records have added. -/
theorem ingestDevice_failed_brokenMap :
    ∃ y, ingestDevice fewRows none brokenMap (fun _ => false)
        = (.error (.system (.code 5)), y) ∧
      ∃ (records : List DeviceRecord) (rest : _),
        brokenMap.trace.items
          = records.map .ok ++ .error (.system (.code 5)) :: rest ∧
        y = (DevicePass.takeMany { session := fewRows } none
          records).session ∧
        fewRows.Gains y ∧
        (y.store.tables = fewRows.store.tables ↔ ∀ r ∈ records,
          ¬ Adds fewRows none (numbered none records) r) :=
  ⟨_, rfl, ingestDevice_failed fewRows none brokenMap (fun _ => false)
    (.system (.code 5)) _ rfl⟩

/-- How a device refuses a request for more of its map. -/
def mapRefused : Error :=
  .ofRequest RequestCode.mapDeviceName (.code 22)

/-- A device that answers with a record of free space, and then refuses. -/
def cutMap : DeviceMap :=
  readScriptedDevice 1
    [{ rows := [⟨0, .specialOwner, 0, SpecialOwner.free.raw, 0, 4096⟩] },
      { failure := some (.code 22) }]

/-- What such a device makes a reader read: one record, and then the error of
the request that was refused. -/
theorem cutMap_eq :
    let r : DeviceRecord :=
      ⟨0, .specialOwner, 0, SpecialOwner.free.raw, 0, 4096⟩
    cutMap = ⟨[.ask .lowest, .give r, .ask r, .fail mapRefused], [true]⟩ := by
  decide +kernel

/-- A pass whose map is refused at the second answer leaves two rows, their
paths and an extent, and no entry that leads to them. -/
theorem failed_leaves_rows :
    mapRefused.isUnsupported = true ∧
    ∃ y, ingestDevice rooted none cutMap (fun _ => false)
        = (.error mapRefused, y) ∧
      y.store.tables ≠ rooted.store.tables ∧
      (rooted.inodeCount = 1 ∧ y.inodeCount = 3) ∧
      (rooted.extentCount = 0 ∧ y.extentCount = 1) ∧
      (rooted.lookupPath "/$metadata" = none ∧
        y.lookupPath "/$metadata" = some (-1)) ∧
      y.lookupPath "/$metadata/freespace" = some (-3) ∧
      y.named? 2 "$metadata" = none := by
  rw [cutMap_eq]
  refine ⟨rfl, _, rfl, ?_, ⟨rfl, rfl⟩, ⟨rfl, rfl⟩, ⟨rfl, ?_⟩, ?_, rfl⟩
  · decide
  · decide
  · decide

end Scan

end DiskAtlas

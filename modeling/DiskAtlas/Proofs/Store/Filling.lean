/-
What puts rows into a session. However much a scan does, the session sees
four things: names in a directory, an inode under a path, an extent that
is put in, and an extent that is left out. A session `Fills` another if
it comes from it by these, with as many extents offered as it says;
whatever all four keep, every scan keeps (`Fills.summary_eq`,
`Fills.keyed`). Paths are checked before an inode is put in under them
(`IsPathKey`), and so are extents before they are put in
(`Extent.Stored`). None of the four looks at anything but the tables, so
rows can be put into one store or another with the same result (`within`).
-/
import DiskAtlas.Store.Session
import DiskAtlas.Proofs.Store.Calculated

namespace DiskAtlas

-- ================================================================= flags

namespace Flags

theorem intersects_eq_false_iff {f g : Flags} :
    f.intersects g = false ↔ f.bits &&& g.bits = 0 := by
  simp [intersects]

/-- A word that shares no bit with a mask shares none with a part of it. -/
theorem intersects_of_containsAll {f g h : Flags}
    (hfg : f.intersects g = false) (hgh : g.containsAll h = true) :
    f.intersects h = false := by
  rw [intersects_eq_false_iff] at hfg ⊢
  rw [containsAll, beq_iff_eq] at hgh
  rw [← hgh, ← UInt32.and_assoc, hfg, UInt32.zero_and]

theorem without_intersects (f g : Flags) :
    (f.without g).intersects g = false := by
  rw [intersects_eq_false_iff, without, UInt32.and_assoc,
    UInt32.not_and_self, UInt32.and_zero]

theorem without_intersects_of {f h : Flags} (g : Flags)
    (hfh : f.intersects h = false) : (f.without g).intersects h = false := by
  rw [intersects_eq_false_iff] at hfh ⊢
  rw [without, UInt32.and_assoc, UInt32.and_comm (~~~ g.bits),
    ← UInt32.and_assoc, hfh, UInt32.zero_and]

/-- The flags that no row has. -/
def unstored : List Flags := [last, unknown, delalloc]

end Flags

-- ================================================================== rows

/-- A row that may be put in wherever it ends: nothing says that it is the
last one of its file or has no place yet, and metadata and free space have
no place in a file. -/
structure Extent.Settled (e : Extent) : Prop where
  flags : ∀ f ∈ Flags.unstored, e.flags.intersects f = false
  unplaced : e.kind = .metadata ∨ e.kind = .freeSpace → e.logical = none

/-- A row that is not empty and ends within the largest offset, on the
device and in its file. -/
structure Extent.Fits (e : Extent) : Prop where
  nonempty : 1 ≤ e.length.toNat
  physical : e.physical.toNat + e.length.toNat ≤ maxWord.toNat
  logical : ∀ start, e.logical = some start →
    start.toNat + e.length.toNat ≤ maxWord.toNat

/-- A row as it is put in. -/
structure Extent.Stored (e : Extent) : Prop extends e.Settled, e.Fits

/-- A path that may name an inode: none at all, or one that begins with
the separator and goes on. -/
def IsPathKey (separator : Char) (path : String) : Prop :=
  path = "" ∨ ∃ c rest, path.toList = separator :: c :: rest

namespace Session

variable {α β : Type} {x y z : Session β} {m n : Nat}

/-- The check of a path passes exactly the paths that may name an inode. -/
theorem pathError?_eq_none_iff {separator : Char} {path : String} :
    pathError? separator path = none ↔ IsPathKey separator path := by
  unfold pathError? IsPathKey
  rw [← String.toList_eq_nil_iff]
  rcases path.toList with - | ⟨c, rest⟩
  · simp
  · by_cases hc : c = separator
    · subst hc
      rcases rest with - | ⟨d, rest⟩
      · simp
      · simp
    · simp [hc]

/-- A record that has a place on the device makes a settled row. -/
theorem settled_extentOf {row : Inode} {raw : RawExtent} (isXattr : Bool)
    (h : raw.flags.intersects .uncommitted = false) :
    (extentOf row raw isXattr).Settled := by
  constructor
  · intro f hf
    show (raw.flags.without .last).intersects f = false
    simp only [Flags.unstored, List.mem_cons, List.not_mem_nil,
      or_false] at hf
    rcases hf with rfl | rfl | rfl
    · exact Flags.without_intersects _ _
    · have hunknown := Flags.intersects_of_containsAll (h := .unknown) h rfl
      exact Flags.without_intersects_of _ hunknown
    · have hdelalloc := Flags.intersects_of_containsAll (h := .delalloc) h rfl
      exact Flags.without_intersects_of _ hdelalloc
  · intro hkind
    simp only [extentOf] at hkind ⊢
    rcases hkind with hkind | hkind
    · rw [hkind]
    · rw [hkind]

/-- The check of an extent's end, written without a sum that could wrap. -/
theorem fits_eq_true_iff {length start : UInt64} :
    fits length start = true ↔
      start.toNat + length.toNat ≤ maxWord.toNat := by
  unfold fits checkedAdd
  split
  · next hle => simpa using hle
  · next hlt => simpa using hlt

/-- What is asked of a row before it is put in. -/
theorem fits_iff {e : Extent} :
    (e.length != 0 && fits e.length e.physical
        && e.logical.all (fits e.length)) = true ↔ e.Fits := by
  have hempty : (e.length != 0) = true ↔ 1 ≤ e.length.toNat := by
    rw [bne_iff_ne, ne_eq, ← UInt64.toNat_inj, UInt64.toNat_zero]
    omega
  have hlogical : e.logical.all (fits e.length) = true ↔
      ∀ start, e.logical = some start →
        start.toNat + e.length.toNat ≤ maxWord.toNat := by
    cases e.logical with
    | none => simp
    | some start => simp [fits_eq_true_iff]
  rw [Bool.and_eq_true, Bool.and_eq_true, hempty, fits_eq_true_iff,
    hlogical]
  exact ⟨fun h => ⟨h.1.1, h.1.2, h.2⟩,
    fun h => ⟨⟨h.nonempty, h.physical⟩, h.logical⟩⟩

/-- An extent that fits is put at the end of the table, and any other is
left out. -/
theorem pushExtent_cases (x : Session β) (e : Extent) :
    (e.Fits ∧ (x.pushExtent e).2 = x.withTables
        { x.store.tables with extents := x.store.tables.extents.push e }) ∨
      (¬ e.Fits ∧
        (x.pushExtent e).2 = { x with discarded := x.discarded + 1 }) := by
  unfold pushExtent
  split
  · next hfits => exact Or.inl ⟨fits_iff.1 hfits, rfl⟩
  · next hfits => exact Or.inr ⟨fun h => hfits (fits_iff.2 h), rfl⟩

-- =============================================================== filling

/-- The second session is the first with more put in, of which some
extents were offered. -/
inductive Fills : Session β → Nat → Session β → Prop where
  | refl (x : Session β) : Fills x 0 x
  | directory {x y : Session β} {n : Nat} (before : Fills x n y)
      (parent : Int64) (names : List (String × Int64)) :
      Fills x n (y.insertDirectory parent names)
  | inode {x y : Session β} {n : Nat} (before : Fills x n y) (row : Inode)
      {path : String} (good : IsPathKey y.separator path) :
      Fills x n (y.putInode row path)
  | push {x y : Session β} {n : Nat} (before : Fills x n y)
      {row : Extent} (stored : row.Stored) :
      Fills x (n + 1) (y.withTables
        { y.store.tables with extents := y.store.tables.extents.push row })
  | discard {x y : Session β} {n : Nat} (before : Fills x n y) :
      Fills x (n + 1) { y with discarded := y.discarded + 1 }

theorem Fills.trans (h : x.Fills n y) (h' : y.Fills m z) :
    x.Fills (n + m) z := by
  induction h' with
  | refl => exact h
  | directory _ parent names ih => exact ih.directory parent names
  | inode _ row good ih => exact ih.inode row good
  | push _ stored ih => exact ih.push stored
  | discard _ ih => exact ih.discard

/-- An inode offers no extent, and one under a path that may not name it
changes nothing. -/
theorem insertInode_fills (x : Session β) (row : Inode) (path : String) :
    x.Fills 0 (x.insertInode row path).2 := by
  unfold insertInode
  split
  · exact .refl x
  · next hgood =>
    exact (Fills.refl x).inode row (pathError?_eq_none_iff.1 hgood)

theorem ensureInode_fills (x : Session β) (ino : Int64) (kind : InodeKind)
    {path : String} (hgood : IsPathKey x.separator path) :
    x.Fills 0 (x.ensureInode ino kind path) := by
  unfold ensureInode
  split
  · exact .refl x
  · exact (Fills.refl x).inode _ hgood

/-- An extent that is settled is put in if it fits. -/
theorem pushExtent_fills (x : Session β) {row : Extent}
    (hsettled : row.Settled) : x.Fills 1 (x.pushExtent row).2 := by
  obtain ⟨hfits, h⟩ | ⟨-, h⟩ := x.pushExtent_cases row
  · rw [h]
    exact (Fills.refl x).push ⟨hsettled, hfits⟩
  · rw [h]
    exact (Fills.refl x).discard

/-- An extent is offered once. It is put in or left out, and the session counts
which. -/
theorem insertExtent_fills (x : Session β) (row : Inode) (raw : RawExtent)
    (isXattr : Bool) : x.Fills 1 (x.insertExtent row raw isXattr).2 := by
  unfold insertExtent
  split
  · exact (Fills.refl x).discard
  · next hplaced =>
    have hplaced := Bool.eq_false_iff.2 hplaced
    exact x.pushExtent_fills (settled_extentOf isXattr hplaced)

-- ================================================================= keeping

/-- Filling changes the tables and nothing else of the store. -/
theorem Fills.store_eq (h : x.Fills n y) :
    y.store = { x.store with tables := y.store.tables } := by
  have hset : ∀ (y : Session β) (t : Tables),
      y.store = { x.store with tables := y.store.tables } →
      (y.withTables t).store = { x.store with tables := t } := by
    intro y t hy
    rw [withTables, hy]
  induction h with
  | refl => rfl
  | @directory y n _ parent names ih =>
    exact hset y _ ih
  | @inode y n _ row path _ ih => exact hset y _ ih
  | @push y n _ row _ ih => exact hset y _ ih
  | discard _ ih => exact ih

/-- Filling leaves the facts of the scan alone. -/
theorem Fills.summary_eq (h : x.Fills n y) :
    y.store.tables.summary = x.store.tables.summary := by
  induction h with
  | refl => rfl
  | directory _ parent names ih => exact ih
  | inode _ row _ ih => exact ih
  | push _ _ ih => exact ih
  | discard _ ih => exact ih

/-- Filling a session keeps its facts, so a scan that is not finished stays so.
-/
theorem Fills.unfinished (h : x.Fills n y)
    (hx : x.store.tables.Unfinished) :
    y.store.tables.Unfinished := by
  obtain ⟨summary, hsummary, hnot⟩ := hx
  exact ⟨summary, h.summary_eq.trans hsummary, hnot⟩

/-- An inode is put in under its own number. -/
theorem Fills.keyed (h : x.Fills n y) (hx : x.store.tables.Keyed) :
    y.store.tables.Keyed := by
  induction h with
  | refl => exact hx
  | directory _ parent names ih => exact ih
  | @inode y n _ row path _ ih =>
    intro ino found hfound
    replace hfound : (y.store.tables.inodes.insert row.ino row).get? ino
        = some found := hfound
    by_cases hino : row.ino = ino
    · subst hino
      rw [SortedMap.get?_insert_self] at hfound
      rw [Option.some_inj.1 hfound]
    · rw [SortedMap.get?_insert_of_ne _ _ hino] at hfound
      exact ih ino found hfound
  | push _ _ ih => exact ih
  | discard _ ih => exact ih

-- ============================================================ same names

/-- Two sessions that differ at most in their extents, and in how many were
left out. -/
def SameNames (x y : Session β) : Prop :=
  y.store = { x.store with
    tables := { x.store.tables with extents := y.store.tables.extents } }

theorem SameNames.refl (x : Session β) : x.SameNames x := rfl

theorem SameNames.trans (h : x.SameNames y) (h' : y.SameNames z) :
    x.SameNames z := by
  unfold SameNames at *
  rw [h', h]

theorem insertExtent_sameNames (row : Inode) (raw : RawExtent)
    (isXattr : Bool) : x.SameNames (x.insertExtent row raw isXattr).2 := by
  unfold insertExtent
  split
  · rfl
  · obtain ⟨-, h⟩ | ⟨-, h⟩ := x.pushExtent_cases (extentOf row raw isXattr)
    · rw [h]
      rfl
    · rw [h]
      rfl

-- ============================================================= elsewhere

/-- The same rows, and extents left out, in another store. -/
def within (x : Session α) (s : Store β) : Session β :=
  { store := { s with tables := x.store.tables }, discarded := x.discarded }

/-- A session has the rows of another if the tables, and the extents left
out, are the same. -/
theorem eq_within_iff {x : Session α} {y : Session β} :
    y = x.within y.store ↔
      y.store.tables = x.store.tables ∧ y.discarded = x.discarded := by
  constructor
  · intro h
    exact ⟨congrArg (·.store.tables) h, congrArg (·.discarded) h⟩
  · rintro ⟨htables, hdiscarded⟩
    rw [within, ← htables, ← hdiscarded]

variable {x : Session α} {s : Store β}

/-- The lemmas from here on move what fills a session from one store to
another. -/
theorem within_insertInode (row : Inode) (path : String) :
    (x.within s).insertInode row path
      = ((x.insertInode row path).1, (x.insertInode row path).2.within s) := by
  have hseparator : (x.within s).separator = x.separator := rfl
  rw [insertInode, insertInode, hseparator]
  cases pathError? x.separator path <;> rfl

theorem within_ensureInode (ino : Int64) (kind : InodeKind)
    (path : String) :
    (x.within s).ensureInode ino kind path
      = (x.ensureInode ino kind path).within s := by
  unfold ensureInode
  show (if x.containsInode ino then _ else _) = _
  split <;> rfl

theorem within_pushExtent (e : Extent) :
    ((x.within s).pushExtent e).2 = (x.pushExtent e).2.within s := by
  unfold pushExtent
  split <;> rfl

theorem within_insertExtent (row : Inode) (raw : RawExtent)
    (isXattr : Bool) :
    ((x.within s).insertExtent row raw isXattr).2
      = (x.insertExtent row raw isXattr).2.within s := by
  unfold insertExtent
  split
  · rfl
  · exact within_pushExtent _

end Session

end DiskAtlas

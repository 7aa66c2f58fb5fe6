/-
What becomes of the records of a device map. A record has exactly one fate,
and it is settled before the pass over the map begins: it depends on the
record, on the rows that the session has by then, and on the order in which
special owners appear, which gives them their numbers (`Due`).

`Due` looks at the record, at the rows from before the pass and at the owners
that have been met, and never at the pass itself. That the pass comes to the
same fate is shown record by record, where what it has added so far is known
(`Settled`).
-/
import DiskAtlas.Proofs.Scan.Guests

namespace DiskAtlas.Scan

open Mapping

variable {β : Type}

-- =============================================================== records

/-- Is a record about another device than the one that is wanted? -/
def IsForeign (wanted : Option UInt32) (r : DeviceRecord) : Prop :=
  ∃ device, wanted = some device ∧ device ≠ r.device

theorem any_ne_iff {wanted : Option UInt32} {r : DeviceRecord} :
    wanted.any (· != r.device) = true ↔ IsForeign wanted r := by
  cases wanted <;> simp [IsForeign]

instance decidableIsForeign (wanted : Option UInt32) :
    DecidablePred (IsForeign wanted) := fun _ =>
  decidable_of_iff _ any_ne_iff

/-- The special owner that a record of the device names. -/
def specialOn (wanted : Option UInt32) (r : DeviceRecord) :
    Option SpecialOwner :=
  if IsForeign wanted r then none
  else
    match r.owner with
    | .special o => some o
    | .inode _ => none

/-- The special owners of the device, by their first appearance. -/
def occurred (wanted : Option UInt32) (records : List DeviceRecord) :
    List SpecialOwner :=
  (records.filterMap (specialOn wanted)).eraseDups

/-- Those of them that have no number of their own. -/
def numbered (wanted : Option UInt32) (records : List DeviceRecord) :
    List SpecialOwner :=
  (occurred wanted records).filter fun o => o ≠ .free ∧ o ≠ .metadata

/-- The inode that a record of the device names, if it has no row. -/
def namelessOn (x : Session β) (wanted : Option UInt32)
    (r : DeviceRecord) : Option Int64 :=
  if IsForeign wanted r then none
  else
    match r.owner with
    | .special _ => none
    | .inode raw =>
      (DevicePass.rowNumber raw).filter fun ino => !x.containsInode ino

/-- The inodes of the device that have no row, by their first
appearance. -/
def nameless (x : Session β) (wanted : Option UInt32)
    (records : List DeviceRecord) : List Int64 :=
  (records.filterMap (namelessOn x wanted)).eraseDups

/-- The row for a record. -/
def rowFor (r : DeviceRecord) (ino : Int64) (kind : ExtentKind)
    (logical : Option UInt64) : Extent :=
  ⟨ino, r.physical, logical, r.length, DevicePass.extentFlags r.flags, kind⟩

/-- What a record offers to a session when the pass over the device began
with `x` and these special owners are numbered. -/
inductive Due (x : Session β) (wanted : Option UInt32)
    (met : List SpecialOwner) (r : DeviceRecord) : Option Extent → Prop where
  /-- Records of other devices are dropped. -/
  | foreign (there : IsForeign wanted r) : Due x wanted met r none
  | unnumbered {raw : UInt64} (here : ¬ IsForeign wanted r)
      (owner : r.owner = .inode raw) (large : 0x8000000000000000 ≤ raw.toNat) :
      Due x wanted met r none
  | known {raw : UInt64} {ino : Int64} (here : ¬ IsForeign wanted r)
      (owner : r.owner = .inode raw) (number : ino.toInt = raw.toNat)
      (content : r.flags.containsAll .extentMap = false)
      (row : x.containsInode ino = true) : Due x wanted met r none
  | free (here : ¬ IsForeign wanted r) (owner : r.owner = .special .free) :
      Due x wanted met r (some (rowFor r (-3) .freeSpace none))
  | metadata (here : ¬ IsForeign wanted r)
      (owner : r.owner = .special .metadata) :
      Due x wanted met r (some (rowFor r (-2) .metadata none))
  | special {o : SpecialOwner} {ino : Int64} (here : ¬ IsForeign wanted r)
      (owner : r.owner = .special o) (other : o ≠ .free ∧ o ≠ .metadata)
      (number : ino.toInt = -5 - met.idxOf o) :
      Due x wanted met r (some (rowFor r ino .metadata none))
  | extentMap {raw : UInt64} {ino : Int64} (here : ¬ IsForeign wanted r)
      (owner : r.owner = .inode raw) (number : ino.toInt = raw.toNat)
      (map : r.flags.containsAll .extentMap = true) :
      Due x wanted met r (some (rowFor r ino .extentMap none))
  | file {raw : UInt64} {ino : Int64} (here : ¬ IsForeign wanted r)
      (owner : r.owner = .inode raw) (number : ino.toInt = raw.toNat)
      (content : r.flags.containsAll .extentMap = false)
      (new : x.containsInode ino = false)
      (data : r.flags.containsAll .attrFork = false) :
      Due x wanted met r (some (rowFor r ino .file (some r.offset)))
  | attributes {raw : UInt64} {ino : Int64} (here : ¬ IsForeign wanted r)
      (owner : r.owner = .inode raw) (number : ino.toInt = raw.toNat)
      (content : r.flags.containsAll .extentMap = false)
      (new : x.containsInode ino = false)
      (fork : r.flags.containsAll .attrFork = true) :
      Due x wanted met r (some (rowFor r ino .xattr (some r.offset)))

section Records

variable {x : Session β} {wanted : Option UInt32}
  {records : List DeviceRecord} {r : DeviceRecord}

theorem specialOn_eq_some_iff {o : SpecialOwner} :
    specialOn wanted r = some o ↔
      ¬ IsForeign wanted r ∧ r.owner = .special o := by
  unfold specialOn
  split
  · next there => simp [there]
  · next here => cases r.owner <;> simp [here]

-- =============================================================== numbers

/-- The number of a row is the number that the record names. -/
theorem rowNumber_eq_some_iff {raw : UInt64} {ino : Int64} :
    DevicePass.rowNumber raw = some ino ↔ ino.toInt = raw.toNat := by
  have hword : (0x8000000000000000 : UInt64).toNat = 0x8000000000000000 := rfl
  unfold DevicePass.rowNumber
  split
  · next hsmall =>
    rw [UInt64.lt_iff_toNat_lt, hword] at hsmall
    have hint : raw.toInt64.toInt = raw.toNat :=
      BitVec.toInt_eq_toNat_of_lt (x := raw.toBitVec) (by
        rw [UInt64.toNat_toBitVec]
        omega)
    rw [Option.some_inj, ← Int64.toInt_inj, hint]
    exact eq_comm
  · next hlarge =>
    rw [UInt64.lt_iff_toNat_lt, hword] at hlarge
    have hlt := ino.toInt_lt
    exact ⟨nofun, fun h => by omega⟩

/-- No row has a number from `2 ^ 63` on, since rows are numbered by signed
words. -/
theorem rowNumber_eq_none_iff {raw : UInt64} :
    DevicePass.rowNumber raw = none ↔
      0x8000000000000000 ≤ raw.toNat := by
  have hword : (0x8000000000000000 : UInt64).toNat = 0x8000000000000000 := rfl
  unfold DevicePass.rowNumber
  split
  · next hsmall =>
    rw [UInt64.lt_iff_toNat_lt, hword] at hsmall
    exact ⟨nofun, fun hlarge => by omega⟩
  · next hlarge =>
    rw [UInt64.lt_iff_toNat_lt, hword] at hlarge
    exact ⟨fun _ => Nat.not_lt.1 hlarge, fun _ => rfl⟩

theorem specialOn_of_foreign (there : IsForeign wanted r) :
    specialOn wanted r = none := by
  rw [specialOn, if_pos there]

theorem specialOn_of_inode (wanted : Option UInt32) {raw : UInt64}
    (owner : r.owner = .inode raw) : specialOn wanted r = none := by
  apply Option.eq_none_iff_forall_ne_some.2
  intro o ho
  have howner := (specialOn_eq_some_iff.1 ho).2
  rw [owner] at howner
  cases howner

/-- A record names an inode without a row if it is one of the device, its owner
is a number a row can have, and no row has it. -/
theorem namelessOn_eq_some_iff {ino : Int64} :
    namelessOn x wanted r = some ino ↔ ¬ IsForeign wanted r ∧
      ∃ raw, r.owner = .inode raw ∧ ino.toInt = raw.toNat ∧
        x.containsInode ino = false := by
  unfold namelessOn
  split
  · next there => simp [there]
  · next here =>
    cases howner : r.owner with
    | special o => simp
    | inode raw =>
      simp [Option.filter_eq_some_iff, rowNumber_eq_some_iff, here]

theorem mem_numbered {o : SpecialOwner} (hr : r ∈ records)
    (h : specialOn wanted r = some o) (hother : o ≠ .free ∧ o ≠ .metadata) :
    o ∈ numbered wanted records := by
  refine List.mem_filter.2 ⟨?_, by simpa using hother⟩
  exact List.mem_eraseDups.2 (List.mem_filterMap.2 ⟨r, hr, h⟩)

end Records

-- ================================================================= fates

namespace DevicePass

variable {wanted : Option UInt32} {r : DeviceRecord}

/-- The four lemmas from here on settle a record's fate by what it says, one
for each way in which `fate` branches. -/
theorem fate_of_foreign (p : DevicePass β) (there : IsForeign wanted r) :
    p.fate wanted r = .foreign := by
  rw [fate, if_pos (any_ne_iff.2 there)]

theorem fate_of_special (p : DevicePass β) {o : SpecialOwner}
    (here : ¬ IsForeign wanted r) (owner : r.owner = .special o) :
    p.fate wanted r = .hidden (.ofSpecial o) := by
  rw [fate, if_neg fun there => here (any_ne_iff.1 there), owner]

theorem fate_of_large (p : DevicePass β) {raw : UInt64}
    (here : ¬ IsForeign wanted r) (owner : r.owner = .inode raw)
    (large : 0x8000000000000000 ≤ raw.toNat) :
    p.fate wanted r = .unnumbered := by
  rw [fate, if_neg fun there => here (any_ne_iff.1 there), owner]
  dsimp only
  rw [rowNumber_eq_none_iff.2 large]

/-- A record of an inode is a copy of what the walk has found if the inode has
a name; otherwise it is new. -/
theorem fate_of_inode (p : DevicePass β) {raw : UInt64} {ino : Int64}
    (here : ¬ IsForeign wanted r) (owner : r.owner = .inode raw)
    (number : ino.toInt = raw.toNat) :
    p.fate wanted r =
      if r.flags.containsAll .extentMap then .extentMap ino
      else if p.isNamed ino then .known
      else .content ino := by
  rw [fate, if_neg fun there => here (any_ne_iff.1 there), owner]
  dsimp only
  rw [rowNumber_eq_some_iff.2 number]

/-- A pass that takes a record becomes one of these. -/
inductive Takes (p : DevicePass β) (wanted : Option UInt32)
    (r : DeviceRecord) : DevicePass β → Prop where
  | foreign (there : IsForeign wanted r) :
      Takes p wanted r { p with foreign := p.foreign + 1 }
  | unnumbered {raw : UInt64} (here : ¬ IsForeign wanted r)
      (owner : r.owner = .inode raw)
      (large : 0x8000000000000000 ≤ raw.toNat) :
      Takes p wanted r { p with records := p.records + 1 }
  | hidden {o : SpecialOwner} (here : ¬ IsForeign wanted r)
      (owner : r.owner = .special o) :
      Takes p wanted r
        (takeHidden { p with records := p.records + 1 } r (.ofSpecial o))
  | extentMap {raw : UInt64} {ino : Int64} (here : ¬ IsForeign wanted r)
      (owner : r.owner = .inode raw) (number : ino.toInt = raw.toNat)
      (map : r.flags.containsAll .extentMap = true) :
      Takes p wanted r
        (takeExtentMap { p with records := p.records + 1 } r ino)
  | known {raw : UInt64} {ino : Int64} (here : ¬ IsForeign wanted r)
      (owner : r.owner = .inode raw) (number : ino.toInt = raw.toNat)
      (content : ¬ r.flags.containsAll .extentMap = true)
      (named : p.isNamed ino = true) :
      Takes p wanted r { p with records := p.records + 1 }
  | content {raw : UInt64} {ino : Int64} (here : ¬ IsForeign wanted r)
      (owner : r.owner = .inode raw) (number : ino.toInt = raw.toNat)
      (content : ¬ r.flags.containsAll .extentMap = true)
      (nameless : ¬ p.isNamed ino = true) :
      Takes p wanted r
        (takeContent { p with records := p.records + 1 } r ino)

/-- Taking a record is one of the cases of `Takes`, and every lemma about a
pass goes through these cases. -/
theorem takes_take (p : DevicePass β) (wanted : Option UInt32)
    (r : DeviceRecord) : p.Takes wanted r (p.take wanted r) := by
  unfold take
  by_cases there : IsForeign wanted r
  · rw [p.fate_of_foreign there]
    exact .foreign there
  cases owner : r.owner with
  | special o =>
    rw [p.fate_of_special there owner]
    exact .hidden there owner
  | inode raw =>
    cases hnumber : rowNumber raw with
    | none =>
      have large := rowNumber_eq_none_iff.1 hnumber
      rw [p.fate_of_large there owner large]
      exact .unnumbered there owner large
    | some ino =>
      have number := rowNumber_eq_some_iff.1 hnumber
      rw [p.fate_of_inode there owner number]
      by_cases map : r.flags.containsAll .extentMap = true
      · rw [if_pos map]
        exact .extentMap there owner number map
      · rw [if_neg map]
        by_cases named : p.isNamed ino = true
        · rw [if_pos named]
          exact .known there owner number map named
        · rw [if_neg named]
          exact .content there owner number map named

end DevicePass

namespace Due

variable {x : Session β} {wanted : Option UInt32} {met : List SpecialOwner}
  {r : DeviceRecord} {share share' : Option Extent}

/-- The fates ask for different things of a record. -/
theorem unique (h : Due x wanted met r share)
    (h' : Due x wanted met r share') : share = share' := by
  have hown : SpecialOwner.free ≠ .metadata := by decide
  have hsame : ∀ i j : Int64, i.toInt = j.toInt → i = j :=
    fun _ _ => Int64.toInt_inj.1
  have hsmall : ∀ i : Int64, i.toInt < 2 ^ 63 := Int64.toInt_lt
  cases h <;> cases h' <;> grind

/-- A record has exactly one fate. -/
theorem exists_unique (x : Session β) (hmet : Guest.Numbered met)
    (hmem : ∀ o, specialOn wanted r = some o →
      o ≠ .free ∧ o ≠ .metadata → o ∈ met) :
    ∃! share, Due x wanted met r share := by
  suffices hshare : ∃ share, Due x wanted met r share by
    obtain ⟨share, h⟩ := hshare
    exact ⟨share, h, fun share' h' => h'.unique h⟩
  -- in the order in which a pass tells the cases apart
  by_cases there : IsForeign wanted r
  · exact ⟨_, .foreign there⟩
  cases owner : r.owner with
  | special o =>
    by_cases hfree : o = .free
    · exact ⟨_, .free there (hfree ▸ owner)⟩
    by_cases hmetadata : o = .metadata
    · exact ⟨_, .metadata there (hmetadata ▸ owner)⟩
    have hplace := List.idxOf_lt_length_of_mem
      (hmem o (specialOn_eq_some_iff.2 ⟨there, owner⟩) ⟨hfree, hmetadata⟩)
    unfold Guest.Numbered at hmet
    exact ⟨_, .special there owner ⟨hfree, hmetadata⟩
      (Guest.toInt_numberAt (by omega))⟩
  | inode raw =>
    cases hrow : DevicePass.rowNumber raw with
    | none =>
      exact ⟨_, .unnumbered there owner (rowNumber_eq_none_iff.1 hrow)⟩
    | some ino =>
      have number := rowNumber_eq_some_iff.1 hrow
      by_cases map : r.flags.containsAll .extentMap = true
      · exact ⟨_, .extentMap there owner number map⟩
      have content := Bool.eq_false_iff.2 map
      by_cases row : x.containsInode ino = true
      · exact ⟨_, .known there owner number content row⟩
      have new := Bool.eq_false_iff.2 row
      by_cases fork : r.flags.containsAll .attrFork = true
      · exact ⟨_, .attributes there owner number content new fork⟩
      · exact ⟨_, .file there owner number content new
          (Bool.eq_false_iff.2 fork)⟩

end Due

end DiskAtlas.Scan

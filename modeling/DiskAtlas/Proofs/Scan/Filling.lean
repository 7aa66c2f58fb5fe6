/-
The pass over a device fills its session, whatever the map says and
however the pass ends, and offers it an extent for every record that it
meets and that is neither about another device nor known already
(`ingestDevice_fills`). It reads the tables of the session and nothing
else, so it puts the same rows into any store (`within_ingestDevice`).

Both are shown step by step along the pass, from the row of an owner up to the
whole map. The steps are the same for every property that filling keeps, which
is why they are here and not with any one of these.
-/
import DiskAtlas.Scan.FreeSpace
import DiskAtlas.Proofs.Store.Filling

namespace DiskAtlas.Scan

open Mapping

variable {α β : Type}

-- ================================================================= paths

/-- The path of some names is one that may name an inode. -/
theorem isPathKey_rootedPath (separator : Char) {name : String}
    (hname : name ≠ "") (rest : List String) :
    IsPathKey separator (rootedPath separator (name :: rest)) := by
  obtain ⟨c, more, hmore⟩ : ∃ c more, name.toList = c :: more := by
    rcases hlist : name.toList with - | ⟨c, more⟩
    · exact absurd (String.toList_eq_nil_iff.1 hlist) hname
    · exact ⟨c, more, rfl⟩
  right
  refine ⟨c, more ++ (rootedPath separator rest).toList, ?_⟩
  simp [rootedPath, hmore]

theorem HiddenOwner.isPathKey_path (separator : Char)
    (owner : HiddenOwner) : IsPathKey separator (owner.path separator) := by
  cases owner with
  | root => exact isPathKey_rootedPath separator (by decide) []
  | metadata | freeSpace | unlinked | special =>
    exact isPathKey_rootedPath separator (by decide) _

theorem HiddenOwner.isPathKey_unlinkedPath (separator : Char)
    (ino : Int64) : IsPathKey separator (unlinkedPath separator ino) :=
  isPathKey_rootedPath separator (by decide) _

-- =============================================================== offers

namespace DevicePass

/-- How many extents a record offers. -/
def offers (p : DevicePass β) (wanted : Option UInt32) (r : DeviceRecord) :
    Nat :=
  match p.fate wanted r with
  | .foreign | .unnumbered | .known => 0
  | .hidden _ | .extentMap _ | .content _ => 1

/-- How many extents the records of a map offer until the pass ends. -/
def offersAll (wanted : Option UInt32) (calledOff : Nat → Bool) :
    (row : Nat) → List (Except Error DeviceRecord) → DevicePass β → Nat
  | _, [], _ => 0
  | row, item :: rest, p =>
    if calledOff row then 0
    else
      match item with
      | .error _ => 0
      | .ok r =>
        p.offers wanted r
          + offersAll wanted calledOff (row + 1) rest (p.take wanted r)

end DevicePass

/-- How many extents a pass over a device offers. -/
def deviceOffers (x : Session β) (device : Option UInt64) (map : DeviceMap)
    (calledOff : Nat → Bool) : Nat :=
  match map.trace.refusal? with
  | some _ => 0
  | none =>
    let wanted :=
      if map.firstEncoded then device.map encodeDevice else none
    DevicePass.offersAll wanted calledOff 0 map.trace.items { session := x }

namespace DevicePass

-- ================================================================ filling

theorem addOwner_fills (p : DevicePass β) (owner : HiddenOwner)
    (ino : Int64) (directory : Option Int64) :
    p.session.Fills 0 (p.addOwner owner ino directory).session :=
  Session.ensureInode_fills _ _ _ (owner.isPathKey_path _)

theorem attachRoot_fills (p : DevicePass β) :
    p.session.Fills 0 p.attachRoot.2.session := by
  unfold attachRoot
  dsimp only
  split
  · exact .refl _
  · exact addOwner_fills _ _ _ _

theorem attach_fills (p : DevicePass β) (owner : HiddenOwner) :
    p.session.Fills 0 (p.attach owner).2.session := by
  unfold attach
  dsimp only
  split
  · exact .refl _
  · split
    · exact attachRoot_fills { p with numbers := (p.numbers.number owner).2 }
    · exact (attachRoot_fills
        { p with numbers := (p.numbers.number owner).2 }).trans
          (addOwner_fills _ _ _ _)

theorem attachUnlinked_fills (p : DevicePass β) (ino : Int64) :
    p.session.Fills 0 (p.attachUnlinked ino).session := by
  unfold attachUnlinked
  split
  · exact .refl _
  · have hattach := attach_fills { p with unlinked := p.unlinked ++ [ino] }
      .unlinked
    refine hattach.trans (Session.ensureInode_fills _ _ _ ?_)
    exact HiddenOwner.isPathKey_unlinkedPath _ ino

theorem extentFlags_unstored (flags : DeviceFlags) :
    ∀ f ∈ Flags.unstored, (extentFlags flags).intersects f = false := by
  unfold extentFlags
  split <;> split <;> decide

/-- A pass offers one extent for a record, with a place in the file only if it
is one of a file's own. -/
theorem push_fills (p : DevicePass β) (r : DeviceRecord) (ino : Int64)
    {kind : ExtentKind} {logical : Option UInt64}
    (hunplaced : kind = .metadata ∨ kind = .freeSpace → logical = none) :
    p.session.Fills 1 (p.push r ino kind logical).session := by
  have hsettled : Extent.Settled ⟨ino, r.physical, logical, r.length,
      extentFlags r.flags, kind⟩ := ⟨extentFlags_unstored r.flags, hunplaced⟩
  exact p.session.pushExtent_fills hsettled

/-- Taking a record fills the session. -/
theorem take_fills (p : DevicePass β) (wanted : Option UInt32)
    (r : DeviceRecord) :
    p.session.Fills (p.offers wanted r) (p.take wanted r).session := by
  unfold take offers
  dsimp only
  cases p.fate wanted r with
  | foreign => exact .refl _
  | unnumbered => exact .refl _
  | known => exact .refl _
  | hidden owner =>
    have hattach := attach_fills { p with records := p.records + 1 } owner
    exact hattach.trans (push_fills _ r _ fun _ => rfl)
  | extentMap ino =>
    show p.session.Fills 1 (takeExtentMap _ r ino).session
    unfold takeExtentMap
    dsimp only
    split
    · exact push_fills _ r ino fun _ => rfl
    · have hattach := attachUnlinked_fills
        { p with records := p.records + 1 } ino
      exact hattach.trans (push_fills _ r ino fun _ => rfl)
  | content ino =>
    have hattach := attachUnlinked_fills
      { p with records := p.records + 1 } ino
    refine hattach.trans (push_fills _ r ino ?_)
    split <;> rintro (hkind | hkind) <;> cases hkind

/-- Names are put in one after the other. -/
theorem withNames_fills (p : DevicePass β) :
    p.session.Fills 0 p.withNames := by
  unfold withNames
  generalize p.session = x
  induction p.names generalizing x with
  | nil => exact .refl x
  | cons entry rest ih =>
    have hrest := ((Session.Fills.refl x).directory entry.1
      [(entry.2.1, entry.2.2)]).trans (ih _)
    rwa [Nat.zero_add] at hrest

/-- A pass goes on from record to record until it is called off or the map
fails. -/
theorem takeAll_cons (wanted : Option UInt32) (calledOff : Nat → Bool)
    (row : Nat) (item : Except Error DeviceRecord)
    (rest : List (Except Error DeviceRecord)) (p : DevicePass β) :
    takeAll wanted calledOff row (item :: rest) p =
      if calledOff row then (.ok none, p.session)
      else
        match item with
        | .error e => (.error e, p.session)
        | .ok r =>
          takeAll wanted calledOff (row + 1) rest (p.take wanted r) := by
  cases item <;> rfl

/-- A pass takes several records. -/
def takeMany (p : DevicePass β) (wanted : Option UInt32)
    (records : List DeviceRecord) : DevicePass β :=
  records.foldl (fun p r => p.take wanted r) p

/-- Records without errors are taken to the end. -/
theorem takeAll_records {wanted : Option UInt32} {calledOff : Nat → Bool}
    {row : Nat} {records : List DeviceRecord}
    (hon : ∀ i, row ≤ i → i < row + records.length → calledOff i = false)
    (p : DevicePass β) :
    takeAll wanted calledOff row (records.map .ok) p
      = (.ok (some (p.takeMany wanted records).report),
        (p.takeMany wanted records).withNames) := by
  induction records generalizing row p with
  | nil => rfl
  | cons r rest ih =>
    have hgoes : calledOff row = false := hon row (Nat.le_refl _) (by simp)
    rw [List.map_cons, takeAll_cons, hgoes]
    refine ih (fun i hle hlt => hon i (by omega) ?_) (p.take wanted r)
    rw [List.length_cons]
    omega

/-- A pass fills the session, wherever it stops. -/
theorem takeAll_fills (wanted : Option UInt32) (calledOff : Nat → Bool)
    (row : Nat) (items : List (Except Error DeviceRecord))
    (p : DevicePass β) :
    p.session.Fills (offersAll wanted calledOff row items p)
      (takeAll wanted calledOff row items p).2 := by
  induction items generalizing row p with
  | nil => exact withNames_fills p
  | cons item rest ih =>
    rw [takeAll_cons]
    unfold offersAll
    split
    · exact .refl _
    · cases item with
      | error e => exact .refl _
      | ok r => exact (take_fills p wanted r).trans (ih _ _)

end DevicePass

/-- From the records to the whole pass: it fills the session with as many
offers as its records make. -/
theorem ingestDevice_fills (x : Session β) (device : Option UInt64)
    (map : DeviceMap) (calledOff : Nat → Bool) :
    x.Fills (deviceOffers x device map calledOff)
      (ingestDevice x device map calledOff).2 := by
  unfold deviceOffers ingestDevice
  cases map.trace.refusal? with
  | some e => exact .refl x
  | none => exact DevicePass.takeAll_fills _ _ _ _ { session := x }

-- ============================================================= elsewhere

namespace DevicePass

/-- The same pass on the rows of another store. -/
def within (p : DevicePass α) (s : Store β) : DevicePass β :=
  { session := p.session.within s
    numbers := p.numbers
    unlinked := p.unlinked
    names := p.names
    records := p.records
    foreign := p.foreign
    freeBytes := p.freeBytes
    extentMapRecords := p.extentMapRecords }

variable (p : DevicePass α) (s : Store β)

/-- The lemmas from here on move a step of a pass from one store to another. A
step looks at the rows and paths of the session, which `within` keeps. -/
theorem within_addOwner (owner : HiddenOwner) (ino : Int64)
    (directory : Option Int64) :
    (p.within s).addOwner owner ino directory
      = (p.addOwner owner ino directory).within s := by
  unfold addOwner
  show DevicePass.mk ((p.session.within s).ensureInode _ _ _) _ _ _ _ _ _ _ = _
  rw [Session.within_ensureInode]
  rfl

/-- The directory of the hidden owners is put in once. -/
theorem attachRoot_eq (p : DevicePass β) :
    p.attachRoot =
      if p.session.containsInode (-1) then (-1, p)
      else (-1, p.addOwner .root (-1) (p.session.lookupPath "")) := by
  rfl

theorem within_attachRoot :
    (p.within s).attachRoot = (p.attachRoot.1, p.attachRoot.2.within s) := by
  have hleft : (p.within s).attachRoot =
      if p.session.containsInode (-1) then (-1, p.within s)
      else (-1, (p.within s).addOwner .root (-1) (p.session.lookupPath "")) :=
    attachRoot_eq (p.within s)
  rw [hleft, attachRoot_eq p, within_addOwner]
  split
  · rfl
  · rfl

/-- Where an owner goes, by what is there already. -/
theorem attach_eq (p : DevicePass β) (owner : HiddenOwner) :
    p.attach owner =
      let ino := (p.numbers.number owner).1
      let q := { p with numbers := (p.numbers.number owner).2 }
      if q.session.containsInode ino then (ino, q)
      else if owner = .root then q.attachRoot
      else
        (ino, q.attachRoot.2.addOwner owner ino (some q.attachRoot.1)) := by
  rfl

/-- An owner is looked for by its number before it is put in; the number comes
from the pass and not from the store. -/
theorem within_attach (owner : HiddenOwner) :
    (p.within s).attach owner
      = ((p.attach owner).1, (p.attach owner).2.within s) := by
  let ino := (p.numbers.number owner).1
  let q := { p with numbers := (p.numbers.number owner).2 }
  have hleft : (p.within s).attach owner =
      if q.session.containsInode ino then (ino, q.within s)
      else if owner = .root then (q.within s).attachRoot
      else (ino, (q.within s).attachRoot.2.addOwner owner ino
        (some (q.within s).attachRoot.1)) := attach_eq (p.within s) owner
  have hright : p.attach owner =
      if q.session.containsInode ino then (ino, q)
      else if owner = .root then q.attachRoot
      else (ino, q.attachRoot.2.addOwner owner ino
        (some q.attachRoot.1)) := attach_eq p owner
  rw [hleft, hright, within_attachRoot, within_addOwner]
  split
  · rfl
  · split
    · rfl
    · rfl

/-- A file without a name is put in once, in its own directory. -/
theorem attachUnlinked_eq (p : DevicePass β) (ino : Int64) :
    p.attachUnlinked ino =
      if p.unlinked.contains ino then p
      else
        let a := { p with unlinked := p.unlinked ++ [ino] }.attach .unlinked
        let path := HiddenOwner.unlinkedPath a.2.session.separator ino
        { a.2 with
          session := a.2.session.ensureInode ino .file path
          names := a.2.names ++ [(a.1, toString ino.toInt, ino)] } := by
  rfl

theorem within_attachUnlinked (ino : Int64) :
    (p.within s).attachUnlinked ino = (p.attachUnlinked ino).within s := by
  let a := { p with unlinked := p.unlinked ++ [ino] }.attach .unlinked
  have hattach := within_attach { p with unlinked := p.unlinked ++ [ino] } s
    .unlinked
  have hleft : (p.within s).attachUnlinked ino =
      if p.unlinked.contains ino then p.within s
      else
        let b := ({ p with unlinked := p.unlinked ++ [ino] }.within s).attach
          .unlinked
        let path := HiddenOwner.unlinkedPath b.2.session.separator ino
        { b.2 with
          session := b.2.session.ensureInode ino .file path
          names := b.2.names ++ [(b.1, toString ino.toInt, ino)] } :=
    attachUnlinked_eq (p.within s) ino
  rw [hleft, attachUnlinked_eq, hattach]
  split
  · rfl
  · have hensure : (a.2.within s).session.ensureInode ino .file
          (HiddenOwner.unlinkedPath a.2.session.separator ino)
        = (a.2.session.ensureInode ino .file
          (HiddenOwner.unlinkedPath a.2.session.separator ino)).within s :=
      Session.within_ensureInode _ _ _
    exact congrArg (fun x => DevicePass.mk x _ _ _ _ _ _ _) hensure

theorem within_push (r : DeviceRecord) (ino : Int64) (kind : ExtentKind)
    (logical : Option UInt64) :
    (p.within s).push r ino kind logical
      = (p.push r ino kind logical).within s :=
  congrArg (fun x => DevicePass.mk x _ _ _ _ _ _ _)
    (Session.within_pushExtent _)

theorem within_takeHidden (r : DeviceRecord) (owner : HiddenOwner) :
    (p.within s).takeHidden r owner = (p.takeHidden r owner).within s := by
  let a := (p.attach owner).2
  let free := a.freeBytes + if owner = .freeSpace then r.length else 0
  unfold takeHidden
  rw [within_attach]
  exact within_push { a with freeBytes := free } s _ _ _ _

theorem within_takeExtentMap (r : DeviceRecord) (ino : Int64) :
    (p.within s).takeExtentMap r ino = (p.takeExtentMap r ino).within s := by
  have hnamed : (p.within s).isNamed ino = p.isNamed ino := rfl
  unfold takeExtentMap
  rw [hnamed, within_attachUnlinked]
  split
  · exact within_push { p with extentMapRecords := p.extentMapRecords + 1 } s
      _ _ _ _
  · let a := p.attachUnlinked ino
    exact within_push { a with extentMapRecords := a.extentMapRecords + 1 } s
      _ _ _ _

theorem within_takeContent (r : DeviceRecord) (ino : Int64) :
    (p.within s).takeContent r ino = (p.takeContent r ino).within s := by
  unfold takeContent
  rw [within_attachUnlinked, within_push]

/-- Taking a record does the same to the rows of another store. -/
theorem within_take (wanted : Option UInt32) (r : DeviceRecord) :
    (p.within s).take wanted r = (p.take wanted r).within s := by
  let counted := { p with records := p.records + 1 }
  have hfate : (p.within s).fate wanted r = p.fate wanted r := rfl
  unfold take
  rw [hfate]
  cases p.fate wanted r with
  | foreign => rfl
  | unnumbered => rfl
  | known => rfl
  | hidden owner => exact within_takeHidden counted s r owner
  | extentMap ino => exact within_takeExtentMap counted s r ino
  | content ino => exact within_takeContent counted s r ino

theorem within_withNames :
    (p.within s).withNames = p.withNames.within s := by
  have hnames : (p.within s).names = p.names := rfl
  have hsession : (p.within s).session = p.session.within s := rfl
  rw [withNames, withNames, hnames, hsession]
  generalize p.session = x
  induction p.names generalizing x with
  | nil => rfl
  | cons entry rest ih =>
    obtain ⟨directory, name, ino⟩ := entry
    exact ih (x.insertDirectory directory [(name, ino)])

/-- A pass does the same to the rows of another store. -/
theorem within_takeAll (wanted : Option UInt32) (calledOff : Nat → Bool)
    (row : Nat) (items : List (Except Error DeviceRecord)) :
    (takeAll wanted calledOff row items (p.within s)).2
      = (takeAll wanted calledOff row items p).2.within s := by
  induction items generalizing row p with
  | nil => exact within_withNames p s
  | cons item rest ih =>
    rw [takeAll_cons, takeAll_cons]
    split
    · rfl
    · cases item with
      | error e => rfl
      | ok r =>
        dsimp only
        rw [within_take]
        exact ih _ _

end DevicePass

/-- A pass over a session that lives in another store leaves the same session,
in that store. -/
theorem within_ingestDevice (x : Session α) (s : Store β)
    (device : Option UInt64) (map : DeviceMap) (calledOff : Nat → Bool) :
    (ingestDevice (x.within s) device map calledOff).2
      = (ingestDevice x device map calledOff).2.within s := by
  unfold ingestDevice
  split
  · rfl
  · exact DevicePass.within_takeAll { session := x } s _ _ _ _

end DiskAtlas.Scan

/-
A pass over a device, followed record by record. Every record of the device
that does not repeat what is known offers one extent, which is put in or
counted as left out, and whoever owns it has been given a row (`Midway`).
At the end the files without a name are found under a number below their
own directory, and nowhere else (`Attached`).

`Midway` is the invariant: the guests that were put in, the rows that were
offered, and the counters, each as a function of the records that were taken.
One lemma for each kind of record keeps it, and the run over a map is the
induction on its records.
-/
import Mathlib.Data.List.ReduceOption
import Mathlib.Data.List.Forall2
import DiskAtlas.Proofs.Scan.Housed
import DiskAtlas.Proofs.Scan.Places

namespace DiskAtlas

open Mapping

instance decidableFits : DecidablePred Extent.Fits := fun _ =>
  decidable_of_iff _ Session.fits_iff

namespace Scan

variable {β : Type}

-- ================================================================ passes

theorem exists_mem_of_forall₂ {α γ : Type} {R : α → γ → Prop} {as : List α}
    {cs : List γ} (h : List.Forall₂ R as cs) {c : γ} (hc : c ∈ cs) :
    ∃ a ∈ as, R a c := by
  induction h with
  | nil => cases hc
  | cons hfirst hrest ih =>
    rcases List.mem_cons.1 hc with rfl | hc
    · exact ⟨_, List.mem_cons_self, hfirst⟩
    · obtain ⟨a, ha, hac⟩ := ih hc
      exact ⟨a, List.mem_cons_of_mem _ ha, hac⟩

/-- A pass that began with `x` and has taken some records, which offered
what was due. -/
structure Midway (x : Session β) (wanted : Option UInt32)
    (met : List SpecialOwner) (done : List DeviceRecord)
    (offers : List (Option Extent)) (p : DevicePass β) : Prop
    extends Housed x wanted met done p where
  due : List.Forall₂ (Due x wanted met) done offers
  records_eq : p.records = done.countP fun r => ¬ IsForeign wanted r
  foreign_eq : p.foreign = done.countP fun r => IsForeign wanted r
  extents_eq : p.session.store.tables.extents.toList =
    x.store.tables.extents.toList
      ++ offers.reduceOption.filter fun e => e.Fits
  discarded_eq : p.session.discarded =
    x.discarded + offers.reduceOption.countP fun e => ¬ e.Fits

namespace Midway

variable {x : Session β} {wanted : Option UInt32} {met : List SpecialOwner}
  {done : List DeviceRecord} {offers : List (Option Extent)}
  {r : DeviceRecord} {p : DevicePass β} {share : Option Extent}

/-- A pass that begins has taken nothing. -/
theorem start (x : Session β) (wanted : Option UInt32)
    (met : List SpecialOwner) :
    Midway x wanted met [] [] { session := x } :=
  ⟨⟨.start x _, rfl, rfl⟩, .nil, rfl, rfl, by simp, by simp⟩

/-- A pass that has counted one more record of the device. -/
def counted (p : DevicePass β) : DevicePass β :=
  { p with records := p.records + 1 }

theorem housed_counted (h : Midway x wanted met done offers p) :
    Housed x wanted met done (counted p) :=
  ⟨h.guests, h.met_eq, h.unlinked_eq⟩

theorem due_snoc (h : Midway x wanted met done offers p)
    (hdue : Due x wanted met r share) :
    List.Forall₂ (Due x wanted met) (done ++ [r]) (offers ++ [share]) :=
  List.rel_append h.due (.cons hdue .nil)

/-- A record of another device is counted and nothing else. -/
theorem drop (h : Midway x wanted met done offers p)
    (there : IsForeign wanted r) :
    Midway x wanted met (done ++ [r]) (offers ++ [none])
      { p with foreign := p.foreign + 1 } := by
  have hnameless : namelessOn x wanted r = none := by
    rw [namelessOn, if_pos there]
  have hcaller : caller x wanted r = none := by
    rw [caller, specialOn_of_foreign there, hnameless]
    rfl
  have hhoused := h.toHoused.pass hcaller
  refine ⟨⟨hhoused.guests, hhoused.met_eq, hhoused.unlinked_eq⟩,
    h.due_snoc (.foreign there), ?_, ?_, ?_, ?_⟩
  · simpa [there] using h.records_eq
  · simpa [there] using h.foreign_eq
  · simpa [List.reduceOption] using h.extents_eq
  · simpa [List.reduceOption] using h.discarded_eq

/-- A record that offers nothing is counted. -/
theorem count (h : Midway x wanted met done offers p)
    (here : ¬ IsForeign wanted r) (hcaller : caller x wanted r = none)
    (hdue : Due x wanted met r none) :
    Midway x wanted met (done ++ [r]) (offers ++ [none]) (counted p) := by
  have hhoused := h.toHoused.pass hcaller
  refine ⟨⟨hhoused.guests, hhoused.met_eq, hhoused.unlinked_eq⟩,
    h.due_snoc hdue, ?_, ?_, ?_, ?_⟩
  · simpa [here, counted] using h.records_eq
  · simpa [here, counted] using h.foreign_eq
  · simpa [List.reduceOption, counted] using h.extents_eq
  · simpa [List.reduceOption, counted] using h.discarded_eq

/-- A record whose owner has a place offers its row. -/
theorem offer (h : Midway x wanted met done offers p)
    (here : ¬ IsForeign wanted r) {e : Extent}
    (hdue : Due x wanted met r (some e)) {q : DevicePass β}
    (hbeside : (counted p).Beside q)
    (hq : Housed x wanted met (done ++ [r]) q) (freeBytes : UInt64)
    (extentMapRecords : Nat) :
    Midway x wanted met (done ++ [r]) (offers ++ [some e])
      { q with session := (q.session.pushExtent e).2
               freeBytes, extentMapRecords } := by
  have hhoused := hq.push e
  have hmore : (offers ++ [some e]).reduceOption
      = offers.reduceOption ++ [e] := by
    rw [List.reduceOption_append]
    rfl
  refine ⟨⟨hhoused.guests, hhoused.met_eq, hhoused.unlinked_eq⟩,
    h.due_snoc hdue, ?_, ?_, ?_, ?_⟩
  · -- the counters first, then the two ways in which an extent may end
    simpa [here, counted, h.records_eq] using hbeside.records_eq
  · simpa [here, counted, h.foreign_eq] using hbeside.foreign_eq
  · have hextents : q.session.store.tables.extents.toList = _ :=
      (congrArg Array.toList hbeside.extents_eq).trans h.extents_eq
    rw [hmore, List.filter_append, ← List.append_assoc, ← hextents]
    obtain ⟨hfits, heq⟩ | ⟨hnot, heq⟩ := q.session.pushExtent_cases e
    · rw [heq]
      simp [Session.withTables, hfits]
    · rw [heq]
      simp [hnot]
  · have hdiscarded : q.session.discarded = _ :=
      hbeside.discarded_eq.trans h.discarded_eq
    rw [hmore, List.countP_append, ← Nat.add_assoc, ← hdiscarded]
    obtain ⟨hfits, heq⟩ | ⟨hnot, heq⟩ := q.session.pushExtent_cases e
    · rw [heq]
      simp [Session.withTables, hfits]
    · rw [heq]
      simp [hnot]

variable (hx : ∀ ino, x.containsInode ino = true → 0 ≤ ino.toInt)
  (hmet : Guest.Numbered met)

include hx hmet

/-- A record of a special owner. -/
theorem takeHidden (h : Midway x wanted met done offers p)
    {o : SpecialOwner} (here : ¬ IsForeign wanted r)
    (owner : r.owner = .special o)
    (hmore : numbered wanted (done ++ [r]) <+: met)
    (hdue : Due x wanted met r (some (rowFor r
      (Guest.number met (.owner (.ofSpecial o)))
      (DevicePass.ownerExtentKind (.ofSpecial o)) none))) :
    Midway x wanted met (done ++ [r])
      (offers ++ [some (rowFor r (Guest.number met (.owner (.ofSpecial o)))
        (DevicePass.ownerExtentKind (.ofSpecial o)) none)])
      ((counted p).takeHidden r (.ofSpecial o)) := by
  obtain ⟨hino, hbeside, hhoused⟩ := h.housed_counted.attach hx hmet
    (specialOn_eq_some_iff.2 ⟨here, owner⟩) hmore
  have hoffer := h.offer here hdue hbeside hhoused
    (((counted p).attach (.ofSpecial o)).2.freeBytes +
      if HiddenOwner.ofSpecial o = .freeSpace then r.length else 0)
    ((counted p).attach (.ofSpecial o)).2.extentMapRecords
  unfold DevicePass.takeHidden
  rw [← hino] at hoffer ⊢
  exact hoffer

/-- A record that holds the map of an inode's extents. -/
theorem takeExtentMap (h : Midway x wanted met done offers p)
    {raw : UInt64} {ino : Int64} (here : ¬ IsForeign wanted r)
    (owner : r.owner = .inode raw) (number : ino.toInt = raw.toNat)
    (hdue : Due x wanted met r (some (rowFor r ino .extentMap none))) :
    Midway x wanted met (done ++ [r])
      (offers ++ [some (rowFor r ino .extentMap none)])
      ((counted p).takeExtentMap r ino) := by
  have hcounted := h.housed_counted
  have hnamed := hcounted.isNamed_eq hx hmet (by omega : 0 ≤ ino.toInt)
  unfold DevicePass.takeExtentMap
  rw [hnamed]
  by_cases hrow : x.containsInode ino = true
  · have hcaller : caller x wanted r = none := by
      refine caller_eq_none owner fun i hi => ?_
      rwa [Int64.toInt_inj.1 (hi.trans number.symm)]
    rw [if_pos hrow]
    exact h.offer here hdue (.refl _)
      (hcounted.pass hcaller) p.freeBytes
      (p.extentMapRecords + 1)
  · rw [if_neg hrow]
    have hnameless : namelessOn x wanted r = some ino :=
      namelessOn_eq_some_iff.2
        ⟨here, raw, owner, number, Bool.eq_false_iff.2 hrow⟩
    obtain ⟨hbeside, hhoused⟩ :=
      hcounted.attachUnlinked hx hmet hnameless
    exact h.offer here hdue hbeside hhoused
      ((counted p).attachUnlinked ino).freeBytes
      (((counted p).attachUnlinked ino).extentMapRecords + 1)

/-- A record with content of a file without a name. -/
theorem takeContent (h : Midway x wanted met done offers p)
    {raw : UInt64} {ino : Int64} (here : ¬ IsForeign wanted r)
    (owner : r.owner = .inode raw) (number : ino.toInt = raw.toNat)
    (new : x.containsInode ino = false) {kind : ExtentKind}
    (hkind : (if r.flags.containsAll .attrFork then .xattr else .file) = kind)
    (hdue : Due x wanted met r
      (some (rowFor r ino kind (some r.offset)))) :
    Midway x wanted met (done ++ [r])
      (offers ++ [some (rowFor r ino kind (some r.offset))])
      ((counted p).takeContent r ino) := by
  have hnameless : namelessOn x wanted r = some ino :=
    namelessOn_eq_some_iff.2 ⟨here, raw, owner, number, new⟩
  obtain ⟨hbeside, hhoused⟩ :=
    h.housed_counted.attachUnlinked hx hmet hnameless
  unfold DevicePass.takeContent
  rw [hkind]
  exact h.offer here hdue hbeside hhoused
    ((counted p).attachUnlinked ino).freeBytes
    ((counted p).attachUnlinked ino).extentMapRecords

/-- A pass takes a record as is due. -/
theorem take (h : Midway x wanted met done offers p)
    (hmore : numbered wanted (done ++ [r]) <+: met)
    (hdue : Due x wanted met r share) :
    Midway x wanted met (done ++ [r]) (offers ++ [share])
      (p.take wanted r) := by
  have hnamed : ∀ ino : Int64, 0 ≤ ino.toInt →
      p.isNamed ino = x.containsInode ino :=
    fun ino hino => h.isNamed_eq hx hmet hino
  unfold DevicePass.take
  cases hdue with
  | foreign there =>
    rw [p.fate_of_foreign there]
    exact h.drop there
  | unnumbered here owner large =>
    rw [p.fate_of_large here owner large]
    refine h.count here ?_ (.unnumbered here owner large)
    refine caller_eq_none owner fun ino hino => ?_
    have hlt := ino.toInt_lt
    omega
  | @known raw ino here owner number content row =>
    rw [p.fate_of_inode here owner number, content,
      hnamed ino (by omega), row]
    refine h.count here ?_ (.known here owner number content row)
    refine caller_eq_none owner fun i hi => ?_
    rwa [Int64.toInt_inj.1 (hi.trans number.symm)]
  | free here owner =>
    rw [p.fate_of_special here owner]
    exact h.takeHidden hx hmet here owner hmore (.free here owner)
  | metadata here owner =>
    rw [p.fate_of_special here owner]
    exact h.takeHidden hx hmet here owner hmore (.metadata here owner)
  | @special o ino here owner other number =>
    have hmem : o ∈ met := hmore.subset (mem_numbered
      (List.mem_append_right _ List.mem_cons_self)
      (specialOn_eq_some_iff.2 ⟨here, owner⟩) other)
    have htake := h.takeHidden hx hmet here owner hmore
    rw [p.fate_of_special here owner]
    rw [ofSpecial_other other] at htake ⊢
    rw [number_of_place hmet hmem number] at htake
    exact htake (.special here owner other number)
  | @extentMap raw ino here owner number map =>
    rw [p.fate_of_inode here owner number, if_pos map]
    exact h.takeExtentMap hx hmet here owner number
      (.extentMap here owner number map)
  | @file raw ino here owner number content new data =>
    rw [p.fate_of_inode here owner number, content,
      hnamed ino (by omega), new]
    exact h.takeContent hx hmet here owner number new (by rw [data]; rfl)
      (.file here owner number content new data)
  | @attributes raw ino here owner number content new fork =>
    rw [p.fate_of_inode here owner number, content,
      hnamed ino (by omega), new]
    exact h.takeContent hx hmet here owner number new (by rw [fork]; rfl)
      (.attributes here owner number content new fork)

/-- A pass takes several records as is due. -/
theorem takeMany (rest : List DeviceRecord)
    (h : Midway x wanted met done offers p)
    (hmore : numbered wanted (done ++ rest) <+: met) :
    ∃ offers', Midway x wanted met (done ++ rest) offers'
      (p.takeMany wanted rest) := by
  induction rest generalizing done offers p with
  | nil => exact ⟨offers, by rwa [List.append_nil]⟩
  | cons r rest ih =>
    rw [List.append_cons] at hmore ⊢
    have hfirst := (prefix_numbered wanted (done ++ [r]) rest).trans hmore
    have hmem : ∀ o, specialOn wanted r = some o →
        o ≠ .free ∧ o ≠ .metadata → o ∈ met := by
      intro o ho hother
      apply hfirst.subset
      exact mem_numbered (List.mem_append_right _ List.mem_cons_self) ho
        hother
    obtain ⟨share, hdue, -⟩ := Due.exists_unique x hmet hmem
    exact ih (h.take hx hmet hfirst hdue) hmore

omit hx in
/-- Whoever owns an extent that was offered has a row. -/
theorem hosted (h : Midway x wanted met done offers p)
    (hmore : numbered wanted done <+: met) {e : Extent}
    (he : e ∈ offers.reduceOption) :
    p.session.containsInode e.ino = true := by
  obtain ⟨r, hr, hdue⟩ := exists_mem_of_forall₂ h.due
    (List.reduceOption_mem_iff.1 he)
  have hguest : ∀ g, caller x wanted r = some g →
      p.session.containsInode (g.number met) = true := fun g hg =>
    h.guests.containsInode_iff.2 (.inl ⟨g, mem_asked hr hg, rfl⟩)
  have howner : ∀ o, ¬ IsForeign wanted r → r.owner = .special o →
      p.session.containsInode
        (Guest.number met (.owner (.ofSpecial o))) = true :=
    fun o here owner => hguest _
      (caller_of_specialOn (specialOn_eq_some_iff.2 ⟨here, owner⟩))
  have hfile : ∀ (raw : UInt64) (ino : Int64), ¬ IsForeign wanted r →
      r.owner = .inode raw → ino.toInt = raw.toNat →
      x.containsInode ino = false → p.session.containsInode ino = true :=
    fun raw ino here owner number new => hguest (.file ino)
      (caller_of_namelessOn
        (namelessOn_eq_some_iff.2 ⟨here, raw, owner, number, new⟩))
  have hfree : Guest.number met (.owner (.ofSpecial .free)) = -3 := rfl
  have hmetadata :
      Guest.number met (.owner (.ofSpecial .metadata)) = -2 := rfl
  -- the owner of a row is a guest that its record asks for, or had a row
  -- before
  cases hdue with
  | free here owner => exact hfree ▸ howner .free here owner
  | metadata here owner => exact hmetadata ▸ howner .metadata here owner
  | @special o ino here owner other number =>
    have hmem : o ∈ met := hmore.subset (mem_numbered hr
      (specialOn_eq_some_iff.2 ⟨here, owner⟩) other)
    have hrow := howner o here owner
    rwa [ofSpecial_other other, number_of_place hmet hmem number] at hrow
  | @extentMap raw ino here owner number map =>
    by_cases hrow : x.containsInode ino = true
    · exact h.guests.containsInode_iff.2 (.inr hrow)
    · exact hfile raw ino here owner number (Bool.eq_false_iff.2 hrow)
  | file here owner number content new data =>
    exact hfile _ _ here owner number new
  | attributes here owner number content new fork =>
    exact hfile _ _ here owner number new

end Midway

-- ================================================================== maps

/-- The device that records have to be of, if they can be told apart. -/
def wantedDevice (device : Option UInt64) (map : DeviceMap) :
    Option UInt32 :=
  if map.firstEncoded then device.map encodeDevice else none

/-- An inode that has been given a row, a path and a name in a directory,
each of them once. -/
structure Attached (x y : Session β) (ino : Int64) : Prop where
  row : y.store.tables.inodes.get? ino = some (.bare ino .file)
  path : y.lookupPath (HiddenOwner.unlinkedPath x.separator ino) = some ino
  path_only : ∀ path, y.lookupPath path = some ino →
    path = HiddenOwner.unlinkedPath x.separator ino ∨
      x.lookupPath path = some ino
  entry : y.named? (-4) (toString ino.toInt) = some ino
  entry_only : ∀ directory name, y.named? directory name = some ino →
    (directory = -4 ∧ name = toString ino.toInt) ∨
      x.named? directory name = some ino

/-- What is left of a pass that began with `x`, when all records of a map
were taken. -/
structure Settled (x : Session β) (wanted : Option UInt32)
    (records : List DeviceRecord) (report : DeviceReport)
    (y : Session β) : Prop where
  /-- No record has two fates. -/
  unique : ∀ r ∈ records,
    ∃! share, Due x wanted (numbered wanted records) r share
  offered : ∃ offers : List (Option Extent),
    List.Forall₂ (Due x wanted (numbered wanted records)) records offers ∧
      y.store.tables.extents.toList = x.store.tables.extents.toList
        ++ offers.reduceOption.filter (fun e => e.Fits) ∧
      y.discarded = x.discarded
        + offers.reduceOption.countP (fun e => ¬ e.Fits) ∧
      ∀ e ∈ offers.reduceOption, y.containsInode e.ino = true
  foreign_eq : report.foreign = records.countP fun r => IsForeign wanted r
  records_eq : report.records = records.countP fun r => ¬ IsForeign wanted r
  specialOwners_eq :
    report.specialOwners = (numbered wanted records).length
  unlinkedInodes_eq :
    report.unlinkedInodes = (nameless x wanted records).length
  attached : ∀ ino ∈ nameless x wanted records, Attached x y ino

/-- A file without a name was attached once. -/
theorem Midway.attached {x : Session β} {wanted : Option UInt32}
    {met : List SpecialOwner} {records : List DeviceRecord}
    {offers : List (Option Extent)} {p : DevicePass β}
    (hmet : Guest.Numbered met) (h : Midway x wanted met records offers p)
    {ino : Int64} (hino : ino ∈ nameless x wanted records) :
    Attached x p.withNames ino := by
  have hasked : .file ino ∈ asked x wanted records := file_mem_asked.2 hino
  obtain ⟨pre, post, hsplit⟩ :=
    List.append_of_mem (List.mem_eraseDups.2 hasked)
  -- only special owners can share a place, so nobody takes that of a file
  have hlast : ∀ g' ∈ post, ¬ (Guest.file ino).Twins g' := by
    rintro g' - ⟨o, o', hfile, -⟩
    cases hfile
  have hpath : (Guest.file ino).path x.separator
      = HiddenOwner.unlinkedPath x.separator ino := rfl
  have hnumber : (Guest.file ino).number met = ino := rfl
  have hentry : (Guest.file ino).entry (x.lookupPath "") met
      = some (-4, toString ino.toInt, ino) := rfl
  obtain ⟨directories, hresult⟩ := p.withNames_eq
  have hpaths : ∀ path, p.withNames.lookupPath path
      = p.session.lookupPath path := fun path => by rw [hresult]; rfl
  refine ⟨?_, ?_, ?_, ?_, ?_⟩
  · have hrow := h.guests.get?_inodes hmet hasked
    rw [hnumber] at hrow
    rw [hresult]
    exact hrow
  · have hfound := h.guests.lookupPath_of_last hsplit hlast
    rw [hpath, hnumber] at hfound
    rw [hpaths, hfound]
  · intro path hled
    rw [hpaths] at hled
    rw [← hpath]
    exact h.guests.lookupPath_cases hmet hasked hled
  · exact h.guests.named?_of_last hsplit hlast hentry
  · intro directory name hname
    rcases h.guests.named?_cases hmet hasked hname with hnew | hold
    · rw [hentry] at hnew
      obtain ⟨rfl, rfl, -⟩ := by simpa using hnew
      exact .inl ⟨rfl, rfl⟩
    · exact .inr hold

section Maps

variable {x : Session β} {device : Option UInt64} {map : DeviceMap}
  {calledOff : Nat → Bool} {records : List DeviceRecord}

/-- A map without errors was not refused. -/
theorem refusal?_eq_none {ρ α : Type} {trace : Trace ρ α} {as : List α}
    (h : trace.items = as.map .ok) : trace.refusal? = none := by
  cases hrefusal : trace.refusal? with
  | none => rfl
  | some e =>
    unfold Trace.refusal? at hrefusal
    split at hrefusal
    · cases as with
      | nil => cases h
      | cons a rest => cases h
    · cases hrefusal

variable (hx : ∀ ino, x.containsInode ino = true → 0 ≤ ino.toInt)
  (hmet : Guest.Numbered (numbered (wantedDevice device map) records))
  (hitems : map.trace.items = records.map .ok)
  (hon : ∀ i < records.length, calledOff i = false)

include hx hmet hitems hon

/-- A map without errors is taken to the end. -/
theorem ingestDevice_midway :
    let wanted := wantedDevice device map
    ∃ offers p, ingestDevice x device map calledOff
        = (.ok (some p.report), p.withNames) ∧
      Midway x wanted (numbered wanted records) records offers p := by
  obtain ⟨offers, hp⟩ := (Midway.start x (wantedDevice device map)
    (numbered (wantedDevice device map) records)).takeMany hx hmet records
    List.prefix_rfl
  refine ⟨offers, _, ?_, hp⟩
  unfold ingestDevice
  rw [refusal?_eq_none hitems, hitems]
  exact DevicePass.takeAll_records (fun i _ hlt => hon i (by omega)) _

end Maps

/-- A map without errors is settled, if there is a number for each of its
special owners: each of its records has one fate, and offers a row
accordingly. -/
theorem ingestDevice_settled (x : Session β) (device : Option UInt64)
    (map : DeviceMap) (calledOff : Nat → Bool) (records : List DeviceRecord)
    (hx : ∀ ino, x.containsInode ino = true → 0 ≤ ino.toInt)
    (hitems : map.trace.items = records.map .ok)
    (hon : ∀ i < records.length, calledOff i = false)
    (hmet : Guest.Numbered (numbered (wantedDevice device map) records)) :
    ∃ report y, ingestDevice x device map calledOff = (.ok (some report), y) ∧
      Settled x (wantedDevice device map) records report y := by
  obtain ⟨offers, p, hingest, hp⟩ := ingestDevice_midway hx hmet hitems hon
  obtain ⟨directories, hresult⟩ := p.withNames_eq
  refine ⟨p.report, p.withNames, hingest, ?_⟩
  refine ⟨?_, ⟨offers, hp.due, ?_, ?_, ?_⟩, hp.foreign_eq, hp.records_eq,
    ?_, ?_, fun ino hino => hp.attached hmet hino⟩
  · intro r hr
    exact Due.exists_unique x hmet fun o ho hother =>
      mem_numbered hr ho hother
  · rw [hresult]
    exact hp.extents_eq
  · rw [hresult]
    exact hp.discarded_eq
  · rw [hresult]
    exact fun e he => hp.hosted hmet List.prefix_rfl he
  · exact congrArg List.length hp.met_eq
  · exact congrArg List.length hp.unlinked_eq

/-- A session with a directory and a file. -/
def fewRows : Session Unit :=
  let x : Session Unit :=
    { store := ⟨(), "/", .empty, .empty, .empty, false⟩ }
  (x.putInode (.bare 2 .directory) "").putInode (.bare 5 .file) "/a"

/-- Of another device, of a file with a row, of an owner that is numbered,
of a file without a row, twice, of free space, and of a number that is too
large. -/
def mixedRecords : List DeviceRecord :=
  [⟨0x802, ⟨0⟩, 0, 5, 0, 4096⟩, ⟨0x801, ⟨0⟩, 4096, 5, 0, 4096⟩,
    ⟨0x801, ⟨0x10⟩, 8192, SpecialOwner.raw ⟨0x58, 2⟩, 0, 4096⟩,
    ⟨0x801, ⟨0x04⟩, 12288, 77, 0, 4096⟩,
    ⟨0x801, ⟨0x01⟩, 16384, 77, 8192, 4096⟩,
    ⟨0x801, ⟨0x10⟩, 20480, SpecialOwner.free.raw, 0, 4096⟩,
    ⟨0x801, ⟨0⟩, 24576, 0x8000000000000000, 0, 4096⟩]

def mixedMap : DeviceMap :=
  ⟨.ask .lowest :: mixedRecords.map .give, [true]⟩

/-- A map with records of most fates is settled. -/
theorem ingestDevice_settled_mixedRecords :
    (∀ ino, fewRows.containsInode ino = true → 0 ≤ ino.toInt) ∧
    mixedMap.trace.items = mixedRecords.map .ok ∧
    Guest.Numbered
      (numbered (wantedDevice (some 0x801) mixedMap) mixedRecords) ∧
    ∃ report y, ingestDevice fewRows (some 0x801) mixedMap (fun _ => false)
        = (.ok (some report), y) ∧
      Settled fewRows (wantedDevice (some 0x801) mixedMap) mixedRecords
        report y := by
  have hx : ∀ ino, fewRows.containsInode ino = true → 0 ≤ ino.toInt := by
    intro ino hrow
    rcases (SortedMap.contains_insert_iff _ _ _ _).1 hrow with rfl | hrow
    · decide
    rcases (SortedMap.contains_insert_iff _ _ _ _).1 hrow with rfl | hrow
    · decide
    · cases hrow
  have hmet : Guest.Numbered
      (numbered (wantedDevice (some 0x801) mixedMap) mixedRecords) := by
    unfold Guest.Numbered
    decide
  exact ⟨hx, rfl, hmet, ingestDevice_settled fewRows (some 0x801) mixedMap
    (fun _ => false) mixedRecords hx rfl (fun _ _ => rfl) hmet⟩

end Scan

end DiskAtlas

/-
The way to the hidden owners. After a scan with a map of the device every
file without a name is found under its number (`Reached.files`), and so is
every special owner under its name, unless an owner of the same name was
met later (`Reached.owners`); that one has taken its place. Only twins have
the same name, the tag of a digit beside the tag of its character
(`twins_shadowed`).

A later owner of the same name is the only thing that can go wrong. Everything
else, that numbers differ, that files keep apart from owners and that the
entries of other directories stay, has been settled before and is put together
here.
-/
import DiskAtlas.Proofs.Scan.Settled
import DiskAtlas.Proofs.Store.Calculated

namespace DiskAtlas

open Mapping

variable {β : Type}

-- ============================================================ found places

/-- An inode is found under a path and under a name in a directory, and it
is known that the path leads to it. -/
structure Store.FoundAt (s : Store β) (ino : Int64) (path : String)
    (directory : Int64) (name : String) : Prop where
  path_eq : s.lookupPath path = some ino
  mem_directory : (name, ino) ∈ s.listDirectory directory
  mem_paths : path ∈ s.pathsOf ino

namespace Session

variable [Backend β] {x : Session β} {summary : Summary}

/-- A scan is finished in memory, whether or not it can be saved. -/
theorem finish_eq (h : x.summary = some summary) :
    x.finish.2.tables = (x.finishedStore summary).tables ∧
      x.finish.2.index = .build x.finish.2.tables := by
  have hindex : (x.finishedStore summary).index
      = .build (x.finishedStore summary).tables := rfl
  unfold finish Store.persist
  rw [h]
  dsimp only
  split
  · next hsave =>
    split at hsave <;> cases hsave
    exact ⟨rfl, hindex⟩
  · next hsave =>
    split at hsave <;> cases hsave
    exact ⟨rfl, hindex⟩

/-- What a session leads to is found when it is finished. -/
theorem foundAt_finish_iff (h : x.summary = some summary) {ino : Int64}
    {path : String} {directory : Int64} {name : String} :
    x.finish.2.FoundAt ino path directory name ↔
      x.lookupPath path = some ino ∧ x.named? directory name = some ino := by
  obtain ⟨htables, hindex⟩ := finish_eq h
  have hpath : x.finish.2.lookupPath path = x.lookupPath path := by
    rw [Store.lookupPath, htables]
    rfl
  have hentry : (name, ino) ∈ x.finish.2.listDirectory directory ↔
      x.named? directory name = some ino := by
    have hdirectories : x.finish.2.tables.directories
        = x.store.tables.directories := by rw [htables]; rfl
    rw [Store.listDirectory, hdirectories, named?]
    cases x.store.tables.directories.get? directory with
    | none => simp
    | some names => exact SortedMap.get?_eq_some_iff.symm
  have hback : x.lookupPath path = some ino →
      path ∈ x.finish.2.pathsOf ino := by
    intro hled
    rw [← hpath] at hled
    rw [Store.pathsOf_eq hindex, Tables.pathsOf, List.mem_map]
    refine ⟨(path, ino), List.mem_filter.2 ⟨?_, by simp⟩, rfl⟩
    exact SortedMap.get?_eq_some_iff.1 hled
  constructor
  · intro hfound
    exact ⟨hpath ▸ hfound.path_eq, hentry.1 hfound.mem_directory⟩
  · rintro ⟨hled, hnamed⟩
    exact ⟨hpath.trans hled, hentry.2 hnamed, hback hled⟩

end Session

namespace Scan

-- ========================================================= special owners

/-- The special owner that a guest is. -/
def Guest.special? : Guest → Option SpecialOwner
  | owner .freeSpace => some .free
  | owner .metadata => some .metadata
  | owner (.special o) => some o
  | owner .root | owner .unlinked | file _ => none

theorem Guest.special?_ofSpecial (o : SpecialOwner) :
    (owner (.ofSpecial o)).special? = some o := by
  by_cases hfree : o = .free
  · subst hfree
    rfl
  by_cases hmetadata : o = .metadata
  · subst hmetadata
    rfl
  · rw [ofSpecial_other ⟨hfree, hmetadata⟩]
    rfl

/-- A special owner is known by the guest that it is. -/
theorem Guest.owner_injective {o o' : SpecialOwner}
    (h : owner (.ofSpecial o) = owner (.ofSpecial o')) : o = o' := by
  have hspecial := congrArg special? h
  rw [special?_ofSpecial, special?_ofSpecial] at hspecial
  exact Option.some_inj.1 hspecial

/-- A special owner is behind one guest only, so guests with the same special
owner are the same. -/
theorem Guest.eq_of_special? {g : Guest} {o : SpecialOwner}
    (hg : g.IsProper) (h : g.special? = some o) :
    g = owner (.ofSpecial o) := by
  cases g with
  | file ino => cases h
  | owner hidden =>
    cases hidden with
    | root => cases h
    | unlinked => cases h
    | freeSpace =>
      obtain rfl := Option.some_inj.1 h
      rfl
    | metadata =>
      obtain rfl := Option.some_inj.1 h
      rfl
    | special o' =>
      obtain rfl := Option.some_inj.1 h
      rw [ofSpecial_other hg]

/-- The special owners among those who were asked for are those that the
records name. -/
theorem filterMap_asked (x : Session β) (wanted : Option UInt32)
    (records : List DeviceRecord) :
    (asked x wanted records).filterMap Guest.special?
      = records.filterMap (specialOn wanted) := by
  induction records with
  | nil => rfl
  | cons r rest ih =>
    have hcons : asked x wanted (r :: rest) =
        ((caller x wanted r).toList.flatMap fun g => g.above ++ [g])
          ++ asked x wanted rest := by
      unfold asked
      cases h : caller x wanted r with
      | none => simp [h]
      | some g => simp [h]
    rw [hcons, List.filterMap_append, ih]
    have habove : ∀ g : Guest, g.above.filterMap Guest.special? = [] := by
      intro g
      cases g with
      | owner o => cases o <;> rfl
      | file ino => rfl
    cases hspecial : specialOn wanted r with
    | some o =>
      rw [caller_of_specialOn hspecial, List.filterMap_cons_some hspecial]
      simp [habove, Guest.special?_ofSpecial]
    | none =>
      rw [List.filterMap_cons_none hspecial, caller, hspecial]
      cases namelessOn x wanted r with
      | none => rfl
      | some ino => rfl

/-- The path of a special owner. -/
def ownerPath (separator : Char) (o : SpecialOwner) : String :=
  rootedPath separator [HiddenOwner.root.name, o.name]

/-- Owners that share their place share their name, as a place ends in the
name. -/
theorem name_of_ownerPath {separator : Char} {o o' : SpecialOwner}
    (h : ownerPath separator o = ownerPath separator o') :
    o.name = o'.name := by
  have hlist := congrArg String.toList h
  rw [ownerPath, ownerPath, toList_rootedPath, toList_rootedPath,
    List.flatMap_cons, List.flatMap_cons] at hlist
  replace hlist := List.append_cancel_left hlist
  have hname : o.name.toList = o'.name.toList := by simpa using hlist
  exact String.toList_inj.1 hname

/-- The number of a special owner. -/
def ownerIno (met : List SpecialOwner) (o : SpecialOwner) : Int64 :=
  Guest.number met (.owner (.ofSpecial o))

theorem name_ofSpecial (o : SpecialOwner) :
    (HiddenOwner.ofSpecial o).name = o.name := by
  by_cases hfree : o = .free
  · subst hfree
    rfl
  by_cases hmetadata : o = .metadata
  · subst hmetadata
    rfl
  · rw [ofSpecial_other ⟨hfree, hmetadata⟩]
    rfl

theorem path_ofSpecial (separator : Char) (o : SpecialOwner) :
    (Guest.owner (.ofSpecial o)).path separator = ownerPath separator o := by
  rw [Guest.path_eq, Guest.names_owner (ofSpecial_ne_root o),
    name_ofSpecial]
  rfl

theorem entry_ofSpecial (top : Option Int64) (met : List SpecialOwner)
    (o : SpecialOwner) :
    (Guest.owner (.ofSpecial o)).entry top met
      = some (-1, o.name, ownerIno met o) := by
  rw [Guest.entry_owner (ofSpecial_ne_root o), name_ofSpecial]
  rfl

section Order

variable {x : Session β} {wanted : Option UInt32} {met : List SpecialOwner}
  {records : List DeviceRecord} {offers : List (Option Extent)}
  {p : DevicePass β}

/-- Special owners come among the guests in the order in which they
appear. -/
theorem Midway.exists_split (h : Midway x wanted met records offers p)
    {before later : List SpecialOwner} {o : SpecialOwner}
    (hsplit : occurred wanted records = before ++ o :: later) :
    ∃ pre post, (asked x wanted records).eraseDups
        = pre ++ .owner (.ofSpecial o) :: post ∧
      post.filterMap Guest.special? = later := by
  have hproper : ∀ g ∈ asked x wanted records, g.IsProper :=
    fun g hg => (h.guests.admissible g hg).isProper
  have hdistinct : ∀ g ∈ asked x wanted records,
      ∀ g' ∈ asked x wanted records, ∀ o, g.special? = some o →
        g'.special? = some o → g = g' := by
    intro g hg g' hg' o ho ho'
    rw [Guest.eq_of_special? (hproper g hg) ho,
      Guest.eq_of_special? (hproper g' hg') ho']
  rw [occurred, ← filterMap_asked x, eraseDups_filterMap hdistinct] at hsplit
  obtain ⟨front, back, hasked, -, hback⟩ :=
    List.filterMap_eq_append_iff.1 hsplit
  obtain ⟨between, g, post, rfl, -, hg, hpost⟩ :=
    List.filterMap_eq_cons_iff.1 hback
  have hmem : g ∈ asked x wanted records := by
    rw [← List.mem_eraseDups, hasked]
    simp
  obtain rfl := Guest.eq_of_special? (hproper g hmem) hg
  exact ⟨front ++ between, post, by rw [hasked, List.append_assoc], hpost⟩

theorem Midway.summary_withNames (h : Midway x wanted met records offers p) :
    p.withNames.summary = x.summary := by
  obtain ⟨directories, hresult⟩ := p.withNames_eq
  rw [hresult]
  exact h.guests.summary_eq

/-- Putting the names in at the end of a pass changes no path. -/
theorem Midway.lookupPath_withNames (p : DevicePass β) (path : String) :
    p.withNames.lookupPath path = p.session.lookupPath path := by
  obtain ⟨directories, hresult⟩ := p.withNames_eq
  rw [hresult]
  rfl

variable [Backend β] {summary : Summary}

/-- An owner is found in the end unless a twin of it was met later. -/
theorem Midway.owner_found_iff (hmet : Guest.Numbered met)
    (hsummary : x.summary = some summary)
    (h : Midway x wanted met records offers p)
    {before later : List SpecialOwner} {o : SpecialOwner}
    (hsplit : occurred wanted records = before ++ o :: later) :
    p.withNames.finish.2.FoundAt (ownerIno met o) (ownerPath x.separator o)
        (-1) o.name ↔
      ∀ o' ∈ later, ¬ o.Twins o' ∧ ¬ o'.Twins o := by
  -- those asked for behind `o` with a special owner are the later ones
  obtain ⟨pre, post, hasked, hlater⟩ := h.exists_split hsplit
  have hproper : ∀ g ∈ post, g.IsProper := by
    intro g hg
    refine h.guests.isProper ?_
    rw [hasked]
    exact List.mem_append_right _ (List.mem_cons_of_mem _ hg)
  rw [Session.foundAt_finish_iff (h.summary_withNames.trans hsummary),
    lookupPath_withNames, ← path_ofSpecial]
  constructor
  · -- a later guest with the same name would have taken the path
    rintro ⟨hled, -⟩ o' ho'
    obtain ⟨g', hg', hspecial⟩ := List.mem_filterMap.1 (hlater ▸ ho')
    obtain rfl := Guest.eq_of_special? (hproper g' hg') hspecial
    have hother : o'.name ≠ o.name := by
      intro hname
      refine h.guests.lookupPath_ne_of_later hmet hasked hg' ?_ hled
      rw [path_ofSpecial, path_ofSpecial, ownerPath, ownerPath, hname]
    exact ⟨fun htwins => hother htwins.name_eq.symm,
      fun htwins => hother htwins.name_eq⟩
  · intro hnone
    have hlast : ∀ g' ∈ post, ¬ (Guest.owner (.ofSpecial o)).Twins g' := by
      rintro g' hg' ⟨a, b, ha, rfl, htwins⟩
      have hspecial : some o = some a := by
        rw [← Guest.special?_ofSpecial, ha]
        rfl
      obtain rfl := Option.some_inj.1 hspecial
      have hb : b ∈ later :=
        hlater ▸ List.mem_filterMap.2 ⟨_, hg', rfl⟩
      rcases htwins with htwins | htwins
      · exact (hnone b hb).1 htwins
      · exact (hnone b hb).2 htwins
    -- nobody behind `o` has its place, so it is still there at the end
    exact ⟨h.guests.lookupPath_of_last hasked hlast,
      h.guests.named?_of_last hasked hlast (entry_ofSpecial _ _ o)⟩

/-- A file without a name is found in the end. -/
theorem Midway.file_found (hmet : Guest.Numbered met)
    (hsummary : x.summary = some summary)
    (h : Midway x wanted met records offers p) {ino : Int64}
    (hino : ino ∈ nameless x wanted records) :
    p.withNames.finish.2.FoundAt ino
      (HiddenOwner.unlinkedPath x.separator ino) (-4)
      (toString ino.toInt) := by
  have hattached := h.attached hmet hino
  rw [Session.foundAt_finish_iff (h.summary_withNames.trans hsummary)]
  exact ⟨hattached.path, hattached.entry⟩

end Order

-- ================================================================ passes

/-- A pass that has a report was not called off. -/
theorem DevicePass.calledOff_of_takeAll {wanted : Option UInt32}
    {calledOff : Nat → Bool} {row : Nat} {records : List DeviceRecord}
    {p : DevicePass β} {report : DeviceReport} {y : Session β}
    (h : takeAll wanted calledOff row (records.map .ok) p
      = (.ok (some report), y)) :
    ∀ i, row ≤ i → i < row + records.length → calledOff i = false := by
  induction records generalizing row p with
  | nil =>
    intro i hle hlt
    rw [List.length_nil] at hlt
    omega
  | cons r rest ih =>
    rw [List.map_cons, takeAll_cons] at h
    split at h
    · cases h
    · next hgoes =>
      intro i hle hlt
      rw [List.length_cons] at hlt
      by_cases hfirst : i = row
      · exact hfirst ▸ Bool.eq_false_iff.2 hgoes
      · exact ih h i (by omega) (by omega)

/-- Where the hidden owners are found when a scan is finished that a map of
the device was put into. -/
structure Reached (x : Session β) (wanted : Option UInt32)
    (records : List DeviceRecord) (s : Store β) : Prop where
  /-- An owner is found unless a twin of it was met later. -/
  owners : ∀ before o later,
    occurred wanted records = before ++ o :: later →
      (s.FoundAt (ownerIno (numbered wanted records) o)
          (ownerPath x.separator o) (-1) o.name ↔
        ∀ o' ∈ later, ¬ o.Twins o' ∧ ¬ o'.Twins o)
  /-- Each owner has a number of its own. -/
  numbers : ∀ o ∈ occurred wanted records, ∀ o' ∈ occurred wanted records,
    ownerIno (numbered wanted records) o
      = ownerIno (numbered wanted records) o' → o = o'
  /-- Only twins share a path or a name. -/
  names : ∀ o o' : SpecialOwner,
    ownerPath x.separator o = ownerPath x.separator o' ∨ o.name = o'.name →
      o = o' ∨ o.Twins o' ∨ o'.Twins o
  files : ∀ ino ∈ nameless x wanted records,
    s.FoundAt ino (HiddenOwner.unlinkedPath x.separator ino) (-4)
      (toString ino.toInt)
  /-- Files share no path or name with each other. -/
  numerals : ∀ ino ∈ nameless x wanted records,
    ∀ ino' ∈ nameless x wanted records,
      HiddenOwner.unlinkedPath x.separator ino
          = HiddenOwner.unlinkedPath x.separator ino' ∨
        toString ino.toInt = toString ino'.toInt → ino = ino'
  /-- Files share no path with an owner. -/
  apart : ∀ ino ∈ nameless x wanted records, ∀ o : SpecialOwner,
    ownerPath x.separator o ≠ HiddenOwner.unlinkedPath x.separator ino

theorem mem_asked_of_occurred {x : Session β} {wanted : Option UInt32}
    {records : List DeviceRecord} {o : SpecialOwner}
    (h : o ∈ occurred wanted records) :
    .owner (.ofSpecial o) ∈ asked x wanted records := by
  obtain ⟨r, hr, ho⟩ := List.mem_filterMap.1 (List.mem_eraseDups.1 h)
  exact mem_asked hr (caller_of_specialOn ho)

/-- Every owner of a map is found under its name when the scan is finished,
unless a twin of it was met later, and every file without a name under its
number. -/
theorem ingestDevice_reached [Backend β] (x : Session β)
    (device : Option UInt64) (map : DeviceMap) (calledOff : Nat → Bool)
    (records : List DeviceRecord) (summary : Summary)
    (report : DeviceReport) (y : Session β)
    (hsummary : x.summary = some summary)
    (hx : ∀ ino, x.containsInode ino = true → 0 ≤ ino.toInt)
    (hitems : map.trace.items = records.map .ok)
    (hingest : ingestDevice x device map calledOff = (.ok (some report), y))
    (hmet : Guest.Numbered (numbered (wantedDevice device map) records)) :
    Reached x (wantedDevice device map) records y.finish.2 := by
  have hon : ∀ i < records.length, calledOff i = false := by
    have htakes := hingest
    unfold ingestDevice at htakes
    rw [refusal?_eq_none hitems, hitems] at htakes
    exact fun i hi => DevicePass.calledOff_of_takeAll htakes i (Nat.zero_le i)
      (by omega)
  -- it was not called off, so it has taken every record of the map
  obtain ⟨offers, p, hpass, hp⟩ := ingestDevice_midway hx hmet hitems hon
  obtain ⟨-, rfl⟩ := Prod.mk.inj (hingest.symm.trans hpass)
  have hproper : ∀ o : SpecialOwner,
      (Guest.owner (.ofSpecial o)).IsProper :=
    HiddenOwner.isProper_ofSpecial
  have hfile : ∀ ino ∈ nameless x (wantedDevice device map) records,
      (Guest.file ino).IsProper := fun ino hino =>
    (hp.guests.admissible _ (file_mem_asked.2 hino)).isProper
  refine ⟨fun _ _ _ hsplit => hp.owner_found_iff hmet hsummary hsplit,
    ?_, ?_, fun ino hino => hp.file_found hmet hsummary hino, ?_, ?_⟩
  · intro o ho o' ho' hnumber
    have heq := Guest.number_injective hmet
      (hp.guests.admissible _ (mem_asked_of_occurred ho))
      (hp.guests.admissible _ (mem_asked_of_occurred ho')) hnumber
    exact Guest.owner_injective heq
  · -- a path and an entry both tell the name, and the name is all they tell
    rintro o o' (hpath | hname)
    · exact SpecialOwner.name_eq_iff.1 (name_of_ownerPath hpath)
    · exact SpecialOwner.name_eq_iff.1 hname
  · rintro ino hino ino' hino' (hpath | hnumeral)
    · rcases Guest.eq_or_twins_of_path (hfile ino hino) (hfile ino' hino')
        hpath with heq | ⟨o, o', hfile, -⟩
      · exact Guest.file.inj heq
      · cases hfile
    · exact numeral_injective (hfile ino hino) (hfile ino' hino') hnumeral
  · intro ino hino o hpath
    rw [← path_ofSpecial] at hpath
    rcases Guest.eq_or_twins_of_path (hproper o) (hfile ino hino) hpath with
      heq | ⟨a, b, -, hfile, -⟩
    · cases heq
    · cases hfile

/-- A session with a root. -/
def rooted : Session Vault :=
  let tables := { Tables.empty with summary := some (.blank "/") }
  let x : Session Vault :=
    { store := ⟨{}, "/", tables, .empty, .empty, false⟩ }
  x.putInode (.bare 2 .directory) ""

theorem toInt_of_rooted (ino : Int64) (h : rooted.containsInode ino = true) :
    0 ≤ ino.toInt := by
  rcases (SortedMap.contains_insert_iff _ _ _ _).1 h with rfl | hnone
  · decide
  · cases hnone

/-- Two owners and two files without a name are found. -/
theorem ingestDevice_reached_mixedRecords :
    rooted.summary = some (.blank "/") ∧
    (∀ ino, rooted.containsInode ino = true → 0 ≤ ino.toInt) ∧
    mixedMap.trace.items = mixedRecords.map .ok ∧
    Guest.Numbered
      (numbered (wantedDevice (some 0x801) mixedMap) mixedRecords) ∧
    ∃ report y, ingestDevice rooted (some 0x801) mixedMap (fun _ => false)
        = (.ok (some report), y) ∧
      Reached rooted (wantedDevice (some 0x801) mixedMap) mixedRecords
        y.finish.2 := by
  have hmet : Guest.Numbered
      (numbered (wantedDevice (some 0x801) mixedMap) mixedRecords) := by
    unfold Guest.Numbered
    decide
  refine ⟨rfl, toInt_of_rooted, rfl, hmet, _, _, rfl, ?_⟩
  exact ingestDevice_reached rooted (some 0x801) mixedMap (fun _ => false)
    mixedRecords (.blank "/") _ _ rfl toInt_of_rooted rfl rfl hmet

/-- The tag of a digit and the tag of its character, both with one code. -/
def twins : List SpecialOwner := [⟨0, 5⟩, ⟨48, 5⟩]

/-- The map of a device with one record for each twin. -/
def twinsMap : DeviceMap :=
  ⟨.ask .lowest :: twins.map fun o =>
    .give ⟨0, .specialOwner, 0, o.raw, 0, 4096⟩, [false]⟩

/-- The first of two twins has a number of its own, and nothing leads to
it. -/
theorem twins_shadowed :
    let records := twins.map fun o => ⟨0, .specialOwner, 0, o.raw, 0, 4096⟩
    let o : SpecialOwner := ⟨0, 5⟩
    (rooted.lookupPath "" = some 2 ∧
      (∀ ino, rooted.containsInode ino = true → 0 ≤ ino.toInt) ∧
      ∀ path ino, rooted.lookupPath path = some ino → path = "") ∧
    occurred none records = twins ∧
    ∃ report y, ingestDevice rooted none twinsMap (fun _ => false)
        = (.ok (some report), y) ∧
      ownerIno (numbered none records) o = -5 ∧
      ownerPath rooted.separator o = "/$metadata/0:5" ∧
      y.finish.2.lookupPath "/$metadata/0:5" = some (-6) ∧
      y.finish.2.listDirectory (-1) = [("0:5", -6)] ∧
      y.finish.2.pathsOf (-5) = [] ∧
      ¬ y.finish.2.FoundAt (-5) "/$metadata/0:5" (-1) "0:5" := by
  intro records o
  have honly : ∀ path ino, rooted.lookupPath path = some ino →
      path = "" := by
    intro path ino hled
    by_contra hne
    have hnone : (SortedMap.empty.insert "" (2 : Int64)).get? path = none :=
      SortedMap.get?_insert_of_ne _ _ fun h => hne h.symm
    cases hled.symm.trans hnone
  refine ⟨⟨by decide, toInt_of_rooted, honly⟩, by decide, _, _, rfl, rfl,
    by decide, by decide, by decide, by decide, fun hfound => ?_⟩
  have hother := hfound.path_eq
  revert hother
  decide

end Scan

end DiskAtlas

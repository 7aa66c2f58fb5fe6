/-
The guests of a pass over a device, record by record. A record asks for a
place for its owner, and so the owners and files that were put in are those
that the records so far have named (`Housed`). That is why a pass can tell
at any time which inodes had a row before it began
(`Housed.isNamed_eq`).

What is put in for one record depends on the owners met up to the end of the
pass, as they settle the numbers. The lemmas therefore carry the numbers of
the whole pass along (`met`), of which those given so far are a beginning.
-/
import DiskAtlas.Proofs.Scan.Fates

namespace DiskAtlas.Scan

open Mapping

variable {β : Type}

-- =============================================================== numbers

/-- A special owner has the number of its place among those met. -/
theorem number_of_place {met : List SpecialOwner} {o : SpecialOwner}
    {ino : Int64} (hmet : Guest.Numbered met) (hmem : o ∈ met)
    (hino : ino.toInt = -5 - met.idxOf o) :
    Guest.number met (.owner (.special o)) = ino := by
  have hlt := List.idxOf_lt_length_of_mem hmem
  unfold Guest.Numbered at hmet
  rw [Guest.number_special, ← Int64.toInt_inj, hino,
    Guest.toInt_numberAt (by omega)]

theorem ofSpecial_ne_root (o : SpecialOwner) :
    HiddenOwner.ofSpecial o ≠ .root := by
  unfold HiddenOwner.ofSpecial
  split
  · decide
  · split <;> simp

/-- All but two special owners are guests under their own name. -/
theorem ofSpecial_other {o : SpecialOwner}
    (h : o ≠ .free ∧ o ≠ .metadata) :
    HiddenOwner.ofSpecial o = .special o := by
  rw [HiddenOwner.ofSpecial, if_neg h.1, if_neg h.2]

/-- The owners met so far are those that a record may have added to. -/
theorem met_number {n : HiddenNumbers} {wanted : Option UInt32}
    {done : List DeviceRecord} {r : DeviceRecord} {o : SpecialOwner}
    (h : n.met = numbered wanted done) (hr : specialOn wanted r = some o) :
    (n.number (.ofSpecial o)).2.met = numbered wanted (done ++ [r]) := by
  have hmore : occurred wanted (done ++ [r]) =
      if o ∈ occurred wanted done then occurred wanted done
      else occurred wanted done ++ [o] := by
    unfold occurred
    rw [List.filterMap_append, List.filterMap_cons_some hr,
      List.filterMap_nil, eraseDups_snoc]
    simp only [List.mem_eraseDups]
  by_cases hother : o ≠ .free ∧ o ≠ .metadata
  · have hmem : o ∈ n.met ↔ o ∈ occurred wanted done := by
      rw [h, numbered, List.mem_filter]
      exact and_iff_left (decide_eq_true hother)
    rw [ofSpecial_other hother, HiddenNumbers.number_special, numbered,
      hmore]
    dsimp only
    -- a first appearance is numbered behind those before it
    by_cases hold : o ∈ occurred wanted done
    · rw [if_pos hold, if_pos (hmem.2 hold), h]
      rfl
    · rw [if_neg hold, if_neg fun hnew => hold (hmem.1 hnew),
        List.filter_append, h,
        List.filter_cons_of_pos (by exact decide_eq_true hother)]
      rfl
  · -- an owner with a number of its own is not counted
    have hsame : (n.number (.ofSpecial o)).2 = n := by
      by_cases hfree : o = .free
      · subst hfree
        rfl
      · by_cases hmetadata : o = .metadata
        · subst hmetadata
          rfl
        · exact absurd ⟨hfree, hmetadata⟩ hother
    rw [hsame, h, numbered, numbered, hmore]
    split
    · rfl
    · rw [List.filter_append, List.filter_cons_of_neg (by simpa using hother),
        List.filter_nil, List.append_nil]

/-- An owner keeps the number that it gets when it is met. -/
theorem number_stable {n : HiddenNumbers} {o : HiddenOwner}
    {met : List SpecialOwner} (h : (n.number o).2.met <+: met) :
    (n.number o).1 = Guest.number met (.owner o) := by
  cases o with
  | special o =>
    rw [HiddenNumbers.number_special] at h ⊢
    rw [Guest.number_special]
    refine congrArg HiddenNumbers.numberAt ?_
    split at h
    · next hold => exact h.idxOf_eq_of_mem hold
    · next hnew =>
      have hmem : o ∈ n.met ++ [o] :=
        List.mem_append_right _ List.mem_cons_self
      rw [← h.idxOf_eq_of_mem hmem, List.idxOf_append_of_notMem hnew]
      simp [List.idxOf_eq_length hnew]
  | root | metadata | freeSpace | unlinked => rfl

-- ================================================================ guests

/-- Who is asked for a place for a record. -/
def caller (x : Session β) (wanted : Option UInt32) (r : DeviceRecord) :
    Option Guest :=
  ((specialOn wanted r).map fun o => .owner (.ofSpecial o)).or
    ((namelessOn x wanted r).map .file)

/-- Everybody who is asked for a place for some records. -/
def asked (x : Session β) (wanted : Option UInt32)
    (records : List DeviceRecord) : List Guest :=
  (records.filterMap (caller x wanted)).flatMap fun g => g.above ++ [g]

section Callers

variable {x : Session β} {wanted : Option UInt32}
  {records done : List DeviceRecord} {r : DeviceRecord}

/-- A record names a special owner or an inode. -/
theorem namelessOn_of_specialOn {o : SpecialOwner}
    (h : specialOn wanted r = some o) : namelessOn x wanted r = none := by
  unfold specialOn at h
  unfold namelessOn
  split at h
  · cases h
  · next here =>
    rw [if_neg here]
    cases howner : r.owner with
    | special o' => rfl
    | inode raw =>
      rw [howner] at h
      cases h

theorem caller_of_specialOn {o : SpecialOwner}
    (h : specialOn wanted r = some o) :
    caller x wanted r = some (.owner (.ofSpecial o)) := by
  rw [caller, h]
  rfl

theorem specialOn_of_namelessOn {ino : Int64}
    (h : namelessOn x wanted r = some ino) : specialOn wanted r = none := by
  cases hspecial : specialOn wanted r with
  | none => rfl
  | some o =>
    rw [namelessOn_of_specialOn hspecial] at h
    cases h

theorem caller_of_namelessOn {ino : Int64}
    (h : namelessOn x wanted r = some ino) :
    caller x wanted r = some (.file ino) := by
  rw [caller, specialOn_of_namelessOn h, h]
  rfl

/-- A record that names an inode with a row asks for nobody. -/
theorem caller_eq_none {raw : UInt64} (owner : r.owner = .inode raw)
    (hrow : ∀ ino : Int64, ino.toInt = raw.toNat →
      x.containsInode ino = true) : caller x wanted r = none := by
  have hspecial : specialOn wanted r = none := by
    refine Option.eq_none_iff_forall_ne_some.2 fun o ho => ?_
    have hother := (specialOn_eq_some_iff.1 ho).2
    rw [owner] at hother
    cases hother
  have hnameless : namelessOn x wanted r = none := by
    refine Option.eq_none_iff_forall_ne_some.2 fun ino hino => ?_
    obtain ⟨-, raw', howner, hnumber, hnew⟩ := namelessOn_eq_some_iff.1 hino
    rw [owner] at howner
    obtain rfl := DeviceOwner.inode.inj howner
    rw [hrow ino hnumber] at hnew
    cases hnew
  rw [caller, hspecial, hnameless]
  rfl

theorem mem_asked {g : Guest} (hr : r ∈ records)
    (h : caller x wanted r = some g) : g ∈ asked x wanted records := by
  refine List.mem_flatMap.2 ⟨g, List.mem_filterMap.2 ⟨r, hr, h⟩, ?_⟩
  exact List.mem_append_right _ List.mem_cons_self

/-- One record more asks for its guest, and before that for the directories
above it. -/
theorem asked_snoc (x : Session β) (wanted : Option UInt32)
    (done : List DeviceRecord) (r : DeviceRecord) :
    asked x wanted (done ++ [r]) = asked x wanted done ++
      (caller x wanted r).toList.flatMap fun g => g.above ++ [g] := by
  unfold asked
  rw [List.filterMap_append, List.flatMap_append]
  cases h : caller x wanted r with
  | none => simp [h]
  | some g => simp [h]

/-- Files are asked for on their own account only. -/
theorem file_mem_asked {ino : Int64} :
    .file ino ∈ asked x wanted records ↔ ino ∈ nameless x wanted records := by
  have habove : ∀ g : Guest, .file ino ∈ g.above ++ [g] ↔ g = .file ino := by
    intro g
    cases g with
    | owner o => cases o <;> simp [Guest.above]
    | file i => simp [Guest.above, eq_comm]
  unfold asked nameless
  rw [List.mem_eraseDups, List.mem_flatMap]
  simp only [habove, exists_eq_right, List.mem_filterMap]
  refine exists_congr fun r => and_congr_right fun _ => ?_
  constructor
  · intro h
    cases hspecial : specialOn wanted r with
    | some o =>
      rw [caller_of_specialOn hspecial] at h
      cases h
    | none =>
      rw [caller, hspecial] at h
      obtain ⟨i, hi, heq⟩ := Option.map_eq_some_iff.1 h
      exact Guest.file.inj heq ▸ hi
  · exact caller_of_namelessOn

theorem nameless_snoc (x : Session β) (wanted : Option UInt32)
    (done : List DeviceRecord) (r : DeviceRecord) :
    nameless x wanted (done ++ [r]) =
      match namelessOn x wanted r with
      | none => nameless x wanted done
      | some ino =>
        if ino ∈ nameless x wanted done then nameless x wanted done
        else nameless x wanted done ++ [ino] := by
  unfold nameless
  rw [List.filterMap_append]
  cases h : namelessOn x wanted r with
  | none => simp [h]
  | some ino =>
    simp only [List.filterMap_cons_some h, List.filterMap_nil,
      eraseDups_snoc, List.mem_eraseDups]

theorem numbered_snoc_of_none (h : specialOn wanted r = none) :
    numbered wanted (done ++ [r]) = numbered wanted done := by
  unfold numbered occurred
  rw [List.filterMap_append, List.filterMap_cons_none h, List.filterMap_nil,
    List.append_nil]

/-- Those met later are numbered behind those met before, so numbers that were
given stay. -/
theorem prefix_numbered (wanted : Option UInt32)
    (done rest : List DeviceRecord) :
    numbered wanted done <+: numbered wanted (done ++ rest) := by
  unfold numbered occurred
  rw [List.filterMap_append]
  exact (prefix_eraseDups _ _).filter _

end Callers

-- =============================================================== housing

/-- A pass whose guests are those that some records ask for. -/
structure Housed (x : Session β) (wanted : Option UInt32)
    (met : List SpecialOwner) (done : List DeviceRecord)
    (p : DevicePass β) : Prop where
  guests : p.HasGuests x met (asked x wanted done)
  met_eq : p.numbers.met = numbered wanted done
  unlinked_eq : p.unlinked = nameless x wanted done

namespace Housed

variable {x : Session β} {wanted : Option UInt32} {met : List SpecialOwner}
  {done : List DeviceRecord} {r : DeviceRecord} {p : DevicePass β}

/-- A record that asks for nobody. -/
theorem pass (h : Housed x wanted met done p)
    (hr : caller x wanted r = none) : Housed x wanted met (done ++ [r]) p := by
  obtain ⟨hspecial, hnameless⟩ := Option.or_eq_none_iff.1 hr
  rw [Option.map_eq_none_iff] at hspecial hnameless
  refine ⟨?_, ?_, ?_⟩
  · rw [asked_snoc, hr]
    simpa using h.guests
  · rw [numbered_snoc_of_none hspecial]
    exact h.met_eq
  · rw [nameless_snoc, hnameless]
    exact h.unlinked_eq

/-- Rows of extents are nobody's places. -/
theorem push (h : Housed x wanted met done p) (e : Extent) :
    Housed x wanted met done
      { p with session := (p.session.pushExtent e).2 } := by
  have hbefore : Hosts x met (asked x wanted done) p.session p.names :=
    h.guests
  have hguests : Hosts x met (asked x wanted done)
      (p.session.pushExtent e).2 p.names := by
    obtain ⟨-, hpushed⟩ | ⟨-, hpushed⟩ := p.session.pushExtent_cases e
    · rw [hpushed]
      exact { hbefore with }
    · rw [hpushed]
      exact { hbefore with }
  exact ⟨hguests, h.met_eq, h.unlinked_eq⟩

variable (hx : ∀ ino, x.containsInode ino = true → 0 ≤ ino.toInt)
  (hmet : Guest.Numbered met)

include hx hmet

/-- Whether a file was put in before the pass is known throughout. -/
theorem isNamed_eq (h : Housed x wanted met done p) {ino : Int64}
    (hino : 0 ≤ ino.toInt) : p.isNamed ino = x.containsInode ino := by
  have hrow := Hosts.hadRow_iff hx hmet h.guests hino
  rw [file_mem_asked, ← h.unlinked_eq] at hrow
  rw [Bool.eq_iff_iff, hrow, DevicePass.isNamed]
  simp

/-- A record of a special owner gives it a place. -/
theorem attach (h : Housed x wanted met done p) {o : SpecialOwner}
    (hr : specialOn wanted r = some o)
    (hmore : numbered wanted (done ++ [r]) <+: met) :
    (p.attach (.ofSpecial o)).1 = Guest.number met (.owner (.ofSpecial o)) ∧
      p.Beside (p.attach (.ofSpecial o)).2 ∧
      Housed x wanted met (done ++ [r]) (p.attach (.ofSpecial o)).2 := by
  have hnew := met_number h.met_eq hr
  have hspecial : ∀ s, HiddenOwner.ofSpecial o = .special s → s ∈ met := by
    intro s hs
    refine hmore.subset ?_
    rw [← hnew, hs, HiddenNumbers.number_special]
    dsimp only
    split
    · next hmem => exact hmem
    · exact List.mem_append_right _ List.mem_cons_self
  obtain ⟨hino, hbeside, hnumbers, hunlinked, hguests⟩ :=
    DevicePass.attach_hasGuests hx hmet (ofSpecial_ne_root o)
      ⟨HiddenOwner.isProper_ofSpecial o, hspecial⟩
      (number_stable (hnew ▸ hmore)) h.guests
  refine ⟨hino, hbeside, ?_, ?_, ?_⟩
  · rw [asked_snoc, caller_of_specialOn hr]
    simpa [Guest.above_owner (ofSpecial_ne_root o)] using hguests
  · rw [hnumbers, hnew]
  · rw [hunlinked, h.unlinked_eq, nameless_snoc, namelessOn_of_specialOn hr]

/-- A record of an inode without a row gives it a place. -/
theorem attachUnlinked (h : Housed x wanted met done p) {ino : Int64}
    (hr : namelessOn x wanted r = some ino) :
    p.Beside (p.attachUnlinked ino) ∧
      Housed x wanted met (done ++ [r]) (p.attachUnlinked ino) := by
  obtain ⟨-, raw, -, hraw, hrow⟩ := namelessOn_eq_some_iff.1 hr
  have hunlinked : ino ∈ p.unlinked ↔ .file ino ∈ asked x wanted done := by
    rw [file_mem_asked, h.unlinked_eq]
  obtain ⟨hbeside, hnumbers, hfiles, hguests⟩ :=
    DevicePass.attachUnlinked_hasGuests hx hmet ⟨by omega, hrow⟩ hunlinked
      h.guests
  refine ⟨hbeside, ?_, ?_, ?_⟩
  · rw [asked_snoc, caller_of_namelessOn hr]
    simpa [Guest.above] using hguests
  · rw [hnumbers, h.met_eq,
      numbered_snoc_of_none (specialOn_of_namelessOn hr)]
  · rw [hfiles, h.unlinked_eq, nameless_snoc, hr]

end Housed

end DiskAtlas.Scan

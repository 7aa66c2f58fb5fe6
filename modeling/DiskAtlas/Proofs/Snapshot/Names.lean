/-
Names in paths. A path from the top to a plain name goes through nothing
else, so it leads to what is at the name, or to a free place
(`Disk.locate_plain`). Another extension is put behind the last point of a
name; the way to the name stays (`Disk.withExtension_of_name`).

The general lemmas about paths go over all the names on the way and all the
links there may be. These are for the one case that concrete disks need, where
there is one name and no way to go wrong.
-/
import DiskAtlas.Proofs.SortedMap
import DiskAtlas.Proofs.Text.Split
import DiskAtlas.Snapshot.Disk

namespace DiskAtlas

-- ========================================================= plain names

namespace Host

/-- A name that is taken as it stands, wherever it is looked for. -/
structure Plain (name : String) : Prop where
  slash : '/' ∉ name.toList
  zero : '\x00' ∉ name.toList
  proper : name ∉ ["", ".", ".."]
  short : name.utf8ByteSize ≤ longestName

instance : DecidablePred Plain := fun name =>
  decidable_of_iff
    ('/' ∉ name.toList ∧ '\x00' ∉ name.toList ∧ name ∉ ["", ".", ".."] ∧
      name.utf8ByteSize ≤ longestName)
    ⟨fun ⟨slash, zero, proper, short⟩ => ⟨slash, zero, proper, short⟩,
      fun h => ⟨h.slash, h.zero, h.proper, h.short⟩⟩

namespace Plain

variable {name : String}

theorem ne_empty (h : Plain name) : name ≠ "" := by
  rintro rfl
  exact h.proper (by decide)

/-- A plain name does not begin at the top. -/
theorem not_startsWith (h : Plain name) : name.startsWith "/" = false := by
  apply String.startsWith_string_eq_false_iff.2
  intro hbegins
  exact h.slash (hbegins.subset (List.mem_singleton_self _))

/-- What is plain is the last thing in a path. -/
theorem not_endsWith (h : Plain name) :
    ("/" ++ name).endsWith "/" = false := by
  rw [← String.endsWith_toSlice]
  apply String.Slice.endsWith_string_eq_false_iff.2
  intro hsuffix
  rw [String.copy_toSlice, String.toList_append] at hsuffix
  rcases List.suffix_cons_iff.1 hsuffix with hwhole | hrest
  · have hnil : name.toList = [] := (List.cons.inj hwhole).2.symm
    exact h.ne_empty (String.toList_eq_nil_iff.1 hnil)
  · exact h.slash (hrest.subset (List.mem_singleton_self _))

/-- The names in a path to a name from the top. -/
theorem names_eq (h : Plain name) : names ("/" ++ name) = [name] := by
  have hempty : "".splitOn "/" = [""] :=
    Text.splitOn_eq_self (s := "") (c := '/') (by decide)
  have hself : name.splitOn "/" = [name] := Text.splitOn_eq_self h.slash
  have hparts : ("" ++ "/" ++ name).splitOn "/"
      = "".splitOn "/" ++ name.splitOn "/" :=
    Text.splitOn_between "" name '/'
  rw [hempty, hself] at hparts
  rw [names, h.not_endsWith, show ("/" ++ name).splitOn "/" = _ from hparts]
  simp [h.ne_empty]

/-- From the top, a plain name leads to what is at it. -/
theorem follow_eq {h : Host} (hname : Plain name)
    (htop : ¬ h.others.contains (absolute [])) :
    h.follow [] [name]
      = .ok (if h.isThere [name] then .there [name]
        else .missing [name]) := by
  have hproper := hname.proper
  simp only [List.mem_cons, List.not_mem_nil, or_false, not_or] at hproper
  rw [follow, if_neg htop, if_neg hproper.2.1, if_neg hproper.2.2,
    if_neg (Nat.not_lt.2 hname.short)]
  dsimp only [List.nil_append]
  split <;> rfl

end Plain

end Host

namespace Snapshot.Disk

open Host SortedMap

variable {d : Disk} {name : String}

/-- On a disk at the top, a plain name stands below the top. -/
theorem fullPath_plain (hlocation : d.location = "") (hname : Plain name) :
    d.fullPath name = "/" ++ name := by
  rw [fullPath, join, hname.not_startsWith, hlocation]
  simp

/-- The place of a name below the top. -/
theorem absolute_singleton (name : String) : absolute [name] = "/" ++ name := by
  simp [absolute]

theorem others_iff {place : String} : d.host.others.contains place ↔
    ∃ file, d.files.get? place = some file := by
  rw [List.contains_iff_mem]
  constructor
  · intro hmem
    obtain ⟨⟨key, file⟩, hentry, rfl⟩ := List.mem_map.1 hmem
    exact ⟨file, get?_eq_some_iff.2 hentry⟩
  · rintro ⟨file, hget⟩
    exact List.mem_map_of_mem (get?_eq_some_iff.1 hget)

section Plain

variable (hlocation : d.location = "") (hname : Plain name)
  (htop : d.files.get? "/" = none)
include hlocation hname htop

/-- A plain name leads to what is at it, or to a free place. -/
theorem locate_plain :
    d.locate name
      = .ok (if d.host.isThere [name] then .there [name]
        else .missing [name]) := by
  have hzero : ("/" ++ name).contains '\x00' = false := by
    simp [hname.zero]
  have hempty : ("/" ++ name).isEmpty = false := by simp
  have hshort : ¬ longestPath ≤ ("/" ++ name).utf8ByteSize := by
    have hname := hname.short
    rw [String.utf8ByteSize_append]
    unfold longestName at hname
    unfold longestPath
    show ¬ 4096 ≤ 1 + name.utf8ByteSize
    omega
  have hfree : ¬ d.host.others.contains (absolute []) := by
    intro hfile
    obtain ⟨file, hget⟩ := others_iff.1 hfile
    rw [show absolute [] = "/" from rfl, htop] at hget
    cases hget
  rw [locate, fullPath_plain hlocation hname, Host.locate, hzero, hempty,
    if_neg Bool.false_ne_true, if_neg Bool.false_ne_true, if_neg hshort]
  dsimp only
  rw [show d.host.workplace = [] from rfl, ite_self, hname.names_eq]
  exact hname.follow_eq hfree

/-- A plain name of a file that is there leads to it in the top directory. -/
theorem locate_plain_there {file : File}
    (hfile : d.files.get? ("/" ++ name) = some file) :
    d.locate name = .ok (.there [name]) := by
  have hthere : d.host.isThere [name] = true := by
    rw [isThere, absolute_singleton, Bool.or_eq_true]
    exact Or.inr (others_iff.2 ⟨file, hfile⟩)
  rw [locate_plain hlocation hname htop, if_pos hthere]

/-- A plain name of nothing leads to the place where a file of that name would
be put. -/
theorem locate_plain_missing (hfile : d.files.get? ("/" ++ name) = none)
    (hfree : "/" ++ name ∉ d.directories) :
    d.locate name = .ok (.missing [name]) := by
  have hmissing : ¬ d.host.isThere [name] := by
    rw [isThere, isDirectory, absolute_singleton, Bool.or_eq_true]
    rintro (hdirectory | hother)
    · exact hfree (List.contains_iff_mem.1 hdirectory)
    · obtain ⟨file, hget⟩ := others_iff.1 hother
      rw [hfile] at hget
      cases hget
  rw [locate_plain hlocation hname htop, if_neg hmissing]

/-- A file that is at a plain name is found under it. -/
theorem find_plain {file : File}
    (hfile : d.files.get? ("/" ++ name) = some file) :
    d.find name = .ok file := by
  rw [find, locate_plain_there hlocation hname htop hfile]
  dsimp only
  rw [absolute_singleton, hfile]

/-- It can be opened. -/
theorem openFile_plain {file : File}
    (hfile : d.files.get? ("/" ++ name) = some file) :
    d.openFile name = .ok ("/" ++ name, file, d) := by
  rw [openFile, locate_plain_there hlocation hname htop hfile]
  dsimp only
  rw [absolute_singleton, hfile]

/-- A file is made at a free name. -/
theorem openFile_plain_new (hfile : d.files.get? ("/" ++ name) = none)
    (hfree : "/" ++ name ∉ d.directories) :
    d.openFile name
      = .ok ("/" ++ name, { number := d.next },
          { d with
            files := d.files.insert ("/" ++ name) { number := d.next }
            next := d.next + 1 }) := by
  rw [openFile, locate_plain_missing hlocation hname htop hfile hfree]
  dsimp only
  rw [absolute_singleton]

/-- A file is moved to a free name. -/
theorem moveFile_plain_new {place : String} {file : File}
    (hfile : d.files.get? ("/" ++ name) = none)
    (hfree : "/" ++ name ∉ d.directories)
    (hmoved : d.files.get? place = some file) :
    d.moveFile place name
      = .ok { d with
          files := (d.files.erase place).insert ("/" ++ name) file } := by
  have hdirectory : ¬ d.host.isDirectory [name] := by
    rw [isDirectory, absolute_singleton]
    exact fun hdirectory => hfree (List.contains_iff_mem.1 hdirectory)
  rw [moveFile, locate_plain_missing hlocation hname htop hfile hfree, hmoved]
  dsimp only
  rw [if_neg hdirectory, absolute_singleton]

end Plain

-- ========================================================== extensions

/-- A name with a point and something in front of it is a name. -/
theorem isVoid_of_point {stem : String} (hstem : stem ≠ "") (ext : String) :
    isVoid (stem ++ "." ++ ext) = false := by
  generalize hname : stem ++ "." ++ ext = name
  have hlength := congrArg String.length hname
  have hpos : stem.length ≠ 0 := by
    intro hzero
    exact hstem (String.length_eq_zero_iff.1 hzero)
  rw [String.length_append, String.length_append] at hlength
  rw [isVoid, Bool.or_eq_false_iff]
  constructor
  · apply Bool.eq_false_iff.2
    intro hempty
    obtain rfl := String.isEmpty_iff.1 hempty
    rw [String.length_empty] at hlength
    omega
  · apply Bool.eq_false_iff.2
    intro hdot
    obtain rfl := beq_iff_eq.1 hdot
    omega

/-- The name behind the last separator may be replaced by another one. -/
theorem splitOn_way {way name : String}
    (hway : way = "" ∨ ∃ up, way = up ++ "/") (hname : '/' ∉ name.toList) :
    ∃ ups, (way ++ name).splitOn "/" = ups ++ [name] ∧
      ∀ last, "/".intercalate (ups ++ [last]) = way ++ last := by
  have hself : name.splitOn "/" = [name] := Text.splitOn_eq_self hname
  rcases hway with rfl | ⟨up, rfl⟩
  · refine ⟨[], ?_, fun last => ?_⟩
    · simpa using hself
    · simp
  · refine ⟨up.splitOn "/", ?_, fun last => ?_⟩
    · exact (Text.splitOn_between up name '/').trans (congrArg _ hself)
    · rw [String.intercalate_append_of_ne_nil, String.intercalate_singleton]
      · rw [show "/".intercalate (up.splitOn "/") = up
          from Text.intercalate_splitOn up '/']
      · rw [show up.splitOn "/" = _ from Text.splitOn_singleton up '/']
        simp
      · simp

/-- An extension is put behind a name that has none. -/
theorem withExtension_of_stem {way stem : String}
    (hway : way = "" ∨ ∃ up, way = up ++ "/") (hplain : Plain stem)
    (hpoint : '.' ∉ stem.toList) (extension : String) :
    withExtension (way ++ stem) extension
      = way ++ (stem ++ "." ++ extension) := by
  obtain ⟨ups, hups, hback⟩ := splitOn_way hway hplain.slash
  have hpieces : stem.splitOn "." = [stem] := Text.splitOn_eq_self hpoint
  have hproper := hplain.proper
  simp only [List.mem_cons, List.not_mem_nil, or_false, not_or] at hproper
  have hvoid : isVoid stem = false := by simp [isVoid, hproper]
  unfold withExtension
  simp [hups, hvoid, hpieces, hproper, hback, String.append_assoc]

/-- Another extension is put behind the last point of a name; the
directory stays. -/
theorem withExtension_of_name {way stem ext : String}
    (hway : way = "" ∨ ∃ up, way = up ++ "/") (hstem : stem ≠ "")
    (hext : '.' ∉ ext.toList) (hname : '/' ∉ (stem ++ "." ++ ext).toList)
    (hup : stem ++ "." ++ ext ≠ "..") (extension : String) :
    withExtension (way ++ (stem ++ "." ++ ext)) extension
      = way ++ (stem ++ "." ++ extension) := by
  obtain ⟨ups, hups, hback⟩ := splitOn_way hway hname
  have hvoid := isVoid_of_point hstem ext
  have hpieces : (stem ++ "." ++ ext).splitOn "." = stem.splitOn "." ++ [ext] :=
    (Text.splitOn_between stem ext '.').trans
      (congrArg _ (Text.splitOn_eq_self hext))
  have hstem' : ".".intercalate (stem.splitOn ".") = stem :=
    Text.intercalate_splitOn stem '.'
  generalize stem ++ "." ++ ext = name at *
  unfold withExtension
  simp [hups, hvoid, hpieces, hstem', hup, hback, String.append_assoc, hstem]

-- ============================================================ replacing

/-- A file is put at a free name if the name beside it is free too. -/
theorem replaceFile_plain_new {beside : String} (hlocation : d.location = "")
    (hname : Plain name) (hextended : withExtension name "tmp" = beside)
    (hbeside : Plain beside) (hne : beside ≠ name)
    (htop : d.files.get? "/" = none)
    (hfile : d.files.get? ("/" ++ name) = none)
    (hfile' : d.files.get? ("/" ++ beside) = none)
    (hfree : "/" ++ name ∉ d.directories)
    (hfree' : "/" ++ beside ∉ d.directories) (bytes : List UInt8) :
    (d.replaceFile name bytes).1 = .ok () := by
  have hopened := openFile_plain_new hlocation hbeside htop hfile' hfree'
  let file : File := { number := d.next, bytes }
  let written : Disk :=
    { d with
      files := (d.files.insert ("/" ++ beside) { number := d.next }).insert
        ("/" ++ beside) file
      next := d.next + 1 }
  have hwritten : d.writeFile beside bytes
      = .ok ("/" ++ beside, written) := by
    rw [writeFile, hopened]
  -- what was written is all that is new
  have hother {place : String} (hplace : "/" ++ beside ≠ place) :
      written.files.get? place = d.files.get? place := by
    rw [get?_insert_of_ne _ _ hplace, get?_insert_of_ne _ _ hplace]
  have htop' : written.files.get? "/" = none := by
    rw [hother (by simpa using hbeside.ne_empty)]
    exact htop
  have hgone : written.files.get? ("/" ++ name) = none := by
    rw [hother (by simpa using hne)]
    exact hfile
  have hput : written.files.get? ("/" ++ beside) = some file :=
    get?_insert_self ..
  have hmoved := moveFile_plain_new (d := written) hlocation hname htop'
    hgone hfree hput
  rw [replaceFile, hextended, hwritten]
  dsimp only
  rw [hmoved]

end Snapshot.Disk

end DiskAtlas

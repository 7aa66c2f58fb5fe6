/-
What is saved is found. A path is followed from directory to directory, so
files that are put where no directory is do not change the way to what is
there (`Host.follow_kept`), and a path leads to the file that is put where
it leads (`Disk.find_replaceFile`).

`Grows` is what all changes to a disk have in common as far as paths go, and
every lemma about following a path asks for no more. The changes themselves
are shown to be of this kind once, where they are made.
-/
import DiskAtlas.Proofs.SortedMap
import DiskAtlas.Snapshot.Disk

namespace DiskAtlas

-- =============================================================== paths

namespace Host

/-- The names that lead to a place, whether something is there or not. -/
def Place.names : Place → List String
  | .there names | .missing names => names

/-- A place that a path can go through: there is something at it, and a
directory everywhere on the way to it. -/
structure Reached (h : Host) (here : List String) : Prop where
  there : h.isThere here = true
  way : ∀ names, names <+: here → names ≠ here → h.isDirectory names = true

/-- A place that is left is a directory, like those on the way to it. -/
theorem Reached.isDirectory {h : Host} {here : List String}
    (hhere : h.Reached here) (hleft : ¬ h.others.contains (absolute here))
    {names : List String} (hnames : names <+: here) :
    h.isDirectory names = true := by
  by_cases hsame : names = here
  · subst hsame
    exact (Bool.or_eq_true_iff.1 hhere.there).resolve_right hleft
  · exact hhere.way names hnames hsame

/-- A host with the directories of another one, and with new objects only
where there is no directory. Objects may be gone. -/
structure Grows (h h' : Host) : Prop where
  directories : h'.directories = h.directories
  others : ∀ path, h'.others.contains path →
    h.others.contains path ∨ ¬ h.directories.contains path

namespace Grows

variable {h h' h'' : Host}

theorem isDirectory_eq (hgrows : h.Grows h') (names : List String) :
    h'.isDirectory names = h.isDirectory names := by
  rw [isDirectory, isDirectory, hgrows.directories]

/-- Nothing is put where a path leaves a place. -/
theorem leaves (hgrows : h.Grows h') {here : List String}
    (hhere : h.Reached here) (hleft : ¬ h.others.contains (absolute here)) :
    ¬ h'.others.contains (absolute here) := by
  intro hput
  rcases hgrows.others _ hput with hwas | hfree
  · exact hleft hwas
  · exact hfree (hhere.isDirectory hleft List.prefix_rfl)

theorem trans (hgrows : h.Grows h') (hgrows' : h'.Grows h'') :
    h.Grows h'' := by
  refine ⟨hgrows'.directories.trans hgrows.directories, fun path hput => ?_⟩
  rcases hgrows'.others path hput with hwas | hfree
  · exact hgrows.others path hwas
  · rw [hgrows.directories] at hfree
    exact Or.inr hfree

end Grows

/-- A host with one more object at a place that is no directory, and
perhaps without others. -/
structure Puts (h h' : Host) (target : String) : Prop where
  directories : h'.directories = h.directories
  others : ∀ path, h'.others.contains path →
    h.others.contains path ∨ path = target
  free : ¬ h.directories.contains target
  put : h'.others.contains target

theorem Puts.grows {h h' : Host} {target : String}
    (hputs : h.Puts h' target) : h.Grows h' := by
  refine ⟨hputs.directories, fun path hput => ?_⟩
  rcases hputs.others path hput with hwas | rfl
  · exact Or.inl hwas
  · exact Or.inr hputs.free

/-- A path that goes on leaves a directory. -/
theorem not_others_of_follow {h : Host} {here : List String} {name : String}
    {rest : List String} {dest : Place}
    (hdest : h.follow here (name :: rest) = .ok dest) :
    ¬ h.others.contains (absolute here) := by
  intro hfile
  rw [follow, if_pos hfile] at hdest
  cases hdest

/-- The way to a place stays the same as long as something is there. -/
theorem follow_kept {h h' : Host} {here rest : List String} {dest : Place}
    (hdest : h.follow here rest = .ok dest) (hgrows : h.Grows h')
    (hkept : h'.isThere dest.names = true) (hhere : h.Reached here) :
    h'.follow here rest = .ok (.there dest.names) := by
  fun_induction follow h here rest with
  | case1 here =>
    -- the path ends here
    obtain rfl := Except.ok.inj hdest
    rfl
  | case2 here name rest hfile => cases hdest
  | case3 here rest hfile ih =>
    -- the path stays here
    rw [follow, if_neg (hgrows.leaves hhere hfile), if_pos rfl]
    exact ih hdest hhere
  | case4 here rest hfile hdot ih =>
    -- the path goes up
    rw [follow, if_neg (hgrows.leaves hhere hfile), if_neg hdot, if_pos rfl]
    refine ih hdest ⟨?_, fun names hnames _ => ?_⟩
    · exact Bool.or_eq_true_iff.2 <| Or.inl <|
        hhere.isDirectory hfile here.dropLast_prefix
    · exact hhere.isDirectory hfile (hnames.trans here.dropLast_prefix)
  | case5 => cases hdest
  | case6 here name rest hfile hdot hup hlong next hthere ih =>
    -- the path goes down to something that was there before
    have hnext : h.Reached next := by
      refine ⟨hthere, fun names hnames hne => ?_⟩
      have hway := (List.prefix_concat_iff.1 hnames).resolve_left hne
      exact hhere.isDirectory hfile hway
    have hthere' : h'.isThere next = true := by
      cases rest with
      | nil =>
        obtain rfl := Except.ok.inj hdest
        exact hkept
      | cons name rest =>
        have hleft := not_others_of_follow hdest
        rw [isThere, hgrows.isDirectory_eq, Bool.or_eq_true]
        exact Or.inl (hnext.isDirectory hleft List.prefix_rfl)
    rw [follow, if_neg (hgrows.leaves hhere hfile), if_neg hdot, if_neg hup,
      if_neg hlong]
    dsimp only
    rw [if_pos hthere']
    exact ih hdest hnext
  | case7 here name rest hfile hdot hup hlong next hmissing hlast =>
    -- the path ends at a name that was free, where something is now
    obtain rfl := Except.ok.inj hdest
    obtain rfl := List.isEmpty_iff.1 hlast
    have hthere' : h'.isThere next = true := hkept
    rw [follow, if_neg (hgrows.leaves hhere hfile), if_neg hdot, if_neg hup,
      if_neg hlong]
    dsimp only
    rw [if_pos hthere']
    rfl
  | case8 => cases hdest

/-- A path from the top leads where it led before as long as something is
there. -/
theorem locate_kept {h h' : Host} {path : String} {dest : Place}
    (hdest : h.locate path = .ok dest) (hgrows : h.Grows h')
    (hkept : h'.isThere dest.names = true)
    (hworkplace : h.workplace = [] ∧ h'.workplace = [])
    (htop : h.isDirectory [] = true) :
    h'.locate path = .ok (.there dest.names) := by
  have hstart : h.Reached [] := by
    refine ⟨Bool.or_eq_true_iff.2 (Or.inl htop), fun names hnames hne => ?_⟩
    exact absurd (List.prefix_nil.1 hnames) hne
  unfold locate at hdest ⊢
  rw [hworkplace.1, ite_self] at hdest
  rw [hworkplace.2, ite_self]
  split at hdest
  · cases hdest
  · next hzero =>
    split at hdest
    · cases hdest
    · next hempty =>
      split at hdest
      · cases hdest
      · next hlong =>
        rw [if_neg hzero, if_neg hempty, if_neg hlong]
        exact follow_kept hdest hgrows hkept hstart

/-- A path leads to what is put where it leads to. -/
theorem locate_put {h h' : Host} {path : String} {dest : Place}
    (hdest : h.locate path = .ok dest)
    (hputs : h.Puts h' (absolute dest.names))
    (hworkplace : h.workplace = [] ∧ h'.workplace = [])
    (htop : h.isDirectory [] = true) :
    h'.locate path = .ok (.there dest.names) :=
  locate_kept hdest hputs.grows (Bool.or_eq_true_iff.2 (Or.inr hputs.put))
    hworkplace htop

end Host

-- =============================================================== files

namespace Snapshot.Disk

open SortedMap

variable {d d' : Disk} {path : String}

/-- Opening a file makes no directory. -/
theorem openFile_eq {place : String} {file : File}
    (h : d.openFile path = .ok (place, file, d')) :
    d'.directories = d.directories := by
  unfold openFile at h
  split at h
  · cases h
  · dsimp only at h
    split at h
    · obtain ⟨-, -, rfl⟩ := Prod.mk.inj (Except.ok.inj h)
      rfl
    · cases h
  · obtain ⟨-, -, rfl⟩ := Prod.mk.inj (Except.ok.inj h)
    rfl

/-- What is written is at the place that is told. -/
theorem writeFile_eq {bytes : List UInt8} {place : String}
    (h : d.writeFile path bytes = .ok (place, d')) :
    (∃ file, d'.files.get? place = some file ∧ file.bytes = bytes) ∧
      d'.directories = d.directories := by
  unfold writeFile at h
  split at h
  · cases h
  · next opened hopened =>
    obtain ⟨rfl, rfl⟩ := Prod.mk.inj (Except.ok.inj h)
    have hdirectories := openFile_eq hopened
    exact ⟨⟨_, get?_insert_self .., rfl⟩, hdirectories⟩

/-- A file is moved to where a path leads, if no directory is there. -/
theorem moveFile_eq {place : String} {file : File}
    (hfile : d.files.get? place = some file)
    (h : d.moveFile place path = .ok d') :
    ∃ dest, d.locate path = .ok dest ∧ d.host.isDirectory dest.names = false ∧
      d' = { d with files :=
        (d.files.erase place).insert (Host.absolute dest.names) file } := by
  unfold moveFile at h
  rw [hfile] at h
  cases hdest : d.locate path with
  | error e =>
    rw [hdest] at h
    cases h
  | ok dest =>
    rw [hdest] at h
    refine ⟨dest, rfl, ?_⟩
    cases dest with
    | there names | missing names =>
      dsimp only at h
      split at h
      · cases h
      · next hfree =>
        obtain rfl := Except.ok.inj h
        exact ⟨Bool.eq_false_iff.2 hfree, rfl⟩

/-- What is put in a map under a key is the only key that is new. -/
theorem mem_keys_move {files : SortedMap String File} {place dest : String}
    {file : File} {path : String} :
    path ∈ ((files.erase place).insert dest file).keys →
      path ∈ files.keys ∨ path = dest := by
  intro hpath
  obtain ⟨⟨key, moved⟩, hentry, rfl⟩ := List.mem_map.1 hpath
  rcases mem_entries_insert.1 hentry with ⟨rfl, -⟩ | ⟨-, hold⟩
  · exact Or.inr rfl
  · exact Or.inl (List.mem_map_of_mem (List.mem_filter.1 hold).1)

/-- A path leads to the file that was moved there. -/
theorem find_moveFile (htop : d.host.isDirectory [] = true) {place : String}
    {file : File} (hfile : d.files.get? place = some file)
    (h : d.moveFile place path = .ok d') : d'.find path = .ok file := by
  obtain ⟨dest, hdest, hfree, rfl⟩ := moveFile_eq hfile h
  have hput := get?_insert_self (d.files.erase place)
    (Host.absolute dest.names) file
  have hputs : d.host.Puts
      (Disk.host { d with files :=
        (d.files.erase place).insert (Host.absolute dest.names) file })
      (Host.absolute dest.names) := by
    refine ⟨rfl, fun key hkey => ?_, ?_, ?_⟩
    · have hkeys := mem_keys_move (List.contains_iff_mem.1 hkey)
      exact hkeys.imp_left List.contains_iff_mem.2
    · exact Bool.eq_false_iff.1 hfree
    · exact List.contains_iff_mem.2 <|
        List.mem_map_of_mem (get?_eq_some_iff.1 hput)
  unfold find
  have hlocate := Host.locate_put hdest hputs ⟨rfl, rfl⟩ htop
  rw [show locate _ path = _ from hlocate]
  dsimp only
  rw [hput]

/-- A path leads to the file that replaced what was there. -/
theorem find_replaceFile {bytes : List UInt8}
    (htop : d.host.isDirectory [] = true)
    (h : d.replaceFile path bytes = (.ok (), d')) :
    ∃ file, d'.find path = .ok file ∧ file.bytes = bytes := by
  unfold replaceFile at h
  split at h
  · cases h
  · next place d₁ hwritten =>
    obtain ⟨⟨file, hfile, hbytes⟩, hdirectories⟩ :=
      writeFile_eq hwritten
    have htop₁ : d₁.host.isDirectory [] = true := by
      rw [← htop]
      exact congrArg (·.contains (Host.absolute [])) hdirectories
    split at h
    · cases h
    · next d₂ hmoved =>
      obtain rfl := (Prod.mk.inj h).2
      exact ⟨file, find_moveFile htop₁ hfile hmoved, hbytes⟩

end Snapshot.Disk

end DiskAtlas

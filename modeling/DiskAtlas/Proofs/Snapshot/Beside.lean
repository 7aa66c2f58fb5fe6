/-
What a save does to other files. A path leads to one place, whatever is on
the disk (`Disk.locate_placeOf`). A save writes the file beside the
snapshot, which has the name of the snapshot with another extension, and
moves it; so it changes what is at these two places, and every path that
leads elsewhere leads to the file that it led to (`Disk.find_of_spares`).
That holds wherever a save stops, and one that stops before the file is
moved leaves the snapshot as it was. But the file beside a snapshot need
not be its own: whatever stands there is lost (`OpenFile.save_spares`).
-/
import DiskAtlas.Proofs.Snapshot.File

namespace DiskAtlas

-- =============================================================== places

namespace Host

/-- The names that some names lead to from a place, if they lead
anywhere. -/
def target (here : List String) : List String → List String
  | [] => here
  | name :: rest =>
    if name = "." then target here rest
    else if name = ".." then target here.dropLast rest
    else target (here ++ [name]) rest

/-- Where a path leads does not depend on the host. -/
theorem follow_target {h : Host} {here rest : List String} {dest : Place}
    (hdest : h.follow here rest = .ok dest) :
    dest.names = target here rest := by
  fun_induction follow h here rest with
  | case1 here =>
    obtain rfl := Except.ok.inj hdest
    rfl
  | case2 => cases hdest
  | case3 here rest hfile ih =>
    rw [target, if_pos rfl]
    exact ih hdest
  | case4 here rest hfile hdot ih =>
    rw [target, if_neg hdot, if_pos rfl]
    exact ih hdest
  | case5 => cases hdest
  | case6 here name rest hfile hdot hup hlong next hthere ih =>
    rw [target, if_neg hdot, if_neg hup]
    exact ih hdest
  | case7 here name rest hfile hdot hup hlong next hmissing hlast =>
    obtain rfl := Except.ok.inj hdest
    obtain rfl := List.isEmpty_iff.1 hlast
    rw [target, if_neg hdot, if_neg hup]
    rfl
  | case8 => cases hdest

/-- What is missing is not there. -/
theorem follow_missing {h : Host} {here rest names : List String}
    (hdest : h.follow here rest = .ok (.missing names)) :
    h.isThere names = false := by
  fun_induction follow h here rest with
  | case1 | case2 | case5 | case8 => cases hdest
  | case3 here rest hfile ih => exact ih hdest
  | case4 here rest hfile hdot ih => exact ih hdest
  | case6 here name rest hfile hdot hup hlong next hthere ih => exact ih hdest
  | case7 here name rest hfile hdot hup hlong next hmissing hlast =>
    obtain rfl := Place.missing.inj (Except.ok.inj hdest)
    exact Bool.eq_false_iff.2 hmissing

/-- A path that leads somewhere is followed from where it begins. -/
theorem follow_of_locate {h : Host} {path : String} {dest : Place}
    (hdest : h.locate path = .ok dest) (hworkplace : h.workplace = []) :
    h.follow [] (names path) = .ok dest := by
  unfold locate at hdest
  rw [hworkplace, ite_self] at hdest
  split at hdest
  · cases hdest
  · split at hdest
    · cases hdest
    · split at hdest
      · cases hdest
      · exact hdest

end Host

namespace Snapshot

namespace Disk

open SortedMap

variable {d d' d'' : Disk} {path place : String} {file : File}
  {touched : List String}

/-- The place that a path leads to, if it leads anywhere. -/
def placeOf (d : Disk) (path : String) : String :=
  Host.absolute (Host.target [] (Host.names (d.fullPath path)))

theorem locate_placeOf {dest : Host.Place} (h : d.locate path = .ok dest) :
    Host.absolute dest.names = d.placeOf path := by
  have hfollow := Host.follow_of_locate h rfl
  exact congrArg Host.absolute (Host.follow_target hfollow)

/-- A file that is found stands at the place that the path leads to. -/
theorem get?_of_find (h : d.find path = .ok file) :
    ∃ names, d.locate path = .ok (.there names) ∧
      d.files.get? (Host.absolute names) = some file := by
  unfold find at h
  cases hdest : d.locate path with
  | error e =>
    rw [hdest] at h
    cases h
  | ok dest =>
    rw [hdest] at h
    cases dest with
    | missing names => cases h
    | there names =>
      refine ⟨names, rfl, ?_⟩
      dsimp only at h
      split at h
      · next found hfound =>
        obtain rfl := Except.ok.inj h
        exact hfound
      · cases h

theorem get?_placeOf (h : d.find path = .ok file) :
    d.files.get? (d.placeOf path) = some file := by
  obtain ⟨names, hdest, hget⟩ := get?_of_find h
  rw [← locate_placeOf hdest]
  exact hget

-- ========================================================== what changes

/-- A disk with other files at some places. A place where there was no file
and now is one is no directory. -/
structure Spares (d d' : Disk) (touched : List String) : Prop where
  name : d'.name = d.name
  location : d'.location = d.location
  directories : d'.directories = d.directories
  files : ∀ place ∉ touched, d'.files.get? place = d.files.get? place
  free : ∀ place, d'.host.others.contains place →
    d.host.others.contains place ∨ ¬ d.directories.contains place

namespace Spares

theorem refl (d : Disk) (touched : List String) : d.Spares d touched :=
  ⟨rfl, rfl, rfl, fun _ _ => rfl, fun _ hfile => Or.inl hfile⟩

theorem mono {touched' : List String} (h : d.Spares d' touched)
    (hmore : touched ⊆ touched') : d.Spares d' touched' :=
  ⟨h.name, h.location, h.directories,
    fun place hplace => h.files place fun hmem => hplace (hmore hmem), h.free⟩

theorem trans (h : d.Spares d' touched) (h' : d'.Spares d'' touched) :
    d.Spares d'' touched := by
  refine ⟨h'.name.trans h.name, h'.location.trans h.location,
    h'.directories.trans h.directories, fun place hplace => ?_,
    fun place hfile => ?_⟩
  · exact (h'.files place hplace).trans (h.files place hplace)
  · rcases h'.free place hfile with hwas | hfree
    · exact h.free place hwas
    · rw [h.directories] at hfree
      exact Or.inr hfree

/-- A spared disk has its directories and links where they were, so a path
leads to the same place before and after. -/
theorem placeOf_eq (h : d.Spares d' touched) (path : String) :
    d'.placeOf path = d.placeOf path := by
  unfold placeOf fullPath
  rw [h.location]

/-- A file is put where one is, or where no directory is. -/
theorem of_insert (new : File) (hname : d'.name = d.name)
    (hlocation : d'.location = d.location)
    (hdirectories : d'.directories = d.directories)
    (hfiles : d'.files = d.files.insert place new)
    (hplace : d.host.others.contains place ∨
      ¬ d.directories.contains place) : d.Spares d' [place] := by
  refine ⟨hname, hlocation, hdirectories, fun other hother => ?_,
    fun other hfile => ?_⟩
  · rw [List.mem_singleton] at hother
    rw [hfiles]
    exact get?_insert_of_ne d.files new (Ne.symm hother)
  · by_cases hsame : other = place
    · subst hsame
      exact hplace
    · obtain ⟨file, hget⟩ := others_iff.1 hfile
      rw [hfiles, get?_insert_of_ne d.files new (Ne.symm hsame)] at hget
      exact Or.inl (others_iff.2 ⟨file, hget⟩)

/-- A file is taken away. -/
theorem of_erase (hname : d'.name = d.name)
    (hlocation : d'.location = d.location)
    (hdirectories : d'.directories = d.directories)
    (hfiles : d'.files = d.files.erase place) : d.Spares d' [place] := by
  refine ⟨hname, hlocation, hdirectories, fun other hother => ?_,
    fun other hfile => ?_⟩
  · rw [List.mem_singleton] at hother
    rw [hfiles]
    exact get?_erase_of_ne d.files (Ne.symm hother)
  · obtain ⟨file, hget⟩ := others_iff.1 hfile
    have hne : place ≠ other := by
      intro hsame
      rw [hfiles, hsame, get?_erase_self] at hget
      cases hget
    rw [hfiles, get?_erase_of_ne d.files hne] at hget
    exact Or.inl (others_iff.2 ⟨file, hget⟩)

end Spares

/-- A path that leads to none of the places that change leads to the file
that it led to. -/
theorem find_of_spares (htop : d.host.isDirectory [] = true)
    (h : d.Spares d' touched) (hfound : d.find path = .ok file)
    (hother : d.placeOf path ∉ touched) : d'.find path = .ok file := by
  obtain ⟨names, hdest, hget⟩ := get?_of_find hfound
  have hplace : Host.absolute names = d.placeOf path := locate_placeOf hdest
  have hget' : d'.files.get? (Host.absolute names) = some file := by
    rw [h.files _ (hplace ▸ hother)]
    exact hget
  have hkept : d'.host.isThere names = true :=
    Bool.or_eq_true_iff.2 (Or.inr (others_iff.2 ⟨file, hget'⟩))
  have hdest' : d'.locate path = .ok (.there names) := by
    unfold locate fullPath
    rw [h.location]
    exact Host.locate_kept hdest ⟨h.directories, h.free⟩ hkept ⟨rfl, rfl⟩ htop
  unfold find
  rw [hdest']
  dsimp only
  rw [hget']

-- ================================================================= steps

/-- A file is opened where the path leads, and made if it is missing. -/
theorem spares_of_openFile (h : d.openFile path = .ok (place, file, d')) :
    place = d.placeOf path ∧ d.Spares d' [place] ∧
      d'.files.get? place = some file := by
  unfold openFile at h
  cases hdest : d.locate path with
  | error e =>
    rw [hdest] at h
    cases h
  | ok dest =>
    have hplace := locate_placeOf hdest
    rw [hdest] at h
    cases dest with
    | there names =>
      dsimp only at h
      split at h
      · next found hfound =>
        obtain ⟨rfl, hrest⟩ := Prod.mk.inj (Except.ok.inj h)
        obtain ⟨rfl, rfl⟩ := Prod.mk.inj hrest
        exact ⟨hplace, Spares.refl d _, hfound⟩
      · cases h
    -- a new file is put where no file and no directory was
    | missing names =>
      obtain ⟨rfl, hrest⟩ := Prod.mk.inj (Except.ok.inj h)
      obtain ⟨rfl, rfl⟩ := Prod.mk.inj hrest
      have hfollow := Host.follow_of_locate hdest rfl
      have hmissing := Host.follow_missing hfollow
      rw [Host.isThere, Bool.or_eq_false_iff] at hmissing
      refine ⟨hplace, ?_, get?_insert_self ..⟩
      refine Spares.of_insert { number := d.next } rfl rfl rfl rfl ?_
      exact Or.inr (Bool.eq_false_iff.1 hmissing.1)

/-- What is written is opened before. -/
theorem opened_of_writeFile {bytes : List UInt8}
    (h : d.writeFile path bytes = .ok (place, d')) :
    ∃ file opened, d.openFile path = .ok (place, file, opened) ∧
      d' = { opened with
        files := opened.files.insert place { file with bytes } } := by
  unfold writeFile at h
  cases hopened : d.openFile path with
  | error e =>
    rw [hopened] at h
    cases h
  | ok opened =>
    obtain ⟨_, file, opened⟩ := opened
    rw [hopened] at h
    obtain ⟨rfl, rfl⟩ := Prod.mk.inj (Except.ok.inj h)
    exact ⟨file, opened, rfl, rfl⟩

/-- A file that is there is written. -/
theorem spares_write (hfile : d.files.get? place = some file)
    (bytes : List UInt8) :
    d.Spares { d with files := d.files.insert place { file with bytes } }
      [place] := by
  refine Spares.of_insert { file with bytes } rfl rfl rfl rfl ?_
  exact Or.inl (others_iff.2 ⟨file, hfile⟩)

/-- A file is moved to where the path leads; there is none where it was,
unless the path leads there. -/
theorem spares_of_moveFile (hfile : d.files.get? place = some file)
    (h : d.moveFile place path = .ok d') :
    d.Spares d' [d.placeOf path, place] ∧
      (d.placeOf path ≠ place → d'.files.get? place = none) := by
  obtain ⟨dest, hdest, hfree, rfl⟩ := moveFile_eq hfile h
  rw [locate_placeOf hdest]
  constructor
  · have herase : d.Spares { d with files := d.files.erase place } [place] :=
      Spares.of_erase rfl rfl rfl rfl
    have hinsert : Spares { d with files := d.files.erase place }
        { d with files :=
          (d.files.erase place).insert (Host.absolute dest.names) file }
        [Host.absolute dest.names] := by
      refine Spares.of_insert file rfl rfl rfl rfl ?_
      exact Or.inr (Bool.eq_false_iff.1 hfree)
    rw [← locate_placeOf hdest]
    apply Spares.trans (herase.mono (by simp))
    exact hinsert.mono (by simp)
  · intro hne
    rw [get?_insert_of_ne _ file hne]
    exact get?_erase_self d.files place

/-- A file is moved over another one. -/
theorem exists_moveFile {other : File}
    (hfile : d.files.get? place = some file)
    (hfound : d.find path = .ok other)
    (hfree : d.placeOf path ∉ d.directories) :
    ∃ moved, d.moveFile place path = .ok moved := by
  obtain ⟨names, hdest, -⟩ := get?_of_find hfound
  have hnot : ¬ d.host.isDirectory names = true := by
    intro hdir
    apply hfree
    rw [← locate_placeOf hdest]
    exact List.contains_iff_mem.1 hdir
  unfold moveFile
  rw [hdest, hfile]
  exact ⟨_, if_neg hnot⟩

end Disk

-- ================================================================= saves

namespace OpenFile

open Disk

variable {f f' : OpenFile} {state : Persisted}

/-- The path of the file that a save writes before it is moved. -/
def besidePath (path : String) : String := withExtension path "tmp"

/-- The place of the snapshot. -/
def place (f : OpenFile) : String := f.disk.placeOf f.path

/-- The place of the file beside the snapshot. -/
def beside (f : OpenFile) : String := f.disk.placeOf (besidePath f.path)

/-- What a save may leave if it stops before the file beside the snapshot is
moved: nothing is changed, or the file is open and some bytes are in it. -/
inductive CutShort (f : OpenFile) : OpenFile → Prop
  | unopened : CutShort f f
  | written {place : String} {file : File} {disk : Disk}
      (opened : f.disk.openFile (besidePath f.path) = .ok (place, file, disk))
      (bytes : List UInt8) :
      CutShort f
        { f with disk :=
          { disk with files := disk.files.insert place { file with bytes } } }

/-- A save that stops early changes the file beside the snapshot at
most. -/
theorem CutShort.spares (h : f.CutShort f') :
    f'.path = f.path ∧ f.disk.Spares f'.disk [f.beside] := by
  cases h with
  | unopened => exact ⟨rfl, Spares.refl _ _⟩
  | written opened bytes =>
    obtain ⟨rfl, hopen, hfile⟩ := spares_of_openFile opened
    exact ⟨rfl, hopen.trans (spares_write hfile bytes)⟩

/-- What a save leaves that goes through: the file beside the snapshot is at
the snapshot's place now. -/
structure Moved (f f' : OpenFile) : Prop where
  spares : f.disk.Spares f'.disk [f.place, f.beside]
  gone : f.place ≠ f.beside → f'.disk.files.get? f.beside = none

/-- Nothing is left beside the snapshot. -/
theorem Moved.not_found (h : f.Moved f') (hown : f.place ≠ f.beside)
    {path : String} (hpath : f.disk.placeOf path = f.beside) (file : File) :
    f'.disk.find path ≠ .ok file := by
  intro hfound
  have hget := get?_placeOf hfound
  rw [h.spares.placeOf_eq, hpath, h.gone hown] at hget
  cases hget

section Saves

variable [Packer]

/-- How a save may end: as a whole, or cut short with an error. -/
inductive Ends (f : OpenFile) (state : Persisted) :
    Except Error Unit → OpenFile → Prop
  | whole : Ends f state (f.save state).1 (f.save state).2
  | cut {f' : OpenFile} (stopped : f.CutShort f') (e : Error) :
      Ends f state (.error e) f'

/-- A save that stops early keeps the snapshot that is there, unless the
file beside it is at its own place. -/
theorem CutShort.load_eq {file : File}
    (htop : f.disk.host.isDirectory [] = true) (h : f.CutShort f')
    (hown : f.place ≠ f.beside) (hfound : f.disk.find f.path = .ok file) :
    f'.disk.find f'.path = .ok file ∧ f'.load = f.load := by
  obtain ⟨hpath, hspares⟩ := h.spares
  have hfound' : f'.disk.find f'.path = .ok file := by
    rw [hpath]
    apply find_of_spares htop hspares hfound
    show f.place ∉ [f.beside]
    simpa using hown
  refine ⟨hfound', ?_⟩
  rw [OpenFile.load_eq hfound, OpenFile.load_eq hfound', location, location,
    hpath, fullName, fullName, hspares.name]

/-- A save that is not cut short moves the file beside the snapshot. -/
theorem save_cases {r : Except Error Unit} (h : f.save state = (r, f')) :
    (f.CutShort f' ∧ r ≠ .ok ()) ∨ (r = .ok () ∧ f.Moved f') := by
  unfold save at h
  split at h
  · -- a reader saves nothing
    obtain ⟨rfl, rfl⟩ := Prod.mk.inj h
    exact Or.inl ⟨.unopened, nofun⟩
  · dsimp only at h
    unfold replaceFile at h
    -- the bytes go beside the file first
    cases hwritten : f.disk.writeFile (besidePath f.path)
        (Content.ofState f.disk.time state).write with
    | error e =>
      rw [show f.disk.writeFile (withExtension f.path "tmp") _ = _
        from hwritten] at h
      obtain ⟨rfl, rfl⟩ := Prod.mk.inj h
      exact Or.inl ⟨.unopened, nofun⟩
    | ok written =>
      obtain ⟨place, disk⟩ := written
      obtain ⟨file, disk, hopened, rfl⟩ := opened_of_writeFile hwritten
      have hcut := CutShort.written hopened
        (Content.ofState f.disk.time state).write
      rw [show f.disk.writeFile (withExtension f.path "tmp") _ = _
        from hwritten] at h
      dsimp only at h
      split at h
      · next e hmove =>
        obtain ⟨rfl, rfl⟩ := Prod.mk.inj h
        exact Or.inl ⟨hcut, nofun⟩
      · -- the only way in which the file itself changes
        next moved hmove =>
        obtain ⟨rfl, rfl⟩ := Prod.mk.inj h
        obtain ⟨-, hspares⟩ := hcut.spares
        obtain ⟨hmoved, hgone⟩ :=
          spares_of_moveFile (SortedMap.get?_insert_self ..) hmove
        rw [hspares.placeOf_eq] at hmoved hgone
        obtain ⟨rfl, -⟩ := spares_of_openFile hopened
        refine Or.inr ⟨rfl, ?_, hgone⟩
        exact (hspares.mono (by simp)).trans hmoved

/-- A save over a file succeeds if the file beside it can be opened. -/
theorem save_ok {file : File} (htop : f.disk.host.isDirectory [] = true)
    (haccess : f.access = .readWrite)
    (hfound : f.disk.find f.path = .ok file)
    (hfree : f.place ∉ f.disk.directories) (hown : f.place ≠ f.beside)
    (hbeside : ∃ opened, f.disk.openFile (besidePath f.path) = .ok opened)
    (state : Persisted) : (f.save state).1 = .ok () := by
  obtain ⟨⟨place, opened, disk⟩, hopened⟩ := hbeside
  let bytes := (Content.ofState f.disk.time state).write
  let written : Disk := { disk with
    files := disk.files.insert place { opened with bytes } }
  have hwritten : f.disk.writeFile (withExtension f.path "tmp") bytes
      = .ok (place, written) := by
    unfold writeFile
    rw [show f.disk.openFile (withExtension f.path "tmp") = _ from hopened]
  obtain ⟨-, hspares⟩ := (CutShort.written hopened bytes).spares
  have hfound' : written.find f.path = .ok file := by
    apply find_of_spares htop hspares hfound
    show f.place ∉ [f.beside]
    simpa using hown
  -- the snapshot is still where it was, and it is no directory
  have hfree' : written.placeOf f.path ∉ written.directories := by
    rw [hspares.placeOf_eq, hspares.directories]
    exact hfree
  obtain ⟨moved, hmoved⟩ :=
    exists_moveFile (SortedMap.get?_insert_self ..) hfound' hfree'
  have hreplaced : f.disk.replaceFile f.path bytes = (.ok (), moved) := by
    unfold replaceFile
    rw [hwritten]
    dsimp only
    rw [hmoved]
  unfold save
  rw [haccess]
  show Except.mapError Error.system (f.disk.replaceFile f.path bytes).1 = _
  rw [hreplaced]
  rfl

/-- A save keeps every file that stands neither at the place of the snapshot
nor at that of the file beside it, however it ends. If it fails, it keeps the
snapshot too, unless the file beside it is at the same place. If it succeeds,
nothing is left beside the snapshot, whatever file was there. -/
theorem save_spares (htop : f.disk.host.isDirectory [] = true)
    {r : Except Error Unit} (hends : f.Ends state r f') :
    (∀ path file, f.disk.find path = .ok file →
      f.disk.placeOf path ≠ f.place → f.disk.placeOf path ≠ f.beside →
        f'.disk.find path = .ok file) ∧
    (r ≠ .ok () → f.place ≠ f.beside →
      ∀ file, f.disk.find f.path = .ok file →
        f'.disk.find f'.path = .ok file ∧ f'.load = f.load) ∧
    (r = .ok () → f.place ≠ f.beside →
      ∀ path, f.disk.placeOf path = f.beside →
        ∀ file, f'.disk.find path ≠ .ok file) := by
  -- cut short anywhere, a save has at most touched the file beside
  have hcases : (f.CutShort f' ∧ r ≠ .ok ()) ∨ (r = .ok () ∧ f.Moved f') := by
    cases hends with
    | whole => exact save_cases rfl
    | cut stopped e => exact Or.inl ⟨stopped, nofun⟩
  rcases hcases with ⟨hcut, hfailed⟩ | ⟨hsaved, hmoved⟩
  · obtain ⟨-, hspares⟩ := hcut.spares
    refine ⟨?_, fun _ hown file hfound => ?_, fun hsaved => ?_⟩
    · intro path file hfound _ hbeside
      apply find_of_spares htop hspares hfound
      simpa using hbeside
    · exact hcut.load_eq htop hown hfound
    · exact absurd hsaved hfailed
  · refine ⟨?_, fun hfailed => absurd hsaved hfailed, ?_⟩
    · intro path file hfound hplace hbeside
      apply find_of_spares htop hmoved.spares hfound
      simp [hplace, hbeside]
    · intro _ hown path hpath
      exact hmoved.not_found hown hpath

end Saves

/-- A disk with three files that hold the same. -/
def neighbours (bytes : List UInt8) : Disk :=
  { bareDisk with
    files := .ofList
      [("/a.fmdb", { number := 0, bytes }), ("/a.tmp", { number := 1, bytes }),
        ("/b.fmdb", { number := 2, bytes })] }

/-- The three files have the same file beside them but for the last one. -/
theorem besidePath_neighbours :
    besidePath "a.fmdb" = "a.tmp" ∧ besidePath "a.tmp" = "a.tmp" := by
  have hstem (ext : String) (hext : '.' ∉ ext.toList)
      (hname : '/' ∉ ("a" ++ "." ++ ext).toList)
      (hup : "a" ++ "." ++ ext ≠ "..") :
      besidePath ("a" ++ "." ++ ext) = "a.tmp" := by
    have hbeside := withExtension_of_name (Or.inl rfl) (by decide) hext hname
      hup "tmp"
    simpa [besidePath] using hbeside
  constructor
  · exact hstem "fmdb" (by decide) (by decide) (by decide)
  · exact hstem "tmp" (by decide) (by decide) (by decide)

/-- A name in the top directory leads to itself. -/
theorem placeOf_plain {d : Disk} {name : String} (hlocation : d.location = "")
    (hname : Host.Plain name) : d.placeOf name = "/" ++ name := by
  have hproper := hname.proper
  simp only [List.mem_cons, List.not_mem_nil, or_false, not_or] at hproper
  rw [placeOf, fullPath_plain hlocation hname, hname.names_eq]
  simp [Host.target, Host.absolute, hproper]

/-- The three files, and there is nothing else. -/
theorem get?_neighbours {bytes : List UInt8} {place : String} {file : File} :
    (neighbours bytes).files.get? place = some file ↔
      (place, file) ∈
        [("/a.fmdb", { number := 0, bytes : File }),
          ("/a.tmp", { number := 1, bytes }),
          ("/b.fmdb", { number := 2, bytes })] :=
  SortedMap.get?_ofList_iff (by simp)

/-- The top is no file. -/
theorem get?_neighbours_top (bytes : List UInt8) :
    (neighbours bytes).files.get? "/" = none := by
  refine Option.eq_none_iff_forall_ne_some.2 fun file hfile => ?_
  simpa using get?_neighbours.1 hfile

theorem find_neighbours (bytes : List UInt8) :
    ∀ entry ∈ [("a.fmdb", 0), ("a.tmp", 1), ("b.fmdb", 2)],
      (neighbours bytes).find entry.1 = .ok { number := entry.2, bytes } := by
  have hplain : ∀ entry ∈ [("a.fmdb", 0), ("a.tmp", 1), ("b.fmdb", 2)],
      Host.Plain entry.1 := by decide
  intro entry hentry
  apply find_plain rfl (hplain entry hentry) (get?_neighbours_top bytes)
  simp only [List.mem_cons, List.not_mem_nil, or_false] at hentry
  rcases hentry with rfl | rfl | rfl <;> exact get?_neighbours.2 (by simp)

/-- The second file is the one beside the first, and can be opened. -/
theorem openFile_neighbours (bytes : List UInt8) :
    (neighbours bytes).openFile "a.tmp"
      = .ok ("/a.tmp", { number := 1, bytes }, neighbours bytes) :=
  openFile_plain rfl (by decide) (get?_neighbours_top bytes)
    (get?_neighbours.2 (by simp))

/-- One of the three files is open as a snapshot. -/
def openNeighbour (bytes : List UInt8) (path : String) : OpenFile :=
  { disk := neighbours bytes, path, access := .readWrite, lock := none }

theorem isDirectory_neighbours (bytes : List UInt8) (path : String) :
    (openNeighbour bytes path).disk.host.isDirectory [] = true := by
  show bareDisk.host.isDirectory [] = true
  decide

/-- A save over the first file goes through the second one's place. -/
theorem places_neighbours (bytes : List UInt8) :
    (openNeighbour bytes "a.fmdb").place = "/a.fmdb" ∧
      (openNeighbour bytes "a.fmdb").beside = "/a.tmp" := by
  constructor
  · show (neighbours bytes).placeOf "a.fmdb" = _
    exact placeOf_plain rfl (by decide)
  · show (neighbours bytes).placeOf (besidePath "a.fmdb") = _
    rw [besidePath_neighbours.1]
    exact placeOf_plain rfl (by decide)

/-- A save over the first file succeeds. -/
theorem save_neighbours (bytes : List UInt8) (state : Persisted) :
    ((openNeighbour bytes "a.fmdb").save state).1 = .ok () := by
  obtain ⟨hplace, hbeside⟩ := places_neighbours bytes
  have hfound := find_neighbours bytes ("a.fmdb", 0) (by decide)
  apply save_ok (isDirectory_neighbours bytes _) rfl hfound
  · rw [hplace]
    show "/a.fmdb" ∉ ["/"]
    decide
  · rw [hplace, hbeside]
    decide
  · show ∃ opened, (neighbours bytes).openFile (besidePath "a.fmdb") = _
    rw [besidePath_neighbours.1]
    exact ⟨_, openFile_neighbours bytes⟩

/-- A save over the second file begins with this file, and a save that stops
there leaves nothing to load. -/
theorem cut_neighbours (bytes : List UInt8) :
    ∃ g, (openNeighbour bytes "a.tmp").CutShort g ∧ g.load = .ok none := by
  have hopened : (neighbours bytes).openFile (besidePath "a.tmp")
      = .ok ("/a.tmp", { number := 1, bytes }, neighbours bytes) := by
    rw [besidePath_neighbours.2]
    exact openFile_neighbours bytes
  have hcut := CutShort.written (f := openNeighbour bytes "a.tmp") hopened []
  refine ⟨_, hcut, ?_⟩
  have hfound : Disk.find
      { neighbours bytes with
        files := (neighbours bytes).files.insert "/a.tmp" { number := 1 } }
      "a.tmp" = .ok { number := 1 } := by
    apply find_plain rfl (by decide)
    · rw [SortedMap.get?_insert_of_ne _ _ (by decide)]
      exact get?_neighbours_top bytes
    · exact SortedMap.get?_insert_self ..
  unfold load
  dsimp only [openNeighbour]
  rw [hfound]
  dsimp only
  rw [loadBytes_of_short (by decide)]
  rfl

/-- A save over the first file keeps the third one and leaves nothing at the
second one's place; cut short, it keeps the first one. -/
theorem save_spares_thirdFile :
    let old := (Content.ofState 0 oddState).write
    let new : Persisted := ⟨.empty, .empty⟩
    let f := openNeighbour old "a.fmdb"
    let f' := (f.save new).2
    f.disk.host.isDirectory [] = true ∧
      f.disk.find "b.fmdb" = .ok { number := 2, bytes := old } ∧
      f'.disk.find "b.fmdb" = .ok { number := 2, bytes := old } ∧
      (∀ file, f'.disk.find "a.tmp" ≠ .ok file) ∧
      ∀ g, f.CutShort g → g.load = f.load := by
  intro old new f f'
  have htop := isDirectory_neighbours old "a.fmdb"
  obtain ⟨hplace, hbeside⟩ := places_neighbours old
  have hown : f.place ≠ f.beside := by
    rw [hplace, hbeside]
    decide
  have hsecond : f.disk.placeOf "a.tmp" = "/a.tmp" :=
    placeOf_plain rfl (by decide)
  have hthird : f.disk.placeOf "b.fmdb" = "/b.fmdb" :=
    placeOf_plain rfl (by decide)
  have hfirst := find_neighbours old ("a.fmdb", 0) (by decide)
  have hfound := find_neighbours old ("b.fmdb", 2) (by decide)
  have hends : f.Ends new (f.save new).1 f' := .whole
  obtain ⟨hothers, -, hgone⟩ := save_spares htop hends
  refine ⟨htop, hfound, ?_, ?_, fun g hcut => ?_⟩
  · apply hothers _ _ hfound
    · rw [hthird, hplace]
      decide
    · rw [hthird, hbeside]
      decide
  · apply hgone (save_neighbours old new) hown
    rw [hsecond, hbeside]
  · have hstopped : f.Ends new (.error (.system .notFound)) g :=
      .cut hcut _
    obtain ⟨-, hkept, -⟩ := save_spares htop hstopped
    exact (hkept nofun hown _ hfirst).2

/-- A save over the first file takes the second one away, though its place is
neither that of the first one nor that of the first one's whole name with an
ending. A save over the second file that is cut short leaves nothing of what
it held. -/
theorem save_loses_secondFile :
    let old := (Content.ofState 0 oddState).write
    let new : Persisted := ⟨.empty, .empty⟩
    let f := openNeighbour old "a.fmdb"
    let f' := (f.save new).2
    let g := openNeighbour old "a.tmp"
    f.disk.placeOf "a.tmp" ∉ ["a.fmdb", "a.fmdb.tmp", lockPath "a.fmdb"].map
        f.disk.placeOf ∧
      f.disk.find "a.tmp" = .ok { number := 1, bytes := old } ∧
      (f.save new).1 = .ok () ∧
      (∀ file, f'.disk.find "a.tmp" ≠ .ok file) ∧
      g.load = .ok (some oddState) ∧
      ∃ g', g.CutShort g' ∧ g'.load = .ok none := by
  intro old new f f' g
  obtain ⟨hplace, hbeside⟩ := places_neighbours old
  have hsaved := save_neighbours old new
  have hsecond := find_neighbours old ("a.tmp", 1) (by decide)
  have hplain (name : String) (hname : Host.Plain name) :
      f.disk.placeOf name = "/" ++ name :=
    placeOf_plain rfl hname
  have hbelow : f.disk.placeOf "a.tmp" = "/a.tmp" := hplain _ (by decide)
  refine ⟨?_, hsecond, hsaved, ?_, ?_, ?_⟩
  · rw [hbelow, lockPath]
    simp only [List.map_cons, List.map_nil]
    rw [hplain _ (by decide), hplain _ (by decide), hplain _ (by decide)]
    decide
  · have hwhole : f.save new = ((f.save new).1, f') := rfl
    rcases save_cases hwhole with ⟨-, hfailed⟩ | ⟨-, hmoved⟩
    · exact absurd hsaved hfailed
    · apply hmoved.not_found
      · rw [hplace, hbeside]
        decide
      · rw [hbelow, hbeside]
  · have hsize : (encode 0 oddState).length < 2 ^ 64 := by
      decide +kernel
    have hstands : StandFor old 0 oddState :=
      ⟨mark, _, rfl, Packing.unpack_pack (encode 0 oddState), rfl⟩
    rw [OpenFile.load_eq (f := g) hsecond, loadBytes_of_standFor hsize hstands]
    rfl
  · exact cut_neighbours old

end OpenFile

end Snapshot

end DiskAtlas

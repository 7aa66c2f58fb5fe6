/-
A snapshot is a lawful place for the tables of a store, so what holds of
every store over its whole life holds of a store on a disk. Two things are
asked of the snapshot: its disk has a top, and the file beside it stands
elsewhere (`Sheltered`). A save changes neither. What is held is what would
be loaded: nothing if there is no file or no good one. A save that fails
may leave something beside the snapshot, and even where the snapshot is
missing it does not make one (`CutShort.held_eq`).

No memory has room for a state of 2^64 bytes or more, and the numbers that
a layout is made of cannot count its parts; a save of such a state is
refused here.
-/
import DiskAtlas.Proofs.Snapshot.Beside
import DiskAtlas.Proofs.Store.Saving

namespace DiskAtlas.Snapshot

-- =========================================================== going back

/-- If a file stands at the one place that changed, the change goes back to
what was there. -/
theorem Disk.Spares.back {d d' : Disk} {place : String} {file : File}
    (h : d.Spares d' [place]) (hfile : d'.files.get? place = some file) :
    d'.Spares d [place] := by
  refine ⟨h.name.symm, h.location.symm, h.directories.symm,
    fun other hother => (h.files other hother).symm, fun other hwas => ?_⟩
  by_cases hsame : other = place
  · exact Or.inl (hsame ▸ others_iff.2 ⟨file, hfile⟩)
  · obtain ⟨file', hget⟩ := others_iff.1 hwas
    rw [← h.files other (by simpa using hsame)] at hget
    exact Or.inl (others_iff.2 ⟨file', hget⟩)

namespace OpenFile

open Disk

variable {f f' : OpenFile}

/-- What a save that is cut short changed, it could have changed back. -/
theorem CutShort.spares_back (h : f.CutShort f') :
    f'.disk.Spares f.disk [f.beside] := by
  cases h with
  | unopened => exact Spares.refl _ _
  | written opened bytes =>
    obtain ⟨-, hspares⟩ := (CutShort.written opened bytes).spares
    obtain ⟨rfl, -, -⟩ := spares_of_openFile opened
    exact hspares.back (SortedMap.get?_insert_self ..)

section Saves

variable [Packer]

/-- What would be loaded, if anything could be. -/
def held (f : OpenFile) : Option Persisted := f.load.toOption.join

/-- Where no file is found, nothing is held. -/
theorem held_of_not_found (h : ∀ file, f.disk.find f.path ≠ .ok file) :
    f.held = none := by
  unfold held load
  cases hfound : f.disk.find f.path with
  | ok file => exact absurd hfound (h file)
  | error e =>
    dsimp only
    split <;> rfl

/-- A save that is cut short keeps what is held, and if there is no
snapshot, it leaves none. -/
theorem CutShort.held_eq (htop : f.disk.host.isDirectory [] = true)
    (h : f.CutShort f') (hown : f.place ≠ f.beside) : f'.held = f.held := by
  obtain ⟨hpath, hspares⟩ := h.spares
  cases hfound : f.disk.find f.path with
  | ok file => rw [held, (h.load_eq htop hown hfound).2, held]
  | error e =>
    have hmissing : ∀ file, f.disk.find f.path ≠ .ok file := by
      rw [hfound]
      nofun
    -- a file that is found afterwards was found before
    have hmissing' : ∀ file, f'.disk.find f'.path ≠ .ok file := by
      intro file hfound'
      have htop' : f'.disk.host.isDirectory [] = true := by
        rw [← htop]
        exact congrArg (·.contains (Host.absolute [])) hspares.directories
      have hother : f'.disk.placeOf f.path ∉ [f.beside] := by
        rw [hspares.placeOf_eq]
        show f.place ∉ [f.beside]
        simpa using hown
      rw [hpath] at hfound'
      exact hmissing file
        (find_of_spares htop' h.spares_back hfound' hother)
    rw [held_of_not_found hmissing, held_of_not_found hmissing']

/-- A save leaves the path, and the disk but for some files. -/
theorem save_keeps (f : OpenFile) (state : Persisted) :
    (f.save state).2.path = f.path ∧
      ∃ touched, f.disk.Spares (f.save state).2.disk touched := by
  constructor
  · unfold save
    split <;> rfl
  · have hwhole : f.save state = ((f.save state).1, (f.save state).2) := rfl
    obtain ⟨hcut, -⟩ | ⟨-, hmoved⟩ := save_cases hwhole
    · exact ⟨_, hcut.spares.2⟩
    · exact ⟨_, hmoved.spares⟩

end Saves

-- ========================================================== the backend

/-- The disk has a top, and the file beside the snapshot is not the snapshot
itself. -/
structure Sheltered (f : OpenFile) : Prop where
  top : f.disk.host.isDirectory [] = true
  apart : f.place ≠ f.beside

/-- A save leaves the file sheltered: whether it succeeds or not, the paths
lead where they led. -/
theorem Sheltered.save [Packer] (h : f.Sheltered) (state : Persisted) :
    (f.save state).2.Sheltered := by
  obtain ⟨hpath, touched, hspares⟩ := save_keeps f state
  constructor
  · rw [← h.top]
    exact congrArg (·.contains (Host.absolute [])) hspares.directories
  · unfold place beside
    rw [hpath, hspares.placeOf_eq, hspares.placeOf_eq]
    exact h.apart

/-- A snapshot under a plain name is sheltered, unless its extension is the
one of the file beside it. -/
theorem Sheltered.of_plain {stem ext : String}
    (htop : f.disk.host.isDirectory [] = true)
    (hlocation : f.disk.location = "")
    (hpath : f.path = stem ++ "." ++ ext) (hstem : stem ≠ "")
    (hext : '.' ∉ ext.toList) (hplain : Host.Plain (stem ++ "." ++ ext))
    (hplain' : Host.Plain (stem ++ "." ++ "tmp")) (hne : ext ≠ "tmp") :
    f.Sheltered := by
  have hbeside : besidePath f.path = stem ++ "." ++ "tmp" := by
    have hproper := hplain.proper
    simp only [List.mem_cons, List.not_mem_nil, or_false, not_or] at hproper
    have hextended : withExtension ("" ++ (stem ++ "." ++ ext)) "tmp"
        = "" ++ (stem ++ "." ++ "tmp") :=
      withExtension_of_name (Or.inl rfl) hstem hext hplain.slash hproper.2.2
        "tmp"
    rw [besidePath, hpath]
    simpa using hextended
  refine ⟨htop, ?_⟩
  rw [place, beside, hbeside, hpath, placeOf_plain hlocation hplain,
    placeOf_plain hlocation hplain']
  simpa using hne

end OpenFile

/-- A snapshot that its saves do not harm. -/
abbrev ShelteredFile := { f : OpenFile // f.Sheltered }

namespace ShelteredFile

variable [Packer]

/-- Replaces the snapshot, unless the state is too large for any memory. -/
def save (state : Persisted) (f : ShelteredFile) :
    Except Error Unit × ShelteredFile :=
  if (encode f.val.disk.time state).length < 2 ^ 64 then
    ((f.val.save state).1, ⟨(f.val.save state).2, f.property.save state⟩)
  else (.error (.snapshot (.other "state too large")), f)

instance : Backend ShelteredFile where
  load f := f.val.load
  save := save
  isWritable f := Backend.isWritable f.val
  location f := f.val.location

instance [LawfulPacker] : LawfulBackend ShelteredFile where
  held f := f.val.held
  held_of_load := by
    intro f state hload
    replace hload : f.val.load = .ok state := hload
    rw [OpenFile.held, hload]
    rfl
  held_of_save := by
    intro f f' state hsave
    replace hsave : save state f = (.ok (), f') := hsave
    unfold save at hsave
    split at hsave
    · next hsize =>
      obtain ⟨hok, rfl⟩ := Prod.mk.inj hsave
      have hsaved : f.val.save state = (.ok (), (f.val.save state).2) :=
        Prod.ext hok rfl
      have hload := (OpenFile.saved_loads f.property.top hsize hsaved).1
      rw [OpenFile.held, hload]
      rfl
    · cases hsave
  held_of_failed_save := by
    intro f f' state e hsave
    replace hsave : save state f = (.error e, f') := hsave
    unfold save at hsave
    split at hsave
    · obtain ⟨hfailed, rfl⟩ := Prod.mk.inj hsave
      have hwhole : f.val.save state = (.error e, (f.val.save state).2) :=
        Prod.ext hfailed rfl
      obtain ⟨hcut, -⟩ | ⟨hok, -⟩ := OpenFile.save_cases hwhole
      · exact hcut.held_eq f.property.top f.property.apart
      · cases hok
    · obtain ⟨-, rfl⟩ := Prod.mk.inj hsave
      rfl

end ShelteredFile

end DiskAtlas.Snapshot

/-
Snapshots lose nothing. What stands in a snapshot is read as it was
written, whatever its mark (`Content.ofBytes?_write`), and a stream that
unpacks to a state is loaded as the state (`loadBytes_of_standFor`). So
what is saved is loaded from where it was saved, and from any other file
with the same bytes but for the mark or with the state packed in another
way; a file that is too short or of another version holds nothing
(`saved_loads`).

All of this asks of the packing only that it loses nothing
(`LawfulPacker`), and frames lose nothing.
-/
import DiskAtlas.Proofs.Packing.Frame
import DiskAtlas.Proofs.Snapshot.Disk
import DiskAtlas.Proofs.Snapshot.Layout
import DiskAtlas.Proofs.Snapshot.Names
import DiskAtlas.Snapshot.File

namespace DiskAtlas.Snapshot

-- ============================================================== packing

/-- What is packed can be unpacked. -/
class LawfulPacker [Packer] : Prop where
  unpack_pack : ∀ bytes, Packer.unpack (Packer.pack bytes) = some bytes

instance : LawfulPacker := ⟨Packing.unpack_pack⟩

-- ============================================================== content

namespace Content

/-- What stands in a snapshot is read as it was written. -/
theorem ofBytes?_write {c : Content} (hmark : c.mark.length = 8) :
    ofBytes? c.write = some c := by
  obtain ⟨mark, version, stream⟩ := c
  have hlength : (littleEndian 4 version.toNat).length = 4 :=
    length_littleEndian ..
  have hversion : ofLittleEndian (littleEndian 4 version.toNat)
      = version.toNat := ofLittleEndian_littleEndian version.toNat_lt
  unfold ofBytes? write
  rw [if_neg (by simp [headerLength, hmark]; omega), List.append_assoc]
  rw [List.take_left' hmark, List.drop_left' hmark, List.take_left' hlength,
    hversion, UInt32.ofNat_toNat]
  rw [← List.append_assoc, List.drop_left' (by simp [headerLength, hmark])]

end Content

section Bytes

variable [Packer]

/-- Some bytes stand for a state: a mark of the right length, the version
and a stream that unpacks to the state. -/
def StandFor (bytes : List UInt8) (savedAt : Int64) (state : Persisted) :
    Prop :=
  ∃ mark stream, mark.length = 8 ∧
    Packer.unpack stream = some (encode savedAt state) ∧
    bytes = mark ++ littleEndian 4 currentVersion.toNat ++ stream

/-- Bytes that stand for a state are loaded as the state. -/
theorem loadBytes_of_standFor {bytes : List UInt8} {savedAt : Int64}
    {state : Persisted} (hsize : (encode savedAt state).length < 2 ^ 64)
    (h : StandFor bytes savedAt state) (path : String) :
    loadBytes bytes path = .ok (some state) := by
  obtain ⟨mark, stream, hmark, hunpack, rfl⟩ := h
  let content : Content := { mark, stream }
  have hcontent : Content.ofBytes? content.write = some content :=
    Content.ofBytes?_write hmark
  show loadBytes content.write path = _
  rw [loadBytes, hcontent]
  show content.load path = _
  rw [Content.load, if_neg (by simp [content])]
  rw [show Packer.unpack content.stream = _ from hunpack]
  dsimp only
  rw [decode_encode hsize]
  rfl

/-- Bytes without a whole header hold nothing. -/
theorem loadBytes_of_short {bytes : List UInt8}
    (h : bytes.length < headerLength) (path : String) :
    loadBytes bytes path = .ok none := by
  rw [loadBytes, Content.ofBytes?, if_pos h]

/-- The version word in the bytes of a snapshot. -/
def versionWord (bytes : List UInt8) : Nat :=
  ofLittleEndian ((bytes.drop 8).take 4)

/-- Bytes of another version hold nothing. -/
theorem loadBytes_of_otherVersion {bytes : List UInt8}
    (h : versionWord bytes ≠ currentVersion.toNat) (path : String) :
    loadBytes bytes path = .ok none := by
  by_cases hshort : bytes.length < headerLength
  · exact loadBytes_of_short hshort path
  · have hlt : versionWord bytes < 2 ^ 32 := by
      refine Nat.lt_of_lt_of_le (ofLittleEndian_lt _) ?_
      exact Nat.pow_le_pow_right (by decide) (List.length_take_le ..)
    have hother : UInt32.ofNat (versionWord bytes) ≠ currentVersion := by
      intro hsame
      rw [← hsame, UInt32.toNat_ofNat', Nat.mod_eq_of_lt hlt] at h
      exact h rfl
    rw [loadBytes, Content.ofBytes?, if_neg hshort]
    exact if_pos hother

end Bytes

-- ================================================================ files

namespace OpenFile

section Saves

variable [Packer] {f f' : OpenFile} {state : Persisted}

/-- A snapshot holds what its file stands for. -/
theorem load_eq {file : File} (h : f.disk.find f.path = .ok file) :
    f.load = (loadBytes file.bytes f.location).mapError .snapshot := by
  rw [load, h]

/-- What is saved stands in the file that the path leads to. -/
theorem find_of_saved (htop : f.disk.host.isDirectory [] = true)
    (hsaved : f.save state = (.ok (), f')) :
    ∃ file, f'.disk.find f'.path = .ok file ∧
      file.bytes = (Content.ofState f.disk.time state).write := by
  unfold save at hsaved
  split at hsaved
  · cases hsaved
  · dsimp only at hsaved
    generalize hreplaced : f.disk.replaceFile f.path _ = replaced at hsaved
    obtain ⟨result, disk⟩ := replaced
    obtain ⟨hresult, rfl⟩ := Prod.mk.inj hsaved
    cases result with
    | error e => cases hresult
    | ok _ => exact Disk.find_replaceFile htop hreplaced

/-- What is saved is loaded again: from the file in which it was saved,
from any file with the same bytes behind whatever mark, and from any file
in which it is packed in another way. A file without a whole header or of
another version holds nothing. -/
theorem saved_loads [LawfulPacker] (htop : f.disk.host.isDirectory [] = true)
    (hsize : (encode f.disk.time state).length < 2 ^ 64)
    (hsaved : f.save state = (.ok (), f')) :
    f'.load = .ok (some state) ∧
      ∃ file, f'.disk.find f'.path = .ok file ∧
        file.bytes = mark ++ littleEndian 4 currentVersion.toNat
          ++ Packer.pack (encode f.disk.time state) ∧
        ∀ (g : OpenFile) (other : File), g.disk.find g.path = .ok other →
          (∀ mark, mark.length = 8 →
            other.bytes = mark ++ file.bytes.drop 8 →
              g.load = .ok (some state)) ∧
          (StandFor other.bytes f.disk.time state →
            g.load = .ok (some state)) ∧
          (other.bytes.length < headerLength → g.load = .ok none) ∧
          (versionWord other.bytes ≠ currentVersion.toNat →
            g.load = .ok none) := by
  obtain ⟨file, hfile, hbytes⟩ := find_of_saved htop hsaved
  have hunpack := LawfulPacker.unpack_pack (encode f.disk.time state)
  -- all that follows depends on the bytes of the file and not on its place
  have hstands : StandFor file.bytes f.disk.time state :=
    ⟨mark, _, rfl, hunpack, hbytes⟩
  refine ⟨?_, file, hfile, hbytes, fun g other hother => ⟨?_, ?_, ?_, ?_⟩⟩
  · rw [load_eq hfile, loadBytes_of_standFor hsize hstands]
    rfl
  · intro mark hmark hsame
    -- the mark is skipped, so any eight bytes will do
    have hstands' : StandFor other.bytes f.disk.time state := by
      refine ⟨mark, _, hmark, hunpack, ?_⟩
      rw [hsame, hbytes, List.append_assoc]
      rfl
    rw [load_eq hother, loadBytes_of_standFor hsize hstands']
    rfl
  · intro hstands'
    rw [load_eq hother, loadBytes_of_standFor hsize hstands']
    rfl
  · intro hshort
    rw [load_eq hother, loadBytes_of_short hshort]
    rfl
  · intro hversion
    rw [load_eq hother, loadBytes_of_otherVersion hversion]
    rfl

end Saves

/-- A disk with nothing on it but its top. -/
def bareDisk : Disk := { location := "", directories := ["/"] }

/-- A file can be put on a disk with nothing on it. -/
theorem replaceFile_bareDisk (bytes : List UInt8) :
    (bareDisk.replaceFile "a" bytes).1 = .ok () := by
  have hbeside : Disk.withExtension ("" ++ "a") "tmp" = "a.tmp" :=
    Disk.withExtension_of_stem (Or.inl rfl) (by decide) (by decide) "tmp"
  exact Disk.replaceFile_plain_new rfl (by decide) hbeside (by decide)
    (by decide) rfl rfl rfl (by decide) (by decide) bytes

/-- A disk with one file on it. -/
def diskWith (file : File) : Disk :=
  { bareDisk with files := .ofList [("/a", file)] }

theorem find_diskWith (file : File) : (diskWith file).find "a" = .ok file := by
  have htop : (diskWith file).files.get? "/" = none := by
    have hother : "/a" ≠ "/" := by decide
    exact SortedMap.get?_insert_of_ne .empty file hother
  exact Disk.find_plain rfl (by decide) htop (SortedMap.get?_insert_self ..)

/-- A state with an extent whose flags are all set, a number that is no
number and a separator that takes two bytes. -/
def oddState : Persisted where
  tables :=
    { Tables.empty with
      summary := some { Summary.blank "/é" with separator := 'é' }
      inodes := .ofList [(-7, .bare (-7) .file)]
      paths := .ofList [("", -7), ("éa", -7)]
      directories := .ofList [(-7, .ofList [("a", -7)])]
      extents := #[⟨-7, 4096, none, 512, ⟨0xFFFFFFFF⟩, .metadata⟩] }
  calculated :=
    { inodeStats := .ofList [(-7, ⟨1, 0x7FF8000000000001⟩)]
      overviews := .ofList [(1, #[⟨.replicate 7 0xFFFFFFFFFFFFFFFF⟩])] }

/-- An odd state is saved on a disk with nothing on it and loaded again,
also with seven zeros and an x in place of the mark. A file of eleven bytes
holds nothing, and so does one of version 2. -/
theorem saved_loads_oddState :
    let f : OpenFile :=
      { disk := bareDisk, path := "a", access := .readWrite, lock := none }
    let f' := (f.save oddState).2
    let on (bytes : List UInt8) : OpenFile :=
      { f with disk := diskWith { number := 0, bytes } }
    f.save oddState = (.ok (), f') ∧ f'.load = .ok (some oddState) ∧
      (∃ file, f'.disk.find "a" = .ok file ∧
        (on ([0, 0, 0, 0, 0, 0, 0, 0x78] ++ file.bytes.drop 8)).load
          = .ok (some oddState)) ∧
      (on (mark ++ [1, 0, 0])).load = .ok none ∧
      (on (mark ++ [2, 0, 0, 0])).load = .ok none := by
  intro f f' on
  have htop : f.disk.host.isDirectory [] = true := by decide
  have hsize : (encode f.disk.time oddState).length < 2 ^ 64 := by
    show (encode 0 oddState).length < 2 ^ 64
    decide +kernel
  have hsaved : f.save oddState = (.ok (), f') := by
    have hreplaced := replaceFile_bareDisk
      (Content.ofState f.disk.time oddState).write
    refine Prod.ext ?_ rfl
    show Except.mapError Error.system (f.disk.replaceFile "a" _).1 = _
    rw [show (f.disk.replaceFile "a" _).1 = _ from hreplaced]
    rfl
  obtain ⟨hload, file, hfile, -, hothers⟩ := saved_loads htop hsize hsaved
  have hon : ∀ bytes, (on bytes).disk.find (on bytes).path
      = .ok { number := 0, bytes } := fun bytes => find_diskWith _
  refine ⟨hsaved, hload, ⟨file, hfile, ?_⟩, ?_, ?_⟩
  · obtain ⟨hmark, -⟩ := hothers _ _ (hon _)
    exact hmark _ (by decide) rfl
  · obtain ⟨-, -, hshort, -⟩ := hothers _ _ (hon _)
    exact hshort (by decide)
  · obtain ⟨-, -, -, hversion⟩ := hothers _ _ (hon _)
    exact hversion (by decide)

end OpenFile

end DiskAtlas.Snapshot

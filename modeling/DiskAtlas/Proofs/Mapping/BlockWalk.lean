/-
Two ways to read one file. A file system that tells extents hands out
records, and neighbours among them are joined; one that does not is asked
block by block, and the walk joins blocks as it goes. If the record of
every block is handed out by itself, both ways come to the same: the same
records, all of them marked as joined by the walk, as long as a record may
have all blocks of the file; and the same bytes at the same places however
few blocks a record may have (`BlockFile.read_joins`).

The two differ in when they notice that a run is over. The walk closes its
run at a hole, while joining holds its record back until the next one is
there; by then nothing continues it, since the hole lies between
(`joinFrom_apart`). Apart from that the run of the walk and the record that
is held back are one record up to the mark (`Alike`), and the next block
continues both or neither.
-/
import DiskAtlas.Mapping.BlockWalk
import DiskAtlas.Proofs.Mapping.FileWalk
import DiskAtlas.Proofs.Mapping.Joined

namespace DiskAtlas

-- ================================================================ blocks

/-- The record, marked as joined. -/
def RawExtent.asMerged (e : RawExtent) : RawExtent :=
  { e with flags := e.flags.union .merged }

namespace Mapping

/-- A file as its blocks: their size, how many there are, and where on the
device each of them is, which is nowhere for a hole and then says zero. All
of it ends within the largest offset, in the file and on the device. -/
structure BlockFile where
  size : UInt64
  count : Nat
  place : UInt64 → UInt64
  size_pos : 0 < size.toNat
  count_fits : count * size.toNat ≤ maxWord.toNat
  place_fits : ∀ b < count,
    ((place (.ofNat b)).toNat + 1) * size.toNat ≤ maxWord.toNat

/-- A source that tells the block size of a file and where its blocks are,
whatever was asked before. -/
structure BlockSource.Answers {σ : Type} (source : BlockSource σ)
    (f : BlockFile) : Prop where
  size_eq : ∀ s, (source.blockSize s).1 = .ok f.size
  place_eq : ∀ b < f.count, ∀ s,
    (source.lookup (.ofNat b) s).1 = .ok (f.place (.ofNat b))

namespace BlockFile

/-- The record of a block by itself; a hole has none. -/
def record? (f : BlockFile) (b : Nat) : Option RawExtent :=
  let block := UInt64.ofNat b
  if f.place block = 0 then none
  else some ⟨block * f.size, f.place block * f.size, f.size, .empty⟩

/-- The records of the blocks from one on. -/
def recordsFrom (f : BlockFile) (b count : Nat) : List RawExtent :=
  (List.range' b count).filterMap f.record?

/-- The records of all blocks, in order. -/
def records (f : BlockFile) : List RawExtent :=
  (List.range f.count).filterMap f.record?

/-- What is read where every block is handed out by itself. -/
def trace (f : BlockFile) : Trace Unit RawExtent := f.records.map .give

def fileSize (f : BlockFile) : UInt64 := .ofNat (f.count * f.size.toNat)

/-- What a record of a block says, in natural numbers. -/
structure IsBlock (f : BlockFile) (b : Nat) (r : RawExtent) : Prop where
  logical_eq : r.logical.toNat = b * f.size.toNat
  length_eq : r.length = f.size
  flags_eq : r.flags = .empty
  physical_le : r.physical.toNat + f.size.toNat ≤ maxWord.toNat

variable {f : BlockFile} {b count : Nat} {r : RawExtent}

theorem end_le (f : BlockFile) (hb : b < f.count) :
    (b + 1) * f.size.toNat ≤ maxWord.toNat := by
  have hle := Nat.mul_le_mul_right f.size.toNat (Nat.succ_le_of_lt hb)
  exact Nat.le_trans hle f.count_fits

theorem count_le (f : BlockFile) : f.count ≤ maxWord.toNat := by
  have hle := Nat.mul_le_mul_left f.count (Nat.succ_le_of_lt f.size_pos)
  rw [Nat.mul_one] at hle
  exact Nat.le_trans hle f.count_fits

theorem toNat_block (f : BlockFile) (hb : b < f.count) :
    (UInt64.ofNat b).toNat = b := by
  have hle := f.count_le
  rw [toNat_maxWord] at hle
  rw [UInt64.toNat_ofNat', Nat.mod_eq_of_lt (by omega)]

theorem isBlock_of_record? (hb : b < f.count) (h : f.record? b = some r) :
    f.IsBlock b r := by
  have hend := f.end_le hb
  have hplace := f.place_fits b hb
  rw [toNat_maxWord, Nat.add_mul, Nat.one_mul] at hend hplace
  unfold record? at h
  dsimp only at h
  split at h
  · cases h
  · obtain rfl := Option.some_inj.1 h
    refine ⟨?_, rfl, rfl, ?_⟩
    · rw [UInt64.toNat_mul, f.toNat_block hb, Nat.mod_eq_of_lt (by omega)]
    · rw [UInt64.toNat_mul, Nat.mod_eq_of_lt (by omega), toNat_maxWord]
      exact hplace

/-- The walk has the record of a block too, marked from the start. -/
theorem blockRecord_eq (h : f.record? b = some r) :
    f.place (.ofNat b) ≠ 0 ∧
      blockRecord f.size (.ofNat b) (f.place (.ofNat b)) = r.asMerged := by
  have hmark : Flags.empty.union .merged = .merged := by decide
  unfold record? at h
  dsimp only at h
  split at h
  · cases h
  · next hplace =>
    obtain rfl := Option.some_inj.1 h
    refine ⟨hplace, ?_⟩
    rw [RawExtent.asMerged, hmark]
    rfl

theorem recordsFrom_succ (f : BlockFile) (b count : Nat) :
    f.recordsFrom b (count + 1)
      = (f.record? b).toList ++ f.recordsFrom (b + 1) count := by
  unfold recordsFrom
  rw [List.range'_succ]
  cases h : f.record? b with
  | none => simp [h]
  | some r => simp [h]

/-- A record among those of the blocks from one on begins there at the
earliest. -/
theorem le_logical_of_mem (hcount : b + count ≤ f.count)
    (hr : r ∈ f.recordsFrom b count) :
    b * f.size.toNat ≤ r.logical.toNat := by
  obtain ⟨c, hc, hrecord⟩ := List.mem_filterMap.1 hr
  obtain ⟨hle, hlt⟩ := List.mem_range'_1.1 hc
  rw [(isBlock_of_record? (by omega) hrecord).logical_eq]
  exact Nat.mul_le_mul_right _ hle

end BlockFile

-- =============================================================== one block

section Steps

variable {σ : Type} {source : BlockSource σ} {f : BlockFile} {b count : Nat}
  {most : UInt64} {r : RawExtent}

/-- What the walk hands out from a block on, with a run that may still
grow. -/
def itemsFrom (source : BlockSource σ) (f : BlockFile) (most : UInt64)
    (count b : Nat) (run : Option RawExtent) (s : σ) :
    List (Except Error RawExtent) :=
  (walkBlocksFrom source f.size most count (.ofNat b) run s).1.items

/-- When no blocks are left the run so far is handed out, so a file's last run
is never lost. -/
theorem itemsFrom_zero (run : Option RawExtent) (s : σ) :
    itemsFrom source f most 0 b run s = run.toList.map .ok := by
  cases run <;> rfl

variable (h : source.Answers f) (hb : b < f.count) (s : σ)

include h hb

theorem lookup_eq : source.lookup (.ofNat b) s
    = (.ok (f.place (.ofNat b)), (source.lookup (.ofNat b) s).2) :=
  Prod.ext (h.place_eq b hb s) rfl

/-- A hole closes the run. -/
theorem itemsFrom_hole (hhole : f.record? b = none)
    (run : Option RawExtent) :
    itemsFrom source f most (count + 1) b run s
      = run.toList.map .ok ++ itemsFrom source f most count (b + 1) none
          (source.lookup (.ofNat b) s).2 := by
  have hplace : f.place (.ofNat b) = 0 := by
    unfold BlockFile.record? at hhole
    simpa using hhole
  unfold itemsFrom
  rw [walkBlocksFrom, lookup_eq h hb s, UInt64.ofNat_add]
  simp only [hplace, if_true]
  cases run <;> rfl

/-- The first block of a run is the run so far. -/
theorem itemsFrom_first (hrecord : f.record? b = some r) :
    itemsFrom source f most (count + 1) b none s
      = itemsFrom source f most count (b + 1) (some r.asMerged)
          (source.lookup (.ofNat b) s).2 := by
  obtain ⟨hplace, hblock⟩ := BlockFile.blockRecord_eq hrecord
  unfold itemsFrom
  rw [walkBlocksFrom, lookup_eq h hb s, UInt64.ofNat_add]
  simp only [if_neg hplace, hblock]
  rfl

/-- A block lengthens a run or closes it. -/
theorem itemsFrom_next (hrecord : f.record? b = some r) (run : RawExtent) :
    itemsFrom source f most (count + 1) b (some run) s
      = if extendsRun f.size most run r.asMerged then
          itemsFrom source f most count (b + 1)
            (some { run with length := run.length + f.size })
            (source.lookup (.ofNat b) s).2
        else .ok run :: itemsFrom source f most count (b + 1)
          (some r.asMerged) (source.lookup (.ofNat b) s).2 := by
  obtain ⟨hplace, hblock⟩ := BlockFile.blockRecord_eq hrecord
  unfold itemsFrom
  rw [walkBlocksFrom, lookup_eq h hb s, UInt64.ofNat_add]
  simp only [if_neg hplace, hblock]
  split
  · rfl
  · rfl

end Steps

-- ================================================================= runs

/-- A run of the walk that ends where a block begins. -/
structure BlockFile.IsRun (f : BlockFile) (b : Nat) (run : RawExtent) :
    Prop where
  logical_eq : run.logical.toNat + run.length.toNat = b * f.size.toNat
  physical_le : run.physical.toNat + run.length.toNat ≤ maxWord.toNat

section Runs

variable {f : BlockFile} {b count : Nat} {most : UInt64}
  {run r : RawExtent}

/-- A block is a run by itself. -/
theorem BlockFile.IsBlock.isRun (hr : f.IsBlock b r) :
    f.IsRun (b + 1) r := by
  constructor
  · rw [hr.logical_eq, hr.length_eq, Nat.add_mul, Nat.one_mul]
  · rw [hr.length_eq]
    exact hr.physical_le

/-- A run and the block that continues it end within the largest offset. -/
theorem BlockFile.IsRun.toNat_grown (hrun : f.IsRun b run)
    (hb : b < f.count) : (run.length + f.size).toNat
      = run.length.toNat + f.size.toNat := by
  have hend := f.end_le hb
  have hlogical := hrun.logical_eq
  rw [toNat_maxWord, Nat.add_mul, Nat.one_mul] at hend
  rw [UInt64.toNat_add, Nat.mod_eq_of_lt (by omega)]

/-- A run that reaches a block, and whose end on the device is where the block
is, reaches the next one when it grows. -/
theorem BlockFile.IsRun.grow (hrun : f.IsRun b run) (hb : b < f.count)
    (hr : f.IsBlock b r)
    (hnext : run.physical.toNat + run.length.toNat = r.physical.toNat) :
    f.IsRun (b + 1) { run with length := run.length + f.size } := by
  have hlength := hrun.toNat_grown hb
  have hlogical := hrun.logical_eq
  have hphysical := hr.physical_le
  constructor
  · dsimp only
    rw [hlength, Nat.add_mul, Nat.one_mul]
    omega
  · dsimp only
    rw [hlength]
    omega

/-- A block continues the run before it if it follows on the device and
the run has room. -/
theorem extendsRun_iff (hrun : f.IsRun b run) (hr : f.IsBlock b r) :
    extendsRun f.size most run r.asMerged = true ↔
      run.physical.toNat + run.length.toNat = r.physical.toNat ∧
        run.length.toNat / f.size.toNat < most.toNat := by
  have hlogical := hrun.logical_eq.trans hr.logical_eq.symm
  rw [extendsRun, Bool.and_eq_true, Bool.and_eq_true, beq_iff_eq,
    beq_iff_eq, checkedAdd_eq_some_iff, checkedAdd_eq_some_iff,
    decide_eq_true_iff, UInt64.lt_iff_toNat_lt, UInt64.toNat_div]
  exact and_congr_left' (and_iff_left hlogical)

/-- The mark of joined records changes nothing about a run. -/
theorem BlockFile.IsRun.asMerged (hrun : f.IsRun b run) :
    f.IsRun b run.asMerged :=
  ⟨hrun.logical_eq, hrun.physical_le⟩

/-- A run has no more blocks than there are before the next one. -/
theorem BlockFile.IsRun.blocks_le (hrun : f.IsRun b run) :
    run.length.toNat / f.size.toNat ≤ b := by
  have hlogical := hrun.logical_eq
  apply Nat.div_le_of_le_mul
  rw [Nat.mul_comm]
  omega

/-- A block continues the record that is held back for the run before it if
it follows on the device. -/
theorem continuedBy_iff {h : Held} (hflags : h.flags = .empty)
    (hrun : f.IsRun b h.extent) (hr : f.IsBlock b r) :
    h.continuedBy r = true ↔
      h.extent.physical.toNat + h.extent.length.toNat
        = r.physical.toNat := by
  have hlogical := hrun.logical_eq.trans hr.logical_eq.symm
  have hsame : h.flags = r.flags.without .last := by
    rw [hflags, hr.flags_eq]
    decide
  rw [Held.continuedBy, Bool.and_eq_true, Bool.and_eq_true, beq_iff_eq,
    beq_iff_eq, beq_iff_eq, checkedAdd_eq_some_iff, checkedAdd_eq_some_iff,
    and_iff_left hsame, and_iff_left hlogical]

/-- What comes behind a hole does not continue the run in front of it. -/
theorem not_continuedBy_behind {h : Held} (hrun : f.IsRun b h.extent)
    (hcount : b + 1 + count ≤ f.count) :
    ∀ r ∈ f.recordsFrom (b + 1) count, h.continuedBy r = false := by
  intro r hr
  have hfar := f.le_logical_of_mem hcount hr
  have hpos := f.size_pos
  have hlogical := hrun.logical_eq
  rw [Nat.add_mul, Nat.one_mul] at hfar
  apply Bool.eq_false_iff.2
  intro hnext
  simp only [Held.continuedBy, Bool.and_eq_true, beq_iff_eq,
    checkedAdd_eq_some_iff] at hnext
  omega

/-- A record that is held back comes before all others if the first of
them does not continue it. -/
theorem joinFrom_apart {ρ : Type} {h : Held} {records : List RawExtent}
    (hapart : ∀ r ∈ records, h.continuedBy r = false) :
    (joinFrom (ρ := ρ) (some h) (records.map .give)).items
      = .ok h.extent :: (joinFrom (ρ := ρ) none (records.map .give)).items := by
  cases records with
  | nil => rfl
  | cons r rest =>
    have hfirst := hapart r List.mem_cons_self
    rw [List.map_cons, joinFrom, joinFrom, hfirst]
    rfl

end Runs

-- ============================================================== together

/-- The run of a walk beside the record that joining holds back: there is
neither, or both are the same up to the mark and end where a block
begins. -/
inductive Alike (f : BlockFile) (b : Nat) :
    Option RawExtent → Option Held → Prop where
  | nothing : Alike f b none none
  | run {h : Held} (flags_eq : h.flags = .empty)
      (isRun : f.IsRun b h.extent) :
      Alike f b (some h.extent.asMerged) (some h)

section Together

variable {ρ σ : Type} {source : BlockSource σ} {f : BlockFile}
  {b count : Nat} {most : UInt64} {run : Option RawExtent}
  {held : Option Held} {r : RawExtent}

/-- A block by itself is held back as it is. -/
theorem alike_single (hr : f.IsBlock b r) :
    Alike f (b + 1) (some r.asMerged) (some (.single r)) := by
  have hflags : r.flags.without .last = .empty := by
    rw [hr.flags_eq]
    decide
  have hextent : (Held.single r).extent = r := by
    rw [Held.single, hflags, ← hr.flags_eq]
  have halike := Alike.run (h := .single r) hflags
    (hextent.symm ▸ hr.isRun)
  rwa [hextent] at halike

/-- A block lengthens both. -/
theorem Alike.grow {h : Held} (hflags : h.flags = .empty)
    (hrun : f.IsRun b h.extent) (hb : b < f.count) (hr : f.IsBlock b r)
    (hnext : h.extent.physical.toNat + h.extent.length.toNat
      = r.physical.toNat) :
    Alike f (b + 1)
      (some { h.extent.asMerged with length := h.extent.length + f.size })
      (some (h.grow r)) := by
  have hmark : ∀ g : Flags, (g.union .merged).union .merged
      = g.union .merged := by
    intro g
    simp [Flags.union, UInt32.or_assoc]
  have hgrown : (h.grow r).extent.asMerged
      = { h.extent.asMerged with length := h.extent.length + f.size } := by
    rw [Held.grow, RawExtent.asMerged, RawExtent.asMerged]
    dsimp only
    rw [hmark, hr.length_eq]
  rw [← hgrown]
  have hsame : (h.grow r).flags = .empty := hflags
  apply Alike.run hsame
  have hmore := hrun.grow hb hr hnext
  rw [← hr.length_eq] at hmore
  exact ⟨hmore.logical_eq, hmore.physical_le⟩

/-- With room for all blocks of a file, the walk hands out what joining
does, all of it marked. -/
theorem itemsFrom_eq_joinFrom (h : source.Answers f)
    (hmost : f.count ≤ most.toNat) (hcount : b + count = f.count)
    (halike : Alike f b run held) (s : σ) :
    itemsFrom source f most count b run s
      = (joinFrom (ρ := ρ) held
          ((f.recordsFrom b count).map .give)).items.map
            (Except.map RawExtent.asMerged) := by
  -- on the blocks that are left, with the run of the walk and the record that
  -- is held back side by side (`Alike`)
  induction count generalizing b run held s with
  | zero =>
    rw [itemsFrom_zero]
    cases halike with
    | nothing => rfl
    | run => rfl
  | succ count ih =>
    have hb : b < f.count := by omega
    rw [BlockFile.recordsFrom_succ]
    cases hrecord : f.record? b with
    | none =>
      rw [itemsFrom_hole h hb s hrecord, ih (by omega) .nothing]
      cases halike with
      | nothing => rfl
      | @run held _ hrun =>
        -- behind a hole the walk ends its run; joining still holds it, but no
        -- later record continues it
        have hapart : ∀ r ∈ f.recordsFrom (b + 1) count,
            held.continuedBy r = false :=
          not_continuedBy_behind hrun (by omega)
        rw [Option.toList_none, List.nil_append, joinFrom_apart hapart]
        rfl
    | some r =>
      have hr := BlockFile.isBlock_of_record? hb hrecord
      rw [Option.toList_some, List.singleton_append, List.map_cons]
      cases halike with
      | nothing =>
        rw [itemsFrom_first h hb s hrecord,
          ih (by omega) (alike_single hr)]
        rfl
      | @run held hflags hrun =>
        -- the run has fewer blocks than the file, so it is not full
        have hroom : held.extent.length.toNat / f.size.toNat
            < most.toNat := by
          have hblocks := hrun.blocks_le
          omega
        have hext : extendsRun f.size most held.extent.asMerged r.asMerged
            = true ↔ _ := extendsRun_iff hrun.asMerged hr
        rw [itemsFrom_next h hb s hrecord, joinFrom]
        by_cases hnext : held.extent.physical.toNat
            + held.extent.length.toNat = r.physical.toNat
        · rw [if_pos (hext.2 ⟨hnext, hroom⟩),
            if_pos ((continuedBy_iff hflags hrun hr).2 hnext)]
          exact ih (by omega) (.grow hflags hrun hb hr hnext) _
        · rw [if_neg fun hyes => hnext (hext.1 hyes).1,
            if_neg fun hyes => hnext ((continuedBy_iff hflags hrun hr).1 hyes),
            ih (by omega) (alike_single hr)]
          rfl

/-- A block adds its bytes to those of the run that it continues. -/
theorem BlockFile.IsRun.places_grow {run : RawExtent}
    (hrun : f.IsRun b run) (hb : b < f.count) (hr : f.IsBlock b r)
    (hnext : run.physical.toNat + run.length.toNat = r.physical.toNat) :
    RawExtent.places { run with length := run.length + f.size }
      = run.places ++ r.places := by
  have hlogical := hrun.logical_eq.trans hr.logical_eq.symm
  unfold RawExtent.places
  dsimp only
  rw [hrun.toNat_grown hb, hr.length_eq, List.range_add, List.map_append,
    List.map_map, ← hnext, ← hlogical]
  simp [Function.comp_def, Nat.add_assoc]

/-- However much room there is, the walk hands out records only, and they
cover the bytes of the run that was there and of all blocks behind it. -/
theorem exists_itemsFrom (h : source.Answers f) (most : UInt64)
    (hcount : b + count = f.count) (run : Option RawExtent)
    (hrun : ∀ r ∈ run, f.IsRun b r) (s : σ) :
    ∃ records : List RawExtent,
      itemsFrom source f most count b run s = records.map .ok ∧
      records.flatMap RawExtent.places
        = run.toList.flatMap RawExtent.places
          ++ (f.recordsFrom b count).flatMap RawExtent.places := by
  induction count generalizing b run s with
  | zero =>
    refine ⟨run.toList, itemsFrom_zero run s, ?_⟩
    simp [BlockFile.recordsFrom]
  | succ count ih =>
    have hb : b < f.count := by omega
    have hmore : b + 1 + count = f.count := by omega
    let s' := (source.lookup (.ofNat b) s).2
    rw [BlockFile.recordsFrom_succ, List.flatMap_append]
    cases hrecord : f.record? b with
    | none =>
      obtain ⟨records, hitems, hplaces⟩ := ih hmore none nofun s'
      refine ⟨run.toList ++ records, ?_, ?_⟩
      · rw [itemsFrom_hole h hb s hrecord, hitems, List.map_append]
      · rw [List.flatMap_append, hplaces]
    | some r =>
      have hr := BlockFile.isBlock_of_record? hb hrecord
      have hfirst : ∀ run ∈ some r.asMerged, f.IsRun (b + 1) run := by
        intro run hrun
        obtain rfl := Option.some_inj.1 hrun
        exact hr.isRun.asMerged
      -- the block begins a run of its own, unless it lengthens one
      obtain ⟨begun, hbegun, hbegunPlaces⟩ := ih hmore _ hfirst s'
      replace hbegunPlaces : begun.flatMap RawExtent.places
          = [r].flatMap RawExtent.places
            ++ (f.recordsFrom (b + 1) count).flatMap RawExtent.places :=
        hbegunPlaces
      rw [Option.toList_some]
      cases run with
      | none =>
        rw [itemsFrom_first h hb s hrecord]
        exact ⟨begun, hbegun, hbegunPlaces⟩
      | some run =>
        have hrun := hrun run rfl
        rw [itemsFrom_next h hb s hrecord]
        split
        · next hext =>
          have hnext := ((extendsRun_iff hrun hr).1 hext).1
          have hgrown : ∀ grown ∈ some
              { run with length := run.length + f.size },
              f.IsRun (b + 1) grown := by
            intro grown hsome
            obtain rfl := Option.some_inj.1 hsome
            exact hrun.grow hb hr hnext
          obtain ⟨records, hitems, hplaces⟩ := ih hmore _ hgrown s'
          refine ⟨records, hitems, ?_⟩
          rw [hplaces, Option.toList_some, Option.toList_some,
            List.flatMap_singleton, List.flatMap_singleton,
            List.flatMap_singleton, hrun.places_grow hb hr hnext,
            List.append_assoc]
        · refine ⟨run :: begun, ?_, ?_⟩
          · rw [hbegun]
            rfl
          · rw [List.flatMap_cons, hbegunPlaces, Option.toList_some,
              List.flatMap_singleton, List.flatMap_singleton]

end Together

-- =============================================================== whole files

section Files

variable {σ : Type} {source : BlockSource σ} {f : BlockFile}

theorem BlockFile.records_eq (f : BlockFile) :
    f.recordsFrom 0 f.count = f.records := by
  rw [recordsFrom, records, List.range_eq_range']

/-- A unit begins before the end of some bytes exactly if it is one of
those that cover them. -/
theorem lt_units_iff {bytes unit b : Nat} (hunit : 0 < unit) :
    b < (bytes + unit - 1) / unit ↔ b * unit < bytes := by
  rw [Nat.lt_iff_add_one_le, Nat.le_div_iff_mul_le hunit, Nat.add_mul,
    Nat.one_mul]
  omega

/-- The number of units that cover a size is the quotient rounded up, which is
no more than the size and so is a word. -/
theorem toNat_unitsCovering {size unit : UInt64} (hunit : 0 < unit.toNat) :
    (unitsCovering size unit).toNat
      = (size.toNat + unit.toNat - 1) / unit.toNat := by
  have hsize := size.toNat_lt
  have hle : (size.toNat + unit.toNat - 1) / unit.toNat ≤ size.toNat := by
    apply Nat.le_of_not_lt
    rw [lt_units_iff hunit]
    exact Nat.not_lt.2 (Nat.le_mul_of_pos_right _ hunit)
  rw [unitsCovering, UInt64.toNat_ofNat', Nat.mod_eq_of_lt (by omega)]

/-- A file is covered by as many units as it has blocks. -/
theorem BlockFile.unitsCovering_fileSize (f : BlockFile) :
    (unitsCovering f.fileSize f.size).toNat = f.count := by
  have hsize : f.fileSize.toNat = f.count * f.size.toNat := by
    have hfits := f.count_fits
    rw [toNat_maxWord] at hfits
    rw [fileSize, UInt64.toNat_ofNat', Nat.mod_eq_of_lt (by omega)]
  have hunits : (f.count * f.size.toNat + f.size.toNat - 1) / f.size.toNat
      = f.count := by
    have hpos := f.size_pos
    rw [Nat.add_sub_assoc hpos, Nat.mul_comm, Nat.mul_add_div hpos,
      Nat.div_eq_of_lt (by omega), Nat.add_zero]
  rw [toNat_unitsCovering f.size_pos, hsize, hunits]

/-- A file is read as a walk over all of its blocks. -/
theorem run_eq_itemsFrom (h : source.Answers f) (mostBlocks : UInt64)
    (s : σ) :
    ∃ trace s', BlockReader.run ⟨f.fileSize, mostBlocks, none⟩ source s
        = (.ok (f.size, trace), s') ∧
      trace.items = itemsFrom source f (max mostBlocks 1) f.count 0 none
        (source.blockSize s).2 := by
  have hsize : source.blockSize s = (.ok f.size, (source.blockSize s).2) :=
    Prod.ext (h.size_eq s) rfl
  have hcount : (unitsCovering f.fileSize f.size).toNat
      - (0 : UInt64).toNat = f.count := by
    rw [f.unitsCovering_fileSize]
    rfl
  unfold BlockReader.run BlockReader.runWith BlockReader.bounds
  rw [hsize]
  dsimp only
  rw [hcount]
  exact ⟨_, _, rfl, rfl⟩

theorem BlockFile.fits_of_mem {e : RawExtent} (he : e ∈ f.records) :
    e.Fits := by
  obtain ⟨b, hb, hrecord⟩ := List.mem_filterMap.1 he
  have hb := List.mem_range.1 hb
  have hr := isBlock_of_record? hb hrecord
  have hend := hr.isRun.logical_eq
  rw [RawExtent.Fits, hend, hr.length_eq]
  exact ⟨hr.physical_le, f.end_le hb⟩

/-- What has no failures has records only. -/
theorem exists_records {items : List (Except Error RawExtent)}
    (h : failuresOf items = []) :
    ∃ records : List RawExtent, items = records.map .ok := by
  induction items with
  | nil => exact ⟨[], rfl⟩
  | cons item rest ih =>
    cases item with
    | error e => cases h
    | ok r =>
      obtain ⟨records, rfl⟩ := ih h
      exact ⟨r :: records, rfl⟩

/-- Joining single blocks gives records only, which cover the bytes of the
blocks. -/
theorem BlockFile.exists_join (f : BlockFile) :
    ∃ joined : List RawExtent, (join f.trace).items = joined.map .ok ∧
      joined.flatMap RawExtent.places
        = f.records.flatMap RawExtent.places := by
  have hitems : f.trace.items = f.records.map .ok :=
    Trace.items_give id f.records
  have hjoined : Joined f.trace.items (join f.trace).items := by
    refine joined_from none [] f.trace rfl fun e he => ?_
    rw [hitems] at he
    obtain ⟨r, hr, heq⟩ := List.mem_map.1 he
    obtain rfl := Except.ok.inj heq
    exact f.fits_of_mem hr
  have hnone : failuresOf (join f.trace).items = [] := by
    rw [hjoined.failures_eq, hitems]
    simp [failuresOf]
  obtain ⟨joined, hout⟩ := exists_records hnone
  have hplaces := hjoined.places_eq
  rw [hout, hitems, placesOf, placesOf, List.flatMap_map,
    List.flatMap_map] at hplaces
  exact ⟨joined, hout, hplaces⟩

/-- A walk over the blocks of a file and joining their records come to the
same. The records are the same but for the mark of joined ones, if there is
room for all blocks in one record, and cover the same bytes at the same
places in any case. -/
theorem BlockFile.read_joins (f : BlockFile) (h : source.Answers f)
    (mostBlocks : UInt64) (s : σ) :
    ∃ (walked joined : List RawExtent) (trace : Trace UInt64 RawExtent)
        (s' : σ),
      BlockReader.run ⟨f.fileSize, mostBlocks, none⟩ source s
        = (.ok (f.size, trace), s') ∧
      trace.items = walked.map .ok ∧
      (join f.trace).items = joined.map .ok ∧
      (f.count ≤ mostBlocks.toNat →
        walked = joined.map RawExtent.asMerged) ∧
      walked.flatMap RawExtent.places
        = joined.flatMap RawExtent.places ∧
      joined.flatMap RawExtent.places
        = f.records.flatMap RawExtent.places := by
  obtain ⟨trace, s', hrun, htrace⟩ := run_eq_itemsFrom h mostBlocks s
  obtain ⟨joined, hjoined, hbytes⟩ := f.exists_join
  obtain ⟨walked, hwalked, hplaces⟩ := exists_itemsFrom h (max mostBlocks 1)
    (Nat.zero_add f.count) none nofun (source.blockSize s).2
  rw [f.records_eq] at hplaces
  refine ⟨walked, joined, trace, s', hrun, htrace.trans hwalked, hjoined,
    ?_, hplaces.trans hbytes.symm, hbytes⟩
  intro hmost
  -- the walk raises a bound of zero to one, which only gives more room
  have hroom : f.count ≤ (max mostBlocks 1).toNat := by
    show f.count ≤ (if mostBlocks ≤ 1 then 1 else mostBlocks).toNat
    split
    · next hfew => exact Nat.le_trans hmost (UInt64.le_iff_toNat_le.1 hfew)
    · exact hmost
  have hsame := itemsFrom_eq_joinFrom (ρ := Unit) h hroom
    (Nat.zero_add f.count) .nothing (source.blockSize s).2
  rw [hwalked, f.records_eq] at hsame
  replace hsame : walked.map .ok
      = (join f.trace).items.map (Except.map RawExtent.asMerged) := hsame
  rw [hjoined, List.map_map] at hsame
  have hinj : Function.Injective (Except.ok : RawExtent → Except Error _) :=
    fun _ _ => Except.ok.inj
  apply hinj.list_map
  rw [hsame, List.map_map]
  rfl

end Files

/-- Two blocks, a hole, a block that follows on the device what lies before
the hole, and two blocks at the end of the largest device. -/
def holedFile : BlockFile where
  size := 4096
  count := 6
  place b := [25, 26, 0, 27, 0xFFFFFFFFFFFFD, 0xFFFFFFFFFFFFE].getD b.toNat 0
  size_pos := by decide
  count_fits := by decide
  place_fits := by decide

/-- A source that also remembers which blocks it was asked for. -/
def holedSource : BlockSource (List UInt64) where
  blockSize s := (.ok holedFile.size, s)
  lookup b s := (.ok (holedFile.place b), s ++ [b])

/-- The blocks around a hole are read as two records, although they are
neighbours on the device. With room for one block in a record the bytes are
still the same. -/
theorem BlockFile.read_joins_holedFile :
    let whole : List RawExtent := [⟨0, 0x19000, 0x2000, .merged⟩,
      ⟨0x3000, 0x1B000, 0x1000, .empty⟩,
      ⟨0x4000, 0xFFFFFFFFFFFFD000, 0x2000, .merged⟩]
    holedSource.Answers holedFile ∧
      (join holedFile.trace).items = whole.map .ok ∧
      (∃ trace s', BlockReader.run ⟨holedFile.fileSize, 6, none⟩ holedSource []
          = (.ok (4096, trace), s') ∧
        trace.items = (whole.map RawExtent.asMerged).map .ok) ∧
      ∃ (walked : List RawExtent) (trace : Trace UInt64 RawExtent)
          (s' : List UInt64),
        BlockReader.run ⟨holedFile.fileSize, 1, none⟩ holedSource []
          = (.ok (4096, trace), s') ∧
        trace.items = walked.map .ok ∧
        walked.flatMap RawExtent.places = whole.flatMap RawExtent.places := by
  intro whole
  have hanswers : holedSource.Answers holedFile :=
    ⟨fun _ => rfl, fun _ _ _ => rfl⟩
  have hinj : Function.Injective
      (List.map (Except.ok : RawExtent → Except Error _)) :=
    List.map_injective_iff.2 fun _ _ => Except.ok.inj
  have hwhole : (join holedFile.trace).items = whole.map .ok := by cbv
  refine ⟨hanswers, hwhole, ?_, ?_⟩
  · obtain ⟨walked, joined, trace, s', hrun, hitems, hjoined, hsame, -⟩ :=
      holedFile.read_joins hanswers 6 []
    obtain rfl := hinj (hjoined.symm.trans hwhole)
    rw [hsame (by decide)] at hitems
    exact ⟨trace, s', hrun, hitems⟩
  · obtain ⟨walked, joined, trace, s', hrun, hitems, hjoined, -, hplaces, -⟩ :=
      holedFile.read_joins hanswers 1 []
    obtain rfl := hinj (hjoined.symm.trans hwhole)
    exact ⟨walked, trace, s', hrun, hitems, hplaces⟩

end Mapping

end DiskAtlas

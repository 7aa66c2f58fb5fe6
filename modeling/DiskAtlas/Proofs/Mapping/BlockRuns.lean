/-
What a walk over blocks hands out. The blocks that are no holes fall into
runs of neighbours on the device, none of which has more blocks than a
record may have, and each run is one record (`exists_runs`). A run ends
where it does because the next block is a hole or lies elsewhere, because
it is full, or because nothing else is read.

So each block that is read and is no hole lies in exactly one record, at
its own place on the device, and two neighbours are told apart only by a
record that is full (`BlockReader.run_capped`).
-/
import DiskAtlas.Proofs.Mapping.BlockWalk
import DiskAtlas.Proofs.Mapping.Listening

namespace DiskAtlas.Mapping

-- ================================================================= runs

/-- Neighbouring blocks of a file: the first one, and how many they are. -/
structure BlockRun where
  first : Nat
  count : Nat

namespace BlockRun

def blocks (run : BlockRun) : List Nat := List.range' run.first run.count

/-- The one record for a run. -/
def record (f : BlockFile) (run : BlockRun) : RawExtent :=
  ⟨.ofNat run.first * f.size, f.place (.ofNat run.first) * f.size,
    .ofNat run.count * f.size, .merged⟩

theorem mem_blocks {run : BlockRun} {b : Nat} :
    b ∈ run.blocks ↔ run.first ≤ b ∧ b < run.first + run.count :=
  List.mem_range'_1

theorem blocks_nodup (run : BlockRun) : run.blocks.Nodup :=
  List.nodup_range'

/-- A block is a run by itself. -/
def single (b : Nat) : BlockRun := ⟨b, 1⟩

/-- The run with the next block. -/
def grow (run : BlockRun) : BlockRun := ⟨run.first, run.count + 1⟩

theorem record_single (f : BlockFile) (b : Nat) :
    (single b).record f
      = blockRecord f.size (.ofNat b) (f.place (.ofNat b)) := by
  simp [record, single, blockRecord]

/-- A run that grows keeps its record but for the length, which is how the walk
lets it grow. -/
theorem record_grow (f : BlockFile) (run : BlockRun) :
    run.grow.record f
      = { run.record f with length := (run.record f).length + f.size } := by
  simp [record, grow, UInt64.ofNat_add, UInt64.add_mul]

theorem blocks_grow (run : BlockRun) :
    run.grow.blocks = run.blocks ++ [run.first + run.count] := by
  simp [blocks, grow, List.range'_concat]

end BlockRun

namespace BlockFile

variable {f : BlockFile} {most stop b : Nat} {run : BlockRun}
  {r : RawExtent}

/-- The block of the device behind a block, or zero for a hole. -/
def spot (f : BlockFile) (b : Nat) : Nat := (f.place (.ofNat b)).toNat

/-- A block has no record exactly if it is a hole. The first block of the
device cannot be told from a hole. -/
theorem record?_eq_none_iff : f.record? b = none ↔ f.spot b = 0 := by
  unfold record? spot
  dsimp only
  split
  · next h => simp [h]
  · next h => simpa [← UInt64.toNat_inj] using h

/-- The walk begins a run with the record of a block. -/
theorem asMerged_eq (h : f.record? b = some r) :
    r.asMerged = (BlockRun.single b).record f := by
  rw [BlockRun.record_single]
  exact (blockRecord_eq h).2.symm

/-- The record of a block says where it is on the device. The product does not
wrap, since what lies there ends within the largest offset. -/
theorem physical_of_record? (hb : b < f.count) (h : f.record? b = some r) :
    r.physical.toNat = f.spot b * f.size.toNat := by
  have hplace := f.place_fits b hb
  rw [toNat_maxWord, Nat.add_mul, Nat.one_mul] at hplace
  unfold record? at h
  dsimp only at h
  split at h
  · cases h
  · obtain rfl := Option.some_inj.1 h
    exact (UInt64.toNat_mul ..).trans (Nat.mod_eq_of_lt (by omega))

/-- Blocks that lie side by side on the device, no more than a record may
have. -/
structure Straight (f : BlockFile) (most : Nat) (run : BlockRun) : Prop where
  count_pos : 1 ≤ run.count
  count_le : run.count ≤ most
  end_le : run.first + run.count ≤ f.count
  mapped : f.spot run.first ≠ 0
  side_by_side : ∀ i < run.count,
    f.spot (run.first + i) = f.spot run.first + i

/-- A run could have no other block: it is full, or the next block is not
read, is a hole or lies elsewhere. -/
structure Capped (f : BlockFile) (most stop : Nat) (run : BlockRun) : Prop
    extends f.Straight most run where
  closed : run.first + run.count < stop →
    f.spot (run.first + run.count) = f.spot run.first + run.count →
    run.count = most

namespace Straight

theorem single (hmost : 1 ≤ most) (hb : b < f.count) (h : f.spot b ≠ 0) :
    f.Straight most (.single b) where
  count_pos := Nat.le_refl 1
  count_le := hmost
  end_le := hb
  mapped := h
  side_by_side := by
    intro i hi
    obtain rfl : i = 0 := Nat.lt_one_iff.1 hi
    rfl

variable (h : f.Straight most run)

include h

theorem grow (hmore : run.count < most) (hb : run.first + run.count < f.count)
    (hnext : f.spot (run.first + run.count)
      = f.spot run.first + run.count) : f.Straight most run.grow where
  count_pos := Nat.le_succ_of_le h.count_pos
  count_le := hmore
  end_le := hb
  mapped := h.mapped
  side_by_side := by
    intro i hi
    rcases Nat.lt_succ_iff_lt_or_eq.1 hi with hlt | heq
    · exact h.side_by_side i hlt
    · rw [heq]
      exact hnext

theorem first_lt : run.first < f.count := by
  have hpos := h.count_pos
  have hend := h.end_le
  omega

/-- The fields of a run's record are exact: no product wraps, since the whole
file fits, in itself and on the device. -/
theorem toNat_logical :
    (run.record f).logical.toNat = run.first * f.size.toNat := by
  have hend := f.end_le h.first_lt
  rw [toNat_maxWord, Nat.add_mul, Nat.one_mul] at hend
  show (UInt64.ofNat run.first * f.size).toNat = _
  rw [UInt64.toNat_mul, f.toNat_block h.first_lt,
    Nat.mod_eq_of_lt (by omega)]

theorem toNat_physical :
    (run.record f).physical.toNat = f.spot run.first * f.size.toNat := by
  have hplace := f.place_fits run.first h.first_lt
  rw [toNat_maxWord, Nat.add_mul, Nat.one_mul] at hplace
  exact (UInt64.toNat_mul ..).trans (Nat.mod_eq_of_lt (by
    show f.spot run.first * f.size.toNat < _
    have hspot : (f.place (.ofNat run.first)).toNat = f.spot run.first := rfl
    rw [hspot] at hplace
    omega))

theorem toNat_length :
    (run.record f).length.toNat = run.count * f.size.toNat := by
  have hle : run.count ≤ f.count := Nat.le_trans (Nat.le_add_left ..) h.end_le
  have hfits := Nat.le_trans (Nat.mul_le_mul_right f.size.toNat hle)
    f.count_fits
  have hcount := Nat.le_trans hle f.count_le
  rw [toNat_maxWord] at hfits hcount
  show (UInt64.ofNat run.count * f.size).toNat = _
  rw [UInt64.toNat_mul, UInt64.toNat_ofNat',
    Nat.mod_eq_of_lt (a := run.count) (by omega),
    Nat.mod_eq_of_lt (by omega)]

/-- The record of a run ends where the next block begins. -/
theorem isRun : f.IsRun (run.first + run.count) (run.record f) := by
  have hpos := h.count_pos
  have hlast := h.side_by_side (run.count - 1) (by omega)
  have hplace := f.place_fits (run.first + (run.count - 1)) (by
    have hend := h.end_le
    omega)
  have hspot : (f.place (.ofNat (run.first + (run.count - 1)))).toNat + 1
      = f.spot run.first + run.count := by
    show f.spot (run.first + (run.count - 1)) + 1 = _
    omega
  rw [hspot, Nat.add_mul] at hplace
  constructor
  · rw [h.toNat_logical, h.toNat_length, Nat.add_mul]
  · rw [h.toNat_physical, h.toNat_length]
    exact hplace

/-- The next block continues a run if it lies behind it on the device and
the run is not full. -/
theorem extendsRun_iff {cap : UInt64} (hcap : cap.toNat = most)
    (hb : run.first + run.count < f.count)
    (hrecord : f.record? (run.first + run.count) = some r) :
    extendsRun f.size cap (run.record f) r.asMerged = true ↔
      f.spot (run.first + run.count) = f.spot run.first + run.count ∧
        run.count < most := by
  have hr := isBlock_of_record? hb hrecord
  rw [Mapping.extendsRun_iff h.isRun hr, h.toNat_physical, h.toNat_length,
    physical_of_record? hb hrecord, ← Nat.add_mul,
    Nat.mul_div_cancel _ f.size_pos, hcap,
    Nat.mul_right_cancel_iff f.size_pos]
  exact and_congr_left' eq_comm

/-- At the end of what is read every run is closed. -/
theorem capped_of_stop (hend : run.first + run.count = stop) :
    f.Capped most stop run :=
  { h with closed := by omega }

/-- A hole closes the run before it. -/
theorem capped_of_hole (hhole : f.spot (run.first + run.count) = 0) :
    f.Capped most stop run := by
  refine { h with closed := ?_ }
  intro _ hnext
  have hmapped := h.mapped
  omega

/-- A block that does not continue a run closes it. -/
theorem capped_of_not_extendsRun {cap : UInt64} (hcap : cap.toNat = most)
    (hb : run.first + run.count < f.count)
    (hrecord : f.record? (run.first + run.count) = some r)
    (hext : ¬ extendsRun f.size cap (run.record f) r.asMerged) :
    f.Capped most stop run := by
  refine { h with closed := ?_ }
  intro _ hnext
  by_contra hfull
  exact hext ((h.extendsRun_iff hcap hb hrecord).2
    ⟨hnext, Nat.lt_of_le_of_ne h.count_le hfull⟩)

end Straight

end BlockFile

-- ============================================================== the walk

/-- The items are records of capped runs, which together have these
blocks. -/
def HandsOut (f : BlockFile) (most stop : Nat)
    (items : List (Except Error RawExtent)) (blocks : List Nat) : Prop :=
  ∃ runs : List BlockRun, items = runs.map (fun run => .ok (run.record f)) ∧
    (∀ run ∈ runs, f.Capped most stop run) ∧
    runs.flatMap BlockRun.blocks = blocks

theorem handsOut_nil {f : BlockFile} {most stop : Nat} :
    HandsOut f most stop [] [] :=
  ⟨[], rfl, nofun, rfl⟩

theorem HandsOut.cons {f : BlockFile} {most stop : Nat} {run : BlockRun}
    {items : List (Except Error RawExtent)} {blocks : List Nat}
    (h : HandsOut f most stop items blocks) (hrun : f.Capped most stop run) :
    HandsOut f most stop (.ok (run.record f) :: items)
      (run.blocks ++ blocks) := by
  obtain ⟨runs, rfl, hruns, rfl⟩ := h
  exact ⟨run :: runs, rfl, List.forall_mem_cons.2 ⟨hrun, hruns⟩, rfl⟩

section Walk

variable {σ : Type} {source : BlockSource σ} {f : BlockFile} {b count : Nat}
  {cap : UInt64}

variable (cap) in
/-- The walk asks for each block once, in order. -/
theorem requests_walkBlocksFrom (h : source.Answers f)
    (hin : ∀ c ∈ List.range' b count, c < f.count) (run : Option RawExtent)
    (s : σ) :
    (walkBlocksFrom source f.size cap count (.ofNat b) run s).1.requests
      = (List.range' b count).map .ofNat := by
  induction count generalizing b run s with
  | zero => cases run <;> rfl
  | succ count ih =>
    rw [List.range'_succ] at hin ⊢
    obtain ⟨hb, hmore⟩ := List.forall_mem_cons.1 hin
    have hrest := fun run s => ih hmore run s
    simp only [UInt64.ofNat_add] at hrest
    have hgive : ∀ run : Option RawExtent,
        Trace.requests ((run.map Step.give).toList : Trace UInt64 RawExtent)
          = [] := by
      intro run
      cases run <;> rfl
    rw [walkBlocksFrom, lookup_eq h hb s, List.map_cons]
    dsimp only
    split
    · simp only [Trace.requests_ask, Trace.requests_append, hgive,
        List.nil_append]
      exact congrArg _ (hrest ..)
    · split
      · rw [Trace.requests_ask]
        exact congrArg _ (hrest ..)
      · split
        · rw [Trace.requests_ask]
          exact congrArg _ (hrest ..)
        · exact congrArg (_ :: ·) (hrest ..)

/-- The walk hands out capped runs of the run so far and of the blocks
behind it that are no holes. -/
theorem handsOut_itemsFrom (h : source.Answers f) (hcap : 1 ≤ cap.toNat)
    {stop : Nat} (hcount : b + count = stop)
    (hin : ∀ c ∈ List.range' b count, c < f.count) (run : Option BlockRun)
    (hrun : ∀ r ∈ run, f.Straight cap.toNat r ∧ r.first + r.count = b)
    (s : σ) :
    HandsOut f cap.toNat stop
      (itemsFrom source f cap count b (run.map (·.record f)) s)
      (run.toList.flatMap BlockRun.blocks
        ++ (List.range' b count).filter (f.spot · ≠ 0)) := by
  induction count generalizing b run s with
  | zero =>
    rw [itemsFrom_zero]
    cases run with
    | none => exact handsOut_nil
    | some run =>
      obtain ⟨hstraight, hend⟩ := hrun run rfl
      simpa using handsOut_nil.cons
        (hstraight.capped_of_stop (hend.trans hcount))
  | succ count ih =>
    have hnext : b + 1 + count = stop := by omega
    rw [List.range'_succ] at hin ⊢
    obtain ⟨hb, hmore⟩ := List.forall_mem_cons.1 hin
    cases hrecord : f.record? b with
    | none =>
      have hhole := BlockFile.record?_eq_none_iff.1 hrecord
      have hrest := ih hnext hmore none nofun (source.lookup (.ofNat b) s).2
      rw [itemsFrom_hole h hb s hrecord]
      cases run with
      | none => simpa [hhole] using hrest
      | some run =>
        obtain ⟨hstraight, rfl⟩ := hrun run rfl
        simpa [hhole] using hrest.cons (hstraight.capped_of_hole hhole)
    | some r =>
      have hmapped : f.spot b ≠ 0 := by
        intro hhole
        cases (BlockFile.record?_eq_none_iff.2 hhole).symm.trans hrecord
      have hone := BlockFile.asMerged_eq hrecord
      have hsingle : ∀ one ∈ some (BlockRun.single b),
          f.Straight cap.toNat one ∧ one.first + one.count = b + 1 := by
        intro one hsome
        obtain rfl := Option.some_inj.1 hsome
        exact ⟨.single hcap hb hmapped, rfl⟩
      -- the block begins a run of its own, unless it lengthens one
      have hbegun := ih hnext hmore _ hsingle (source.lookup (.ofNat b) s).2
      rw [Option.map_some, ← hone] at hbegun
      replace hbegun : HandsOut f cap.toNat stop _
        (b :: (List.range' (b + 1) count).filter (f.spot · ≠ 0)) := hbegun
      have hblocks : (b :: List.range' (b + 1) count).filter (f.spot · ≠ 0)
          = b :: (List.range' (b + 1) count).filter (f.spot · ≠ 0) := by
        simp [hmapped]
      rw [hblocks]
      cases run with
      | none =>
        rw [Option.map_none, itemsFrom_first h hb s hrecord]
        exact hbegun
      | some run =>
        obtain ⟨hstraight, rfl⟩ := hrun run rfl
        rw [Option.map_some, itemsFrom_next h hb s hrecord]
        split
        · next hext =>
          obtain ⟨hside, hroom⟩ :=
            (hstraight.extendsRun_iff rfl hb hrecord).1 hext
          have hgrown : ∀ grown ∈ some run.grow,
              f.Straight cap.toNat grown ∧
                grown.first + grown.count = run.first + run.count + 1 := by
            intro grown hsome
            obtain rfl := Option.some_inj.1 hsome
            exact ⟨hstraight.grow hroom hb hside, rfl⟩
          rw [← BlockRun.record_grow]
          simpa [BlockRun.blocks_grow] using ih hnext hmore _ hgrown
            (source.lookup (.ofNat (run.first + run.count)) s).2
        · next hext =>
          simpa using hbegun.cons
            (hstraight.capped_of_not_extendsRun rfl hb hrecord hext)

end Walk

-- ============================================================= records

namespace BlockFile

variable {f : BlockFile} {most stop b : Nat} {run : BlockRun}

/-- Does a record have a byte of a block? -/
abbrev Touches (f : BlockFile) (b : Nat) (e : RawExtent) : Prop :=
  e.Meets (b * f.size.toNat) ((b + 1) * f.size.toNat)

/-- Does a block lie in a record, at its own place on the device? -/
structure LiesIn (f : BlockFile) (b : Nat) (e : RawExtent) : Prop where
  logical_le : e.logical.toNat ≤ b * f.size.toNat
  end_le : (b + 1) * f.size.toNat ≤ e.logical.toNat + e.length.toNat
  physical_eq : e.physical.toNat + (b * f.size.toNat - e.logical.toNat)
    = f.spot b * f.size.toNat

namespace Straight

variable (h : f.Straight most run)

include h

/-- The record of a run has bytes of the blocks of the run only. -/
theorem touches_iff : f.Touches b (run.record f) ↔ b ∈ run.blocks := by
  have hpos := f.size_pos
  have hstart := Nat.mul_lt_mul_right (b := run.first) (c := b + 1) hpos
  have hend := Nat.mul_lt_mul_right (b := b)
    (c := run.first + run.count) hpos
  have hcount : f.size.toNat ≤ run.count * f.size.toNat :=
    Nat.le_mul_of_pos_left _ h.count_pos
  rw [Touches, RawExtent.meets_iff, h.toNat_logical, h.toNat_length,
    BlockRun.mem_blocks, ← Nat.add_mul]
  rw [Nat.add_mul] at hend ⊢
  rw [Nat.add_mul, Nat.one_mul] at hstart ⊢
  omega

/-- Each block of a run lies in the record of the run. -/
theorem liesIn (hb : b ∈ run.blocks) : f.LiesIn b (run.record f) := by
  obtain ⟨hfirst, hlast⟩ := BlockRun.mem_blocks.1 hb
  have hstart := Nat.mul_le_mul_right f.size.toNat hfirst
  have hend := Nat.mul_le_mul_right f.size.toNat (Nat.succ_le_of_lt hlast)
  have hspot := h.side_by_side (b - run.first) (by omega)
  rw [Nat.add_sub_cancel' hfirst] at hspot
  constructor
  · rw [h.toNat_logical]
    exact hstart
  · rw [h.toNat_logical, h.toNat_length, ← Nat.add_mul]
    exact hend
  · rw [h.toNat_physical, h.toNat_logical, hspot, ← Nat.sub_mul,
      ← Nat.add_mul]

end Straight

end BlockFile

/-- Records of a file of which some blocks were asked for: each of these
blocks that is no hole lies in exactly one record, nothing else lies in
any, and two neighbours are told apart only by a full record. -/
structure CappedRuns (f : BlockFile) (most : Nat) (asked : List Nat)
    (records : List RawExtent) : Prop where
  once : ∀ b ∈ asked, f.spot b ≠ 0 → records.countP (f.Touches b ·) = 1
  placed : ∀ e ∈ records, ∀ b, f.Touches b e →
    b ∈ asked ∧ f.spot b ≠ 0 ∧ f.LiesIn b e
  sized : ∀ e ∈ records, ∃ n, 1 ≤ n ∧ n ≤ most ∧
    e.length.toNat = n * f.size.toNat
  marked : ∀ e ∈ records, e.flags = .merged
  full : ∀ b, f.spot (b + 1) = f.spot b + 1 →
    ∀ e ∈ records, f.Touches b e → ∀ e' ∈ records, f.Touches (b + 1) e' →
      e = e' ∨ e.length.toNat = most * f.size.toNat

/-- Where one element only has a property, two that have it are one. -/
theorem eq_of_countP_eq_one {α : Type} {p : α → Bool} {l : List α}
    (h : l.countP p = 1) {a b : α} (ha : a ∈ l) (hpa : p a) (hb : b ∈ l)
    (hpb : p b) : a = b := by
  rw [List.countP_eq_length_filter, List.length_eq_one_iff] at h
  obtain ⟨c, hc⟩ := h
  have hac : a ∈ l.filter p := List.mem_filter.2 ⟨ha, hpa⟩
  have hbc : b ∈ l.filter p := List.mem_filter.2 ⟨hb, hpb⟩
  rw [hc, List.mem_singleton] at hac hbc
  rw [hac, hbc]

/-- A block is in as many runs as times among all of their blocks. -/
theorem countP_blocks (b : Nat) (runs : List BlockRun) :
    runs.countP (b ∈ ·.blocks) = (runs.flatMap BlockRun.blocks).count b := by
  induction runs with
  | nil => rfl
  | cons run runs ih =>
    rw [List.countP_cons, List.flatMap_cons, List.count_append, ih,
      run.blocks_nodup.count, Nat.add_comm]
    simp

section Runs

variable {f : BlockFile} {most first count : Nat} {runs : List BlockRun}
  (hcapped : ∀ run ∈ runs, f.Capped most (first + count) run)
  (hblocks : runs.flatMap BlockRun.blocks
    = (List.range' first count).filter (f.spot · ≠ 0))

include hcapped hblocks

/-- A block that is read and is no hole is touched by one record, any other by
none. -/
theorem countP_touches (b : Nat) :
    (runs.map (·.record f)).countP (f.Touches b ·)
      = if b ∈ List.range' first count ∧ f.spot b ≠ 0 then 1 else 0 := by
  have hsame : runs.countP ((f.Touches b ·) ∘ (·.record f))
      = runs.countP (b ∈ ·.blocks) := by
    apply List.countP_congr
    intro run hrun
    simpa using (hcapped run hrun).touches_iff
  have hnodup : ((List.range' first count).filter (f.spot · ≠ 0)).Nodup :=
    List.Nodup.sublist List.filter_sublist List.nodup_range'
  rw [List.countP_map, hsame, countP_blocks, hblocks, hnodup.count]
  simp

/-- The records of closed runs have all that is said of what a walk hands out.
That the runs list the blocks in order, and each of them once, is what makes
the records distinct. -/
theorem cappedRuns :
    CappedRuns f most (List.range' first count)
      (runs.map (·.record f)) := by
  have hplaced : ∀ run ∈ runs, ∀ b ∈ run.blocks,
      b ∈ List.range' first count ∧ f.spot b ≠ 0 := by
    intro run hrun b hb
    have hmem : b ∈ runs.flatMap BlockRun.blocks :=
      List.mem_flatMap.2 ⟨run, hrun, hb⟩
    rw [hblocks, List.mem_filter] at hmem
    exact ⟨hmem.1, by simpa using hmem.2⟩
  constructor
  · intro b hb hmapped
    rw [countP_touches hcapped hblocks, if_pos ⟨hb, hmapped⟩]
  · intro e he b htouches
    obtain ⟨run, hrun, rfl⟩ := List.mem_map.1 he
    have hb := (hcapped run hrun).touches_iff.1 htouches
    obtain ⟨hasked, hmapped⟩ := hplaced run hrun b hb
    exact ⟨hasked, hmapped, (hcapped run hrun).liesIn hb⟩
  · intro e he
    obtain ⟨run, hrun, rfl⟩ := List.mem_map.1 he
    have h := hcapped run hrun
    exact ⟨run.count, h.count_pos, h.count_le, h.toNat_length⟩
  · intro e he
    obtain ⟨run, -, rfl⟩ := List.mem_map.1 he
    rfl
  · intro b hnext e he htouches e' he' htouches'
    obtain ⟨run, hrun, rfl⟩ := List.mem_map.1 he
    have h := hcapped run hrun
    obtain ⟨run', hrun', heq⟩ := List.mem_map.1 he'
    have hb := hplaced run' hrun' (b + 1) (by
      rw [← heq] at htouches'
      exact (hcapped run' hrun').touches_iff.1 htouches')
    obtain ⟨hfirst, hlast⟩ :=
      BlockRun.mem_blocks.1 (h.touches_iff.1 htouches)
    rcases Nat.lt_or_ge (b + 1) (run.first + run.count) with hin | hout
    · -- both blocks are in the first run, and no other run has the second
      left
      have hsecond : f.Touches (b + 1) (run.record f) :=
        h.touches_iff.2 (BlockRun.mem_blocks.2 ⟨by omega, hin⟩)
      have honce := countP_touches hcapped hblocks (b + 1)
      rw [if_pos hb] at honce
      exact eq_of_countP_eq_one honce he (decide_eq_true hsecond) he'
        (decide_eq_true htouches')
    · -- the first run ends between the blocks, so it is full
      right
      have hend : run.first + run.count = b + 1 := by omega
      have hspot := h.side_by_side (b - run.first) (by omega)
      rw [Nat.add_sub_cancel' hfirst] at hspot
      have hfull : run.count = most := by
        apply h.closed
        · rw [hend]
          exact (List.mem_range'_1.1 hb.1).2
        · rw [hend, hnext]
          omega
      rw [h.toNat_length, hfull]

end Runs

-- ============================================================== readers

/-- The numbers in a stretch, among all numbers from zero on. -/
theorem filter_range_eq {p : Nat → Bool} {first stop count : Nat}
    (hstop : stop ≤ count)
    (hp : ∀ b < count, p b = true ↔ first ≤ b ∧ b < stop) :
    (List.range count).filter p = List.range' first (stop - first) := by
  have hleft : ((List.range count).filter p).Pairwise (· < ·) :=
    List.pairwise_lt_range.filter _
  have hright : (List.range' first (stop - first)).Pairwise (· < ·) :=
    List.pairwise_lt_range'
  apply List.Perm.eq_of_pairwise _ hleft hright
  · apply (List.perm_ext_iff_of_nodup
      (hleft.imp fun h => Nat.ne_of_lt h)
      (hright.imp fun h => Nat.ne_of_lt h)).2
    intro b
    rw [List.mem_filter, List.mem_range, List.mem_range'_1]
    constructor
    · intro h
      have hb := (hp b h.1).1 h.2
      omega
    · intro h
      have hb : b < count := by omega
      exact ⟨hb, (hp b hb).2 (by omega)⟩
  · intro a b _ _ hab hba
    omega

namespace BlockReader

variable {σ : Type} {source : BlockSource σ} {f : BlockFile}
  {r : BlockReader}

/-- Does a block have a byte of the stretch that is read? -/
def wants (r : BlockReader) (size b : Nat) : Bool :=
  r.range.all fun (start, length) =>
    max start.toNat (b * size)
      < min (start.toNat + length.toNat) ((b + 1) * size)

/-- The blocks of a file that a reader looks up. -/
def wanted (r : BlockReader) (f : BlockFile) : List Nat :=
  (List.range f.count).filter (r.wants f.size.toNat)

/-- A block of the stretch ends behind its start and begins before its
end. -/
theorem wants_iff {start length : UInt64}
    (hrange : r.range = some (start, length)) (hlength : 1 ≤ length)
    {size b : Nat} (hsize : 0 < size) :
    r.wants size b = true ↔
      start.toNat < (b + 1) * size ∧
        b * size < start.toNat + length.toNat := by
  have hlength : 1 ≤ length.toNat := UInt64.le_iff_toNat_le.1 hlength
  rw [wants, hrange, Option.all_some, decide_eq_true_iff, Nat.add_mul,
    Nat.one_mul]
  omega

/-- A block of the file is wanted if it lies between the bounds. -/
theorem wants_iff_bounds {size : UInt64} {b : Nat} (hsize : 0 < size.toNat)
    (hrange : ∀ start length, r.range = some (start, length) → 1 ≤ length)
    (hfile : b * size.toNat < r.fileSize.toNat) :
    r.wants size.toNat b = true ↔
      (r.bounds size).1.toNat ≤ b ∧ b < (r.bounds size).2.toNat := by
  have hunits : b < (unitsCovering r.fileSize size).toNat := by
    rw [toNat_unitsCovering hsize, lt_units_iff hsize]
    exact hfile
  unfold bounds
  cases hstretch : r.range with
  | none =>
    have hall : r.wants size.toNat b = true := by
      rw [wants, hstretch]
      rfl
    exact iff_of_true hall ⟨Nat.zero_le _, hunits⟩
  | some range =>
    obtain ⟨start, length⟩ := range
    have hword := r.fileSize.toNat_lt
    have hstop : b < (unitsCovering (satAdd start length) size).toNat ↔
        b * size.toNat < start.toNat + length.toNat := by
      rw [toNat_unitsCovering hsize, lt_units_iff hsize, toNat_satAdd,
        toNat_maxWord]
      omega
    dsimp only
    rw [wants_iff hstretch (hrange start length hstretch) hsize,
      UInt64.toNat_min, Nat.lt_min, hstop, and_iff_right hunits,
      UInt64.toNat_div, ← Nat.lt_succ_iff, Nat.div_lt_iff_lt_mul hsize]

/-- The reader looks up the blocks between its bounds. -/
theorem wanted_eq
    (hcount : f.count
      = (r.fileSize.toNat + f.size.toNat - 1) / f.size.toNat)
    (hrange : ∀ start length, r.range = some (start, length) → 1 ≤ length) :
    (r.bounds f.size).2.toNat ≤ f.count ∧
      r.wanted f = List.range' (r.bounds f.size).1.toNat
        ((r.bounds f.size).2.toNat - (r.bounds f.size).1.toNat) := by
  have hpos := f.size_pos
  have hunits : (unitsCovering r.fileSize f.size).toNat = f.count :=
    (toNat_unitsCovering hpos).trans hcount.symm
  have hle : (r.bounds f.size).2.toNat ≤ f.count := by
    unfold bounds
    cases r.range with
    | none => exact hunits.le
    | some range =>
      dsimp only
      rw [UInt64.toNat_min, hunits]
      exact Nat.min_le_left ..
  refine ⟨hle, filter_range_eq hle fun b hb => ?_⟩
  rw [hcount, lt_units_iff hpos] at hb
  exact wants_iff_bounds hpos hrange hb

/-- A file without failures that is read block by block: the source is
asked once for each block that has a byte of the stretch, in order, and
the records are capped runs of these blocks. -/
theorem run_capped (h : source.Answers f)
    (hcount : f.count
      = (r.fileSize.toNat + f.size.toNat - 1) / f.size.toNat)
    (hrange : ∀ start length, r.range = some (start, length) → 1 ≤ length)
    (s : σ) :
    ∃ (trace : Trace UInt64 RawExtent) (s' : σ) (records : List RawExtent),
      r.run source s = (.ok (f.size, trace), s') ∧
      trace.requests = (r.wanted f).map .ofNat ∧
      trace.items = records.map .ok ∧
      CappedRuns f (max r.mostBlocks.toNat 1) (r.wanted f) records := by
  have hsize : source.blockSize s = (.ok f.size, (source.blockSize s).2) :=
    Prod.ext (h.size_eq s) rfl
  obtain ⟨hstop, hwanted⟩ := wanted_eq hcount hrange
  have hmost : (max r.mostBlocks 1).toNat = max r.mostBlocks.toNat 1 :=
    UInt64.toNat_max ..
  have hcap : 1 ≤ (max r.mostBlocks 1).toNat := by
    rw [hmost]
    exact Nat.le_max_right ..
  -- what is wanted is a stretch of blocks, all of them in the file
  generalize hbounds : r.bounds f.size = bounds at hstop hwanted
  obtain ⟨first, stop⟩ := bounds
  have hin : ∀ b ∈ List.range' first.toNat (stop.toNat - first.toNat),
      b < f.count := by
    intro b hb
    rw [List.mem_range'_1] at hb
    dsimp only at hstop
    omega
  have hrequests := requests_walkBlocksFrom (max r.mostBlocks 1) h hin
    none (source.blockSize s).2
  obtain ⟨runs, hitems, hcapped, hblocks⟩ := handsOut_itemsFrom h hcap rfl hin
    none nofun (source.blockSize s).2
  rw [UInt64.ofNat_toNat] at hrequests
  rw [itemsFrom, UInt64.ofNat_toNat] at hitems
  rw [hmost] at hcapped
  unfold run runWith
  rw [hsize, hwanted]
  simp only [hbounds]
  refine ⟨_, _, runs.map (·.record f), rfl, hrequests, ?_, ?_⟩
  · rw [List.map_map]
    exact hitems
  · exact cappedRuns hcapped hblocks

/-- Four blocks of a file with a hole are read, and a record has room for
one of them. -/
theorem run_capped_holedFile :
    let r : BlockReader := ⟨20481, 0, some (1, 12288)⟩
    holedSource.Answers holedFile ∧ r.wanted holedFile = [0, 1, 2, 3] ∧
    ∃ (trace : Trace UInt64 RawExtent) (s' : List UInt64)
        (records : List RawExtent),
      r.run holedSource [] = (.ok (4096, trace), s') ∧
      trace.requests = [0, 1, 2, 3] ∧ trace.items = records.map .ok ∧
      CappedRuns holedFile 1 [0, 1, 2, 3] records := by
  intro r
  have hanswers : holedSource.Answers holedFile :=
    ⟨fun _ => rfl, fun _ _ _ => rfl⟩
  have hwanted : r.wanted holedFile = [0, 1, 2, 3] := by decide
  have hrange : ∀ start length, r.range = some (start, length) →
      1 ≤ length := by
    intro start length hstretch
    obtain ⟨-, rfl⟩ := Prod.mk.inj (Option.some_inj.1 hstretch)
    decide
  have hrun := run_capped (r := r) hanswers (by decide) hrange []
  rw [hwanted] at hrun
  exact ⟨hanswers, hwanted, hrun⟩

end BlockReader

end DiskAtlas.Mapping

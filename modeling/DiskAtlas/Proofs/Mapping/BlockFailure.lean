/-
What a failure does to a walk over blocks. A walk is a sequence of turns,
one for each block that the source tells: a turn may hand out the run so
far, and leaves the run that may still grow (`walkBlocksFrom_told`). The
block that fails has no turn. So the items before the error are what the
turns handed out, and the run behind the last of them is lost, since only
the end of the walk would hand it out.

The records that were handed out and the run that was lost are together
what a file of the blocks before the failure gives, and about such files
all is known (`cappedRuns`). Nothing is lost exactly if there is no run at
that point: the failing block is the first one, or it lies behind a hole
(`BlockReader.run_cutShort`). Joining records, on the other hand, hands out
what it holds back before an error.
-/
import DiskAtlas.Mapping.Joined
import DiskAtlas.Proofs.Mapping.BlockRuns

namespace DiskAtlas.Mapping

-- ================================================================ turns

namespace BlockFile

variable (f : BlockFile) (most : UInt64)

/-- What is handed out when the walk gets to a block, and the run that may
still grow then. -/
def turn (b : Nat) (run : Option RawExtent) :
    Option RawExtent × Option RawExtent :=
  match f.record? b with
  | none => (run, none)
  | some r =>
    match run with
    | none => (none, some r.asMerged)
    | some run =>
      if extendsRun f.size most run r.asMerged then
        (none, some { run with length := run.length + f.size })
      else (some run, some r.asMerged)

/-- What is handed out at some blocks, one after the other. -/
def given : (blocks : List Nat) → (run : Option RawExtent) → List RawExtent
  | [], _ => []
  | b :: rest, run =>
    (f.turn most b run).1.toList ++ given rest (f.turn most b run).2

/-- The run that may still grow behind some blocks. -/
def pending (blocks : List Nat) (run : Option RawExtent) :
    Option RawExtent :=
  blocks.foldl (fun run b => (f.turn most b run).2) run

theorem pending_concat (blocks : List Nat) (b : Nat)
    (run : Option RawExtent) :
    f.pending most (blocks ++ [b]) run
      = (f.turn most b (f.pending most blocks run)).2 := by
  rw [pending, List.foldl_append]
  rfl

/-- Only a hole leaves no run. -/
theorem turn_snd_eq_none_iff (b : Nat) (run : Option RawExtent) :
    (f.turn most b run).2 = none ↔ f.spot b = 0 := by
  rw [← record?_eq_none_iff, turn]
  cases f.record? b with
  | none => simp
  | some r =>
    cases run with
    | none => simp
    | some run =>
      dsimp only
      split <;> simp

/-- A source that tells where every block of a file is. -/
def source : BlockSource Unit where
  blockSize s := (.ok f.size, s)
  lookup b s := (.ok (f.place b), s)

theorem answers_source : f.source.Answers f :=
  ⟨fun _ => rfl, fun _ _ _ => rfl⟩

end BlockFile

-- ============================================================= the source

/-- A source that is asked for some blocks of a file, one after the other,
tells where each of them is; the states are those before and behind. What
it would say to other questions does not matter. -/
inductive BlockSource.Tells {σ : Type} (source : BlockSource σ)
    (f : BlockFile) : List Nat → σ → σ → Prop where
  | nil (s : σ) : source.Tells f [] s s
  | cons {b : Nat} {rest : List Nat} {s told s' : σ}
      (hlookup : source.lookup (.ofNat b) s
        = (.ok (f.place (.ofNat b)), told))
      (hrest : source.Tells f rest told s') :
      source.Tells f (b :: rest) s s'

section Told

variable {σ : Type} {source : BlockSource σ} {f : BlockFile} {b n : Nat}
  {s s' : σ}

/-- The source made of a file tells each of its blocks, so a reading that was
cut short can be compared with one that was not. -/
theorem BlockFile.tells_source (f : BlockFile) (blocks : List Nat) :
    f.source.Tells f blocks () () := by
  induction blocks with
  | nil => exact .nil ()
  | cons b rest ih => exact .cons rfl ih

/-- One block that is told is one turn. -/
theorem walkBlocksFrom_succ (most : UInt64) (count : Nat)
    (run : Option RawExtent)
    (hlookup : source.lookup (.ofNat b) s
      = (.ok (f.place (.ofNat b)), s')) :
    walkBlocksFrom source f.size most (count + 1) (.ofNat b) run s
      = let (out, run') := f.turn most b run
        let (onward, last) :=
          walkBlocksFrom source f.size most count (.ofNat (b + 1)) run' s'
        (.ask (.ofNat b) :: (out.toList.map .give ++ onward), last) := by
  rw [walkBlocksFrom, hlookup, UInt64.ofNat_add, BlockFile.turn]
  cases hrecord : f.record? b with
  | none =>
    have hhole : f.place (.ofNat b) = 0 := by
      rw [← UInt64.toNat_inj]
      exact BlockFile.record?_eq_none_iff.1 hrecord
    simp only [hhole, if_true]
    cases run <;> rfl
  | some r =>
    obtain ⟨hplace, hblock⟩ := BlockFile.blockRecord_eq hrecord
    simp only [if_neg hplace, hblock]
    cases run with
    | none => rfl
    | some run =>
      dsimp only
      split <;> rfl

/-- Blocks that are told are asked for in order, and the walk goes on
behind them with the run that they leave. -/
theorem walkBlocksFrom_told (most : UInt64)
    (htold : source.Tells f (List.range' b n) s s') (count : Nat)
    (run : Option RawExtent) :
    let walk := walkBlocksFrom source f.size most (n + count) (.ofNat b)
      run s
    let onward := walkBlocksFrom source f.size most count (.ofNat (b + n))
      (f.pending most (List.range' b n) run) s'
    walk.1.requests = (List.range' b n).map .ofNat ++ onward.1.requests ∧
      walk.1.items = (f.given most (List.range' b n) run).map .ok
        ++ onward.1.items ∧
      walk.2 = onward.2 := by
  -- on the blocks that the source tells; each is a turn for the run so far
  induction n generalizing b run s with
  | zero =>
    cases htold
    rw [Nat.zero_add]
    exact ⟨rfl, rfl, rfl⟩
  | succ n ih =>
    rw [List.range'_succ] at htold ⊢
    cases htold with
    | cons hlookup hrest =>
      obtain ⟨hrequests, hitems, hstate⟩ := ih hrest (f.turn most b run).2
      dsimp only
      rw [Nat.succ_add, walkBlocksFrom_succ most _ run hlookup,
        Nat.add_comm n 1, ← Nat.add_assoc]
      refine ⟨?_, ?_, hstate⟩
      · rw [Trace.requests_ask, Trace.requests_append, Trace.requests_give,
          hrequests]
        rfl
      · rw [Trace.items_ask, Trace.items_append, hitems, BlockFile.given,
          List.map_append, List.append_assoc]
        congr 1
        cases (f.turn most b run).1 <;> rfl

/-- A walk that a failure ends behind some blocks asks no further, and its
items are what was handed out at these blocks and then the error. -/
theorem walkBlocksFrom_fails {s₂ : σ} {e : Error} (most : UInt64)
    (htold : source.Tells f (List.range' b n) s s')
    (hfails : source.lookup (.ofNat (b + n)) s' = (.error e, s₂))
    (count : Nat) (run : Option RawExtent) :
    let walk := walkBlocksFrom source f.size most (n + (count + 1))
      (.ofNat b) run s
    walk.1.requests = (List.range' b n ++ [b + n]).map .ofNat ∧
      walk.1.items = (f.given most (List.range' b n) run).map .ok
        ++ [.error e] ∧
      walk.2 = s₂ := by
  have hwalk := walkBlocksFrom_told most htold (count + 1) run
  rw [walkBlocksFrom, hfails] at hwalk
  rw [List.map_append]
  exact hwalk

end Told

-- =============================================================== the run

section Runs

variable {f : BlockFile} {b n : Nat} {cap : UInt64} {run : Option RawExtent}

/-- A run that may still grow when the walk is in front of a block: the
record of blocks that lie side by side up to there. -/
def BlockFile.Grows (f : BlockFile) (most b : Nat)
    (run : Option RawExtent) : Prop :=
  ∀ e ∈ run, ∃ r : BlockRun, f.Straight most r ∧ r.first + r.count = b ∧
    e = r.record f

/-- One turn keeps the run up to the block in front. -/
theorem BlockFile.Grows.turn (h : f.Grows cap.toNat b run)
    (hcap : 1 ≤ cap.toNat) (hb : b < f.count) :
    f.Grows cap.toNat (b + 1) (f.turn cap b run).2 := by
  unfold BlockFile.turn
  cases hrecord : f.record? b with
  | none => nofun
  | some r =>
    have hsingle : f.Grows cap.toNat (b + 1) (some r.asMerged) := by
      intro e he
      obtain rfl := Option.some_inj.1 he
      have hmapped : f.spot b ≠ 0 := by
        intro hhole
        cases (record?_eq_none_iff.2 hhole).symm.trans hrecord
      exact ⟨.single b, .single hcap hb hmapped, rfl, asMerged_eq hrecord⟩
    cases run with
    | none => exact hsingle
    | some run =>
      obtain ⟨r', hstraight, rfl, rfl⟩ := h run rfl
      dsimp only
      split
      · next hext =>
        obtain ⟨hside, hroom⟩ :=
          (hstraight.extendsRun_iff rfl hb hrecord).1 hext
        intro e he
        obtain rfl := Option.some_inj.1 he
        exact ⟨r'.grow, hstraight.grow hroom hb hside, rfl,
          (r'.record_grow f).symm⟩
      · exact hsingle

/-- The run behind some blocks may still grow: all of its blocks were just
read. -/
theorem BlockFile.grows_pending (hcap : 1 ≤ cap.toNat)
    (hin : b + n ≤ f.count) :
    f.Grows cap.toNat (b + n) (f.pending cap (List.range' b n) none) := by
  induction n with
  | zero => nofun
  | succ n ih =>
    rw [List.range'_concat, Nat.one_mul, pending_concat, ← Nat.add_assoc]
    exact (ih (by omega)).turn hcap (by omega)

/-- What was handed out and the run that may still grow are the records of
the blocks so far. -/
theorem cappedRuns_given (hcap : 1 ≤ cap.toNat) (hin : b + n ≤ f.count) :
    CappedRuns f cap.toNat (List.range' b n)
      (f.given cap (List.range' b n) none
        ++ (f.pending cap (List.range' b n) none).toList) := by
  have hblocks : ∀ c ∈ List.range' b n, c < f.count := by
    intro c hc
    rw [List.mem_range'_1] at hc
    omega
  obtain ⟨runs, hitems, hcapped, hruns⟩ := handsOut_itemsFrom
    f.answers_source hcap rfl hblocks none nofun ()
  -- the walk over these blocks alone ends in front of the next one
  have hwalk : itemsFrom f.source f cap n b none () = _ :=
    (walkBlocksFrom_told cap (f.tells_source (List.range' b n)) 0 none).2.1
  have hend : (walkBlocksFrom f.source f.size cap 0 (.ofNat (b + n))
        (f.pending cap (List.range' b n) none) ()).1.items
      = (f.pending cap (List.range' b n) none).toList.map .ok :=
    itemsFrom_zero _ _
  rw [hend, ← List.map_append] at hwalk
  have hsame : f.given cap (List.range' b n) none
      ++ (f.pending cap (List.range' b n) none).toList
        = runs.map (·.record f) := by
    have hinj : Function.Injective
        (Except.ok : RawExtent → Except Error _) := fun _ _ => Except.ok.inj
    apply hinj.list_map
    rw [← hwalk, List.map_map]
    exact hitems
  rw [hsame]
  exact cappedRuns hcapped hruns

end Runs

-- ============================================================== readers

/-- Records that were handed out before the block behind `asked` failed, and
the run that may still have grown then. Only the run is lost: without it
some block is missing, unless there is none, which is so if the last block
that was asked for was a hole, or the first one failed. -/
structure CutShort (f : BlockFile) (most : Nat) (asked : List Nat)
    (records : List RawExtent) (lost : Option RawExtent) : Prop where
  runs : CappedRuns f most asked (records ++ lost.toList)
  ends : ∀ e ∈ lost,
    e.logical.toNat + e.length.toNat = f.count * f.size.toNat
  eq_none_iff : lost = none ↔ ∀ b ∈ asked.getLast?, f.spot b = 0
  covered_iff : (∀ b ∈ asked, f.spot b ≠ 0 →
    records.countP (f.Touches b ·) = 1) ↔ lost = none

/-- A walk over a file that ends behind some blocks, split into what its turns
gave and the run that is left. -/
theorem cutShort_given {f : BlockFile} {b n : Nat} {cap : UInt64}
    (hcap : 1 ≤ cap.toNat) (hend : b + n = f.count) :
    CutShort f cap.toNat (List.range' b n)
      (f.given cap (List.range' b n) none)
      (f.pending cap (List.range' b n) none) := by
  have hruns := cappedRuns_given hcap (Nat.le_of_eq hend)
  have hgrows := f.grows_pending hcap (Nat.le_of_eq hend)
  refine ⟨hruns, ?_, ?_, ?_, ?_⟩
  · intro e he
    obtain ⟨r, hstraight, hr, rfl⟩ := hgrows e he
    rw [hstraight.toNat_logical, hstraight.toNat_length, ← Nat.add_mul, hr,
      hend]
  · cases n with
    | zero => simp [BlockFile.pending]
    | succ n =>
      rw [List.range'_concat, Nat.one_mul, BlockFile.pending_concat,
        BlockFile.turn_snd_eq_none_iff, List.getLast?_concat]
      simp
  · intro hcovered
    by_contra hlost
    obtain ⟨e, he⟩ := Option.ne_none_iff_exists'.1 hlost
    obtain ⟨r, hstraight, -, rfl⟩ := hgrows e he
    -- the first block of the run lies in no other record
    have hfirst : f.Touches r.first (r.record f) :=
      hstraight.touches_iff.2 (BlockRun.mem_blocks.2
        ⟨Nat.le_refl _, Nat.lt_add_of_pos_right hstraight.count_pos⟩)
    have hmem : r.record f ∈ f.given cap (List.range' b n) none
        ++ (f.pending cap (List.range' b n) none).toList := by
      simp [he]
    obtain ⟨hasked, hmapped, -⟩ := hruns.placed _ hmem _ hfirst
    have honce := hruns.once _ hasked hmapped
    rw [List.countP_append, hcovered _ hasked hmapped, he] at honce
    simp [hfirst] at honce
  · intro hnone b' hasked hmapped
    have honce := hruns.once b' hasked hmapped
    rwa [hnone, Option.toList_none, List.append_nil] at honce

namespace BlockReader

variable {σ : Type} {source : BlockSource σ} {f : BlockFile}
  {r : BlockReader} {s s₀ s₁ s₂ : σ} {e : Error}

/-- A reader that wants the block behind some blocks of its file wants
these blocks from its first one on. -/
theorem wanted_eq_of_wants (hfile : f.count * f.size.toNat < r.fileSize.toNat)
    (hwants : r.wants f.size.toNat f.count = true) :
    (r.bounds f.size).1.toNat ≤ f.count ∧
      f.count < (r.bounds f.size).2.toNat ∧
      r.wanted f = List.range' (r.bounds f.size).1.toNat
        (f.count - (r.bounds f.size).1.toNat) := by
  have hpos := f.size_pos
  have hrange : ∀ start length, r.range = some (start, length) →
      1 ≤ length := by
    intro start length hstretch
    rw [wants, hstretch, Option.all_some, decide_eq_true_iff] at hwants
    rw [UInt64.le_iff_toNat_le, UInt64.toNat_one]
    omega
  obtain ⟨hfirst, hstop⟩ := (wants_iff_bounds hpos hrange hfile).1 hwants
  refine ⟨hfirst, hstop, filter_range_eq (Nat.le_refl _) fun b hb => ?_⟩
  have hbefore := Nat.mul_le_mul_right f.size.toNat (Nat.le_of_lt hb)
  rw [wants_iff_bounds hpos hrange (Nat.lt_of_le_of_lt hbefore hfile)]
  omega

/-- The first look-up that fails ends a reading with its error. The records
before it are those of the blocks that were told, but for the run that was
still growing, which is lost unless the block in front was a hole. -/
theorem run_cutShort (hsize : source.blockSize s = (.ok f.size, s₀))
    (htold : source.Tells f (r.wanted f) s₀ s₁)
    (hfails : source.lookup (.ofNat f.count) s₁ = (.error e, s₂))
    (hfile : f.count * f.size.toNat < r.fileSize.toNat)
    (hwants : r.wants f.size.toNat f.count = true) :
    ∃ (trace : Trace UInt64 RawExtent) (records : List RawExtent)
        (lost : Option RawExtent),
      r.run source s = (.ok (f.size, trace), s₂) ∧
      trace.requests = (r.wanted f ++ [f.count]).map .ofNat ∧
      trace.items = records.map .ok ++ [.error e] ∧
      CutShort f (max r.mostBlocks.toNat 1) (r.wanted f) records lost := by
  obtain ⟨hfirst, hstop, hwanted⟩ := wanted_eq_of_wants hfile hwants
  have hmost : (max r.mostBlocks 1).toNat = max r.mostBlocks.toNat 1 :=
    UInt64.toNat_max ..
  have hcap : 1 ≤ (max r.mostBlocks 1).toNat := by
    rw [hmost]
    exact Nat.le_max_right ..
  generalize hbounds : r.bounds f.size = bounds at hfirst hstop hwanted
  obtain ⟨first, stop⟩ := bounds
  dsimp only at hfirst hstop hwanted
  have hend : first.toNat + (f.count - first.toNat) = f.count :=
    Nat.add_sub_cancel' hfirst
  -- the blocks asked for are those told, the one that fails, and the rest
  have hcount : stop.toNat - first.toNat = f.count - first.toNat
      + (stop.toNat - f.count - 1 + 1) := by
    omega
  rw [hwanted] at htold ⊢
  rw [← hend] at hfails
  obtain ⟨hrequests, hitems, hstate⟩ := walkBlocksFrom_fails
    (max r.mostBlocks 1) htold hfails (stop.toNat - f.count - 1) none
  rw [UInt64.ofNat_toNat, ← hcount] at hrequests hitems hstate
  have hcut := cutShort_given hcap hend
  rw [hmost] at hcut
  rw [hend] at hrequests
  unfold run runWith
  rw [hsize]
  simp only [hbounds]
  exact ⟨_, _, _, by rw [hstate], hrequests, hitems, hcut⟩

end BlockReader

-- ========================================================== broken files

/-- A source that tells the blocks of a file and fails behind them. It also
remembers which blocks it was asked for. -/
def BlockFile.brokenSource (f : BlockFile) : BlockSource (List UInt64) where
  blockSize s := (.ok f.size, s)
  lookup b s := (if b.toNat < f.count then .ok (f.place b)
    else .error (.system (.code 5)), s ++ [b])

/-- The first four blocks of the file with a hole: two neighbours, the hole
and another block. -/
def fourBlocks : BlockFile :=
  { holedFile with
    count := 4
    count_fits := by decide
    place_fits := by decide }

/-- All blocks but the first are wanted, and the one behind them fails:
what was read of the second one is handed out, the fourth one is lost. -/
theorem BlockReader.run_cutShort_fourBlocks :
    let r : BlockReader := ⟨20480, 0, some (5000, 15000)⟩
    let source := fourBlocks.brokenSource
    source.blockSize [] = (.ok fourBlocks.size, []) ∧
    r.wanted fourBlocks = [1, 2, 3] ∧
    source.Tells fourBlocks [1, 2, 3] [] [1, 2, 3] ∧
    source.lookup 4 [1, 2, 3]
      = (.error (.system (.code 5)), [1, 2, 3, 4]) ∧
    r.wants 4096 4 = true ∧
    ∃ (trace : Trace UInt64 RawExtent) (records : List RawExtent)
        (lost : Option RawExtent),
      r.run source [] = (.ok (4096, trace), [1, 2, 3, 4]) ∧
      trace.requests = [1, 2, 3, 4] ∧
      trace.items = records.map .ok ++ [.error (.system (.code 5))] ∧
      CutShort fourBlocks 1 [1, 2, 3] records lost ∧ lost ≠ none := by
  intro r source
  have hwanted : r.wanted fourBlocks = [1, 2, 3] := by decide
  have htold : source.Tells fourBlocks [1, 2, 3] [] [1, 2, 3] :=
    .cons rfl (.cons rfl (.cons rfl (.nil _)))
  have hfails : source.lookup 4 [1, 2, 3]
    = (.error (.system (.code 5)), [1, 2, 3, 4]) := rfl
  have hwants : r.wants 4096 4 = true := by decide
  have hrun := run_cutShort (f := fourBlocks) (r := r) (s := []) rfl
    (hwanted ▸ htold) hfails (by decide) hwants
  rw [hwanted] at hrun
  obtain ⟨trace, records, lost, hrun, hrequests, hitems, hcut⟩ := hrun
  refine ⟨rfl, hwanted, htold, hfails, hwants, trace, records, lost, hrun,
    hrequests, hitems, hcut, ?_⟩
  rw [Ne, hcut.eq_none_iff]
  decide

/-- One block of the same size. -/
def oneBlock : BlockFile :=
  { holedFile with
    count := 1
    place := fun _ => 5
    count_fits := by decide
    place_fits := by decide }

/-- Of a file of two blocks the first one is told and the second one fails.
The first block is in no record, while the same record in front of the same
failure is handed out where records are joined. -/
theorem oneBlock_lost :
    let r : BlockReader := ⟨8192, 32768, none⟩
    let source := oneBlock.brokenSource
    let failure : Error := .system (.code 5)
    let block : RawExtent := ⟨0, 20480, 4096, .merged⟩
    source.Tells oneBlock [0] [] [0] ∧
    (source.lookup 1 [0]).1 = .error failure ∧
    oneBlock.spot 0 ≠ 0 ∧
    (∃ (trace : Trace UInt64 RawExtent) (records : List RawExtent),
      r.run source [] = (.ok (4096, trace), [0, 1]) ∧
      trace.items = records.map .ok ++ [.error failure] ∧
      records.countP (oneBlock.Touches 0 ·) ≠ 1) ∧
    (join [.ask (), .give block, .fail failure]).items
      = [.ok block, .error failure] := by
  intro r source failure block
  refine ⟨.cons rfl (.nil _), rfl, by decide, ?_, by cbv⟩
  exact ⟨[.ask 0, .ask 1, .fail failure], [], by cbv, rfl, by decide⟩

end DiskAtlas.Mapping

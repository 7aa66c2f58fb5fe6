/-
Highlights. The mask of lit cells comes from one sweep over marks: a range
adds one at its first cell and takes one away behind its last, so the sum
of the marks up to a cell is the number of ranges that lie over the cell
(`sum_marks`), and the cell is lit if there is one. A range lies over a
cell exactly if the two share a byte of the device
(`Fits.liesOver_iff`), wherever the range ends and however the device is
cut.

A display keeps the bytes that were highlighted last and nothing of those
before, and it keeps them when it is cut into another number of cells. So
after any calls its mask follows from the bytes that were highlighted last
and from the number of cells that was accepted last (`mask_exact`).
-/
import DiskAtlas.Proofs.Overview.Partition
import DiskAtlas.Proofs.Store.Calculated

namespace DiskAtlas.Overview.Display

-- ================================================================ sweeps

/-- The sweep asks at each mark whether the marks so far add up to more
than nothing. -/
theorem getElem?_sweep (depth : Int) (marks : List Int) (cell : Nat) :
    (sweep depth marks)[cell]?
      = if cell < marks.length then
          some (decide (0 < depth + (marks.take (cell + 1)).sum))
        else none := by
  induction marks generalizing depth cell with
  | nil => rfl
  | cons mark rest ih =>
    cases cell with
    | zero => simp [sweep]
    | succ cell =>
      rw [sweep, List.getElem?_cons_succ, ih, List.take_succ_cons,
        List.sum_cons, Int.add_assoc, List.length_cons]
      simp only [Nat.succ_lt_succ_iff]

/-- A mark that is changed changes the sums behind it. -/
theorem sum_take_modify (marks : List Int) {place : Nat} (change : Int)
    (hplace : place < marks.length) (count : Nat) :
    ((marks.modify place (· + change)).take count).sum
      = (marks.take count).sum + if place < count then change else 0 := by
  induction marks generalizing place count with
  | nil => cases hplace
  | cons mark rest ih =>
    cases count with
    | zero => simp
    | succ count =>
      cases place with
      | zero => simp [Int.add_right_comm]
      | succ place =>
        have hrest := ih (Nat.lt_of_succ_lt_succ hplace) count
        simp [hrest, Int.add_assoc]

variable {d : Display} {range r : Span UInt64}

-- ================================================================= marks

/-- The last cell that a range reaches on the device. -/
def lastCell (d : Display) (r : Span UInt64) : Nat :=
  (d.cellOf (min r.last (d.total - 1))).toNat

/-- Does a range lie over a cell? A range past the device lies over
none. -/
def LiesOver (d : Display) (cell : Nat) (r : Span UInt64) : Prop :=
  r.first < d.total ∧ (d.cellOf r.first).toNat ≤ cell ∧
    cell ≤ d.lastCell r

instance (d : Display) (cell : Nat) : DecidablePred (d.LiesOver cell) :=
  fun _ => inferInstanceAs (Decidable (_ ∧ _ ∧ _))

namespace Fits

variable (h : d.Fits)

include h

/-- The last byte of the device. -/
theorem toNat_lastByte : (d.total - 1).toNat + 1 = d.total.toNat := by
  have hpos := UInt64.lt_iff_toNat_lt.1 h.total_pos
  rw [UInt64.toNat_zero] at hpos
  rw [UInt64.toNat_sub_of_le _ _ (UInt64.le_iff_toNat_le.2 (by
    rw [UInt64.toNat_one]
    exact hpos)), UInt64.toNat_one]
  omega

/-- A highlight that reaches past the device ends at its last byte. -/
theorem toNat_lastOn (r : Span UInt64) :
    (min r.last (d.total - 1)).toNat = min r.last.toNat (d.total.toNat - 1) := by
  have hlast := h.toNat_lastByte
  rw [UInt64.toNat_min]
  omega

/-- What is left of a range on the device ends behind its first byte. -/
theorem lastOn_spec (hr : r.first ≤ r.last) (hin : r.first < d.total) :
    r.first ≤ min r.last (d.total - 1) ∧ min r.last (d.total - 1) < d.total := by
  have hlast := h.toNat_lastOn r
  rw [UInt64.le_iff_toNat_le] at hr
  rw [UInt64.lt_iff_toNat_lt] at hin
  rw [UInt64.le_iff_toNat_le, UInt64.lt_iff_toNat_lt]
  omega

/-- A range lies over a cell exactly if they share a byte of the device. -/
theorem liesOver_iff (hr : r.first ≤ r.last) {cell : UInt64}
    (hrange : d.cellRange cell = .ok range) :
    d.LiesOver cell.toNat r ↔ ∃ offset < d.total,
      r.contains offset = true ∧ range.contains offset = true := by
  have hordered := h.first_le_last hrange
  constructor
  · rintro ⟨hin, hover⟩
    obtain ⟨hle, hlt⟩ := h.lastOn_spec hr hin
    have hmeets := (overlaps_cellRange_iff hrange hle hlt).2 hover
    obtain ⟨offset, hoffset, hfirst, hlast⟩ :=
      (Span.overlaps_iff hordered hle).1 hmeets
    have hlastOn := h.toNat_lastOn r
    rw [UInt64.le_iff_toNat_le] at hlast
    refine ⟨offset, UInt64.lt_of_le_of_lt (UInt64.le_iff_toNat_le.2 hlast) hlt,
      ?_, hoffset⟩
    simp only [Span.contains, Bool.and_eq_true, decide_eq_true_eq]
    refine ⟨hfirst, UInt64.le_iff_toNat_le.2 ?_⟩
    omega
  · -- the byte is on the device, so cutting the highlight off keeps it
    rintro ⟨offset, hoffset, hin, hcell⟩
    simp only [Span.contains, Bool.and_eq_true, decide_eq_true_eq] at hin
    obtain ⟨hfirst, hlast⟩ := hin
    have hstarts : r.first < d.total := UInt64.lt_of_le_of_lt hfirst hoffset
    obtain ⟨hle, hlt⟩ := h.lastOn_spec hr hstarts
    have hlastOn := h.toNat_lastOn r
    have hbefore : offset ≤ min r.last (d.total - 1) := by
      rw [UInt64.le_iff_toNat_le] at hlast ⊢
      rw [UInt64.lt_iff_toNat_lt] at hoffset
      omega
    refine ⟨hstarts, (overlaps_cellRange_iff hrange hle hlt).1 ?_⟩
    exact (Span.overlaps_iff hordered hle).2 ⟨offset, hcell, hfirst, hbefore⟩

-- ============================================================ depths

/-- A range adds one to the sums up to the cells that it lies over, and
nothing to the others. -/
theorem sum_mark (hr : r.first ≤ r.last) {marks : Array Int}
    (hsize : marks.size = d.resolution.toNat + 1) (cell : Nat) :
    (d.mark marks r).size = marks.size ∧
      ((d.mark marks r).toList.take (cell + 1)).sum
        = (marks.toList.take (cell + 1)).sum
          + if d.LiesOver cell r then 1 else 0 := by
  unfold mark
  split
  · next hout =>
    have hnot : ¬ d.LiesOver cell r := fun hover =>
      UInt64.not_le.2 hover.1 hout
    rw [if_neg hnot, Int.add_zero]
    exact ⟨rfl, rfl⟩
  · next hout =>
    have hin := UInt64.not_le.1 hout
    obtain ⟨hle, hlt⟩ := h.lastOn_spec hr hin
    have hcells : (d.cellOf r.first).toNat ≤ d.lastCell r :=
      cellOf_mono hle
    have hlast : d.lastCell r < d.resolution.toNat :=
      cellOf_lt h.resolution_pos
    refine ⟨by simp, ?_⟩
    show (((marks.modify (d.cellOf r.first).toNat (· + 1)).modify
        (d.lastCell r + 1) (· + (-1))).toList.take (cell + 1)).sum = _
    -- one up at the first cell and one down behind the last: a prefix sum has
    -- gained one between the two and nothing elsewhere
    have hover : d.LiesOver cell r ↔
        (d.cellOf r.first).toNat ≤ cell ∧ cell ≤ d.lastCell r :=
      and_iff_right hin
    rw [Array.toList_modify, Array.toList_modify,
      sum_take_modify _ _ (by simpa [hsize] using hlast),
      sum_take_modify _ _ (by simp [hsize]; omega)]
    simp only [hover]
    split <;> split <;> split <;> omega

/-- The marks of some ranges add up, at each cell, to the number of ranges
that lie over it. -/
theorem sum_marks {highlights : List (Span UInt64)}
    (hranges : ∀ r ∈ highlights, r.first ≤ r.last) {marks : Array Int}
    (hsize : marks.size = d.resolution.toNat + 1) (cell : Nat) :
    (highlights.foldl d.mark marks).size = marks.size ∧
      ((highlights.foldl d.mark marks).toList.take (cell + 1)).sum
        = (marks.toList.take (cell + 1)).sum
          + highlights.countP (d.LiesOver cell ·) := by
  induction highlights generalizing marks with
  | nil => simp
  | cons r rest ih =>
    obtain ⟨hr, hrest⟩ := List.forall_mem_cons.1 hranges
    obtain ⟨hmarked, hsum⟩ := h.sum_mark hr hsize cell
    obtain ⟨hall, htotal⟩ := ih hrest (hmarked.trans hsize)
    refine ⟨hall.trans hmarked, ?_⟩
    rw [List.foldl_cons, htotal, hsum, List.countP_cons, Int.add_assoc]
    by_cases hover : d.LiesOver cell r
    · simp [hover, Int.add_comm]
    · simp [hover]

/-- A cell is lit if a highlighted range lies over it. -/
theorem getElem?_mask (hranges : ∀ r ∈ d.highlights, r.first ≤ r.last)
    (cell : Nat) : d.mask[cell]? = if cell < d.resolution.toNat then
      some (decide (∃ r ∈ d.highlights, d.LiesOver cell r)) else none := by
  let marks := Array.replicate (d.resolution.toNat + 1) (0 : Int)
  have hsize : marks.size = d.resolution.toNat + 1 := Array.size_replicate
  obtain ⟨hmarked, hsum⟩ := h.sum_marks hranges hsize cell
  have hlength : ((d.highlights.foldl d.mark marks).toList.take
      d.resolution.toNat).length = d.resolution.toNat := by
    rw [List.length_take, Array.length_toList, hmarked, hsize]
    omega
  show (sweep 0 ((d.highlights.foldl d.mark marks).toList.take
    d.resolution.toNat))[cell]? = _
  rw [getElem?_sweep, hlength, List.take_take]
  split
  · next hcell =>
    have hzero : (marks.toList.take (cell + 1)).sum = 0 := by
      simp [marks]
    rw [Nat.min_eq_left hcell, hsum, hzero]
    simp [List.countP_pos_iff]
  · rfl

end Fits

-- ================================================================== lit

/-- A display shows some bytes: its mask has one entry for each cell, and a
cell is lit exactly if one of these bytes is a byte of the device that is
in its range. -/
structure Lights (d : Display) (bytes : List (Span UInt64)) : Prop where
  length_eq : d.mask.length = d.resolution.toNat
  lit_iff : ∀ cell < d.resolution, ∃ range, d.cellRange cell = .ok range ∧
    (d.mask[cell.toNat]? = some true ↔ ∃ r ∈ bytes, ∃ offset < d.total,
      r.contains offset = true ∧ range.contains offset = true)

/-- The difference array, summed up, lights exactly the cells that some
highlight meets. -/
theorem Fits.lights (h : d.Fits)
    (hranges : ∀ r ∈ d.highlights, r.first ≤ r.last) :
    d.Lights d.highlights where
  length_eq := by
    have hentry := h.getElem?_mask hranges
    have hbehind := hentry d.mask.length
    rw [List.getElem?_eq_none (Nat.le_refl _)] at hbehind
    apply Nat.le_antisymm
    · rw [← List.getElem?_eq_none_iff, hentry, if_neg (Nat.lt_irrefl _)]
    · by_contra hshort
      rw [if_pos (Nat.not_le.1 hshort)] at hbehind
      cases hbehind
  lit_iff := by
    intro cell hcell
    have hrange := cellRange_eq_ok_iff.2 ⟨hcell, rfl⟩
    refine ⟨_, hrange, ?_⟩
    rw [h.getElem?_mask hranges, if_pos (UInt64.lt_iff_toNat_lt.1 hcell),
      Option.some_inj, decide_eq_true_iff]
    refine exists_congr fun r => and_congr_right fun hr => ?_
    exact h.liesOver_iff (hranges r hr) hrange

/-- Two displays of the same device, cut alike, have one mask if the same
bytes of it are to be shown, in whatever ranges. -/
theorem Lights.mask_eq {d' : Display} {bytes bytes' : List (Span UInt64)}
    (h : d.Lights bytes) (h' : d'.Lights bytes')
    (hcells : d.resolution = d'.resolution) (htotal : d.total = d'.total)
    (hsame : ∀ offset < d.total, (∃ r ∈ bytes, r.contains offset = true) ↔
      ∃ r ∈ bytes', r.contains offset = true) : d.mask = d'.mask := by
  have hlength : d.mask.length = d'.mask.length := by
    rw [h.length_eq, h'.length_eq, hcells]
  -- cell by cell: each is lit by the bytes in its range, which are the same
  apply List.ext_getElem hlength
  intro place hplace hplace'
  have hword : place < UInt64.size :=
    Nat.lt_trans (h.length_eq ▸ hplace) d.resolution.toNat_lt
  have hnat : (UInt64.ofNat place).toNat = place :=
    UInt64.toNat_ofNat_of_lt' hword
  have hcell : UInt64.ofNat place < d.resolution := by
    rw [UInt64.lt_iff_toNat_lt, hnat]
    exact h.length_eq ▸ hplace
  obtain ⟨range, hrange, hlit⟩ := h.lit_iff _ hcell
  obtain ⟨range', hrange', hlit'⟩ := h'.lit_iff _ (hcells ▸ hcell)
  have hranges : range' = range := by
    rw [cellRange, ← hcells, ← htotal] at hrange'
    rw [cellRange] at hrange
    exact Except.ok.inj (hrange'.symm.trans hrange)
  rw [hnat, List.getElem?_eq_getElem hplace, Option.some_inj] at hlit
  rw [hnat, List.getElem?_eq_getElem hplace', Option.some_inj] at hlit'
  rw [Bool.eq_iff_iff, hlit, hlit', hranges]
  constructor
  · rintro ⟨r, hr, offset, hoffset, hin, hrange⟩
    obtain ⟨r', hr', hin'⟩ := (hsame offset hoffset).1 ⟨r, hr, hin⟩
    exact ⟨r', hr', offset, htotal ▸ hoffset, hin', hrange⟩
  · rintro ⟨r', hr', offset, hoffset, hin', hrange⟩
    obtain ⟨r, hr, hin⟩ := (hsame offset (htotal ▸ hoffset)).2 ⟨r', hr', hin'⟩
    exact ⟨r, hr, offset, htotal ▸ hoffset, hin, hrange⟩

-- ================================================================= calls

/-- What is done to a display: other bytes are highlighted, or it is cut
into another number of cells. -/
inductive Act
  | highlight (ranges : List (Span UInt64))
  | highlightExtents (extents : List Extent)
  | clear
  | setResolution (cells : UInt64)

namespace Act

/-- The display behind a call, whether it was accepted or refused. -/
def apply (d : Display) : Act → Display
  | .highlight ranges => d.highlight ranges
  | .highlightExtents extents => d.highlightExtents extents
  | .clear => d.clear
  | .setResolution cells => (d.setResolution cells).2

/-- The bytes that a call highlights in place of those before. -/
def bytes? : Act → Option (List (Span UInt64))
  | .highlight ranges => some ranges
  | .highlightExtents extents =>
    some (extents.map fun e => .ofBounds e.physical e.physicalEnd)
  | .clear => some []
  | .setResolution _ => none

/-- The number of cells that a call cuts a device of `total` bytes
into. -/
def cells? (total : UInt64) : Act → Option UInt64
  | .setResolution cells =>
    if 1 ≤ cells ∧ cells ≤ total then some cells else none
  | _ => none

/-- The ranges of a call do not end before they begin. -/
def Ordered : Act → Prop
  | .highlight ranges => ∀ r ∈ ranges, r.first ≤ r.last
  | _ => True

end Act

/-- The display behind some calls. -/
def run (d : Display) (acts : List Act) : Display := acts.foldl Act.apply d

/-- The bytes that were highlighted last, or those before any call. -/
def lastBytes (bytes : List (Span UInt64)) (acts : List Act) :
    List (Span UInt64) :=
  (acts.filterMap Act.bytes?).getLast?.getD bytes

/-- The number of cells that was accepted last, or the one before any
call. -/
def lastCells (cells total : UInt64) (acts : List Act) : UInt64 :=
  (acts.filterMap (Act.cells? total)).getLast?.getD cells

variable {act : Act} {acts : List Act}

/-- From one cell up to one for each byte is accepted. -/
theorem setResolution_eq (d : Display) (cells : UInt64) :
    d.setResolution cells = if 1 ≤ cells ∧ cells ≤ d.total then
      (.ok (), { d with resolution := cells })
    else (.error (.range (.resolution cells d.total)), d) := by
  have hallowed : 1 ≤ cells ∧ cells ≤ d.total ↔
      ¬ (cells = 0 ∨ d.total < cells) := by
    rw [not_or, UInt64.not_lt, ← UInt64.lt_one_iff, UInt64.not_lt]
  unfold setResolution checkResolution
  simp only [hallowed, ite_not]
  by_cases hrefused : cells = 0 ∨ d.total < cells
  · simp only [if_pos hrefused]
  · simp only [if_neg hrefused]

/-- All that a call changes. -/
theorem apply_eq (d : Display) (act : Act) :
    act.apply d =
      { resolution := (act.cells? d.total).getD d.resolution
        total := d.total
        highlights := act.bytes?.getD d.highlights } := by
  cases act with
  | highlight ranges => rfl
  | highlightExtents extents => rfl
  | clear => rfl
  | setResolution cells =>
    rw [Act.apply, setResolution_eq, Act.cells?]
    split <;> rfl

/-- What is said last is said last of the rest, or first. -/
theorem getLast?_filterMap_cons {α : Type} (said : Act → Option α)
    (act : Act) (rest : List Act) (before : α) :
    ((act :: rest).filterMap said).getLast?.getD before
      = (rest.filterMap said).getLast?.getD ((said act).getD before) := by
  cases hact : said act <;> simp [hact, List.getLast?_cons]

/-- What some calls leave: of each part what the last call that changed it
made of it. -/
theorem run_eq (d : Display) (acts : List Act) :
    d.run acts =
      { resolution := lastCells d.resolution d.total acts
        total := d.total
        highlights := lastBytes d.highlights acts } := by
  induction acts generalizing d with
  | nil => rfl
  | cons act rest ih =>
    have hrun : d.run (act :: rest) = (act.apply d).run rest := rfl
    rw [hrun, ih, apply_eq, lastCells, lastBytes, lastCells, lastBytes,
      getLast?_filterMap_cons, getLast?_filterMap_cons]

-- ================================================== displays in use

/-- A display as it is made and used. -/
structure Proper (d : Display) : Prop extends d.Fits where
  ordered : ∀ r ∈ d.highlights, r.first ≤ r.last

theorem proper_of_make {cells total : UInt64}
    (hmake : make cells total = .ok d) :
    d = ⟨cells, total, []⟩ ∧ d.Proper := by
  unfold make at hmake
  cases hcheck : checkResolution cells total with
  | error e =>
    rw [hcheck] at hmake
    cases hmake
  | ok =>
    rw [hcheck] at hmake
    obtain rfl := (Except.ok.inj hmake).symm
    obtain ⟨hpos, hle⟩ := Store.checkResolution_eq_ok_iff.1 hcheck
    refine ⟨rfl, ⟨?_, hle⟩, by simp⟩
    rw [UInt64.lt_iff_toNat_lt] at hpos
    exact UInt64.le_iff_toNat_le.2 hpos

/-- An extent is highlighted from its smaller bound to its greater one. -/
theorem Act.Ordered.of_bytes? (hact : act.Ordered)
    {ranges : List (Span UInt64)} (hbytes : act.bytes? = some ranges) :
    ∀ r ∈ ranges, r.first ≤ r.last := by
  cases act with
  | highlight given =>
    obtain rfl := Option.some.inj hbytes
    exact hact
  | highlightExtents extents =>
    obtain rfl := (Option.some.inj hbytes).symm
    intro r hr
    obtain ⟨e, -, rfl⟩ := List.mem_map.1 hr
    rw [Span.ofBounds]
    split
    · next hlt => exact UInt64.le_of_lt hlt
    · next hlt => exact UInt64.not_lt.1 hlt
  | clear =>
    obtain rfl := (Option.some.inj hbytes).symm
    intro r hr
    cases hr
  | setResolution cells => cases hbytes

/-- A call cuts a device into no number of cells that does not fit it. -/
theorem Fits.apply (h : d.Fits) (act : Act) : (act.apply d).Fits := by
  rw [apply_eq]
  cases hcells : act.cells? d.total with
  | none => exact ⟨h.pos, h.le⟩
  | some cells =>
    cases act with
    | setResolution asked =>
      rw [Act.cells?, Option.ite_none_right_eq_some] at hcells
      obtain ⟨hfits, hasked⟩ := hcells
      obtain rfl := Option.some.inj hasked
      exact ⟨hfits.1, hfits.2⟩
    | _ => cases hcells

/-- No act changes that the resolution fits the device. -/
theorem Fits.run (h : d.Fits) (acts : List Act) : (d.run acts).Fits := by
  induction acts generalizing d with
  | nil => exact h
  | cons act rest ih => exact ih (h.apply act)

/-- A call keeps a display proper. -/
theorem Proper.apply (h : d.Proper) (hact : act.Ordered) :
    (act.apply d).Proper := by
  refine ⟨h.toFits.apply act, ?_⟩
  rw [apply_eq]
  cases hbytes : act.bytes? with
  | none => exact h.ordered
  | some ranges => exact hact.of_bytes? hbytes

/-- Ordered highlights stay ordered if every act gives ordered ones. -/
theorem Proper.run (h : d.Proper) (hacts : ∀ act ∈ acts, act.Ordered) :
    (d.run acts).Proper := by
  induction acts generalizing d with
  | nil => exact h
  | cons act rest ih =>
    obtain ⟨hact, hrest⟩ := List.forall_mem_cons.1 hacts
    exact ih (h.apply hact) hrest

/-- What a display shows behind some calls. -/
theorem lights_run {cells total : UInt64} (hmake : make cells total = .ok d)
    (hacts : ∀ act ∈ acts, act.Ordered) :
    (d.run acts).total = total ∧
      (d.run acts).resolution = lastCells cells total acts ∧
      (d.run acts).Lights (lastBytes [] acts) := by
  obtain ⟨rfl, hproper⟩ := proper_of_make hmake
  have hrun := hproper.run hacts
  have hlights := hrun.lights hrun.ordered
  rw [run_eq] at hlights ⊢
  exact ⟨rfl, rfl, hlights⟩

/-- Behind any calls the mask has an entry for each cell of the number
accepted last, and it is lit where the bytes highlighted last meet the cell
on the device. It follows from these two alone, from the bytes as a set
and not as ranges; and a number of cells that is refused might as well not
have been asked for. -/
theorem mask_exact {cells total : UInt64} (hmake : make cells total = .ok d)
    (hacts : ∀ act ∈ acts, act.Ordered) :
    ((d.run acts).total = total ∧
      (d.run acts).resolution = lastCells cells total acts ∧
      (d.run acts).Lights (lastBytes [] acts)) ∧
    (∀ first d' others, make first total = .ok d' →
      (∀ act ∈ others, act.Ordered) →
      lastCells first total others = lastCells cells total acts →
      (∀ offset < total,
        (∃ r ∈ lastBytes [] others, r.contains offset = true) ↔
          ∃ r ∈ lastBytes [] acts, r.contains offset = true) →
      (d'.run others).mask = (d.run acts).mask) ∧
    ∀ count e, ((d.run acts).setResolution count).1 = .error e →
      ¬ (1 ≤ count ∧ count ≤ total) ∧
        ∀ later, d.run (acts ++ .setResolution count :: later)
          = d.run (acts ++ later) := by
  -- the mask depends on where the acts have led to and on no more
  obtain ⟨htotal, hcells, hlights⟩ := lights_run hmake hacts
  refine ⟨⟨htotal, hcells, hlights⟩, ?_, ?_⟩
  · intro first d' others hmake' hothers hlast hsame
    obtain ⟨htotal', hcells', hlights'⟩ := lights_run hmake' hothers
    refine hlights'.mask_eq hlights ?_ (htotal'.trans htotal.symm) ?_
    · rw [hcells', hlast, hcells]
    · rw [htotal']
      exact hsame
  · intro count e hrefused
    have hcount : ¬ (1 ≤ count ∧ count ≤ total) := by
      intro hallowed
      rw [setResolution_eq, htotal, if_pos hallowed] at hrefused
      cases hrefused
    refine ⟨hcount, fun later => ?_⟩
    have hkept : (Act.setResolution count).apply (d.run acts)
        = d.run acts := by
      rw [Act.apply, setResolution_eq, htotal, if_neg hcount]
    simp only [run, List.foldl_append, List.foldl_cons] at hkept ⊢
    rw [hkept]

/-- Ten bytes in five cells, with ranges that end behind the device and one
that begins there, and with eleven cells asked for in between. -/
theorem mask_exact_tenBytes :
    let acts : List Act := [.setResolution 3,
      .highlight [⟨2, 4⟩, ⟨9, 50⟩, ⟨12, 13⟩], .setResolution 11,
      .setResolution 5]
    let d : Display := ⟨10, 10, []⟩
    make 10 10 = .ok d ∧ (∀ act ∈ acts, act.Ordered) ∧
      (d.run acts).mask = [false, true, true, false, true] ∧
      (d.run acts).Lights [⟨2, 4⟩, ⟨9, 50⟩, ⟨12, 13⟩] := by
  intro acts d
  have hmake : make 10 10 = .ok d := by rfl
  have hacts : ∀ act ∈ acts, act.Ordered := by
    simp [acts, Act.Ordered]
  exact ⟨hmake, hacts, by decide, (mask_exact hmake hacts).1.2.2⟩

end DiskAtlas.Overview.Display

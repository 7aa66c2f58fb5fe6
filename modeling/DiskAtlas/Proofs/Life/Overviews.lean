/-
What an overview of a finished scan says. A cell counts, for each kind, the
rows that meet the bytes of the cell, and these are as many as a query for
these bytes and this kind hands out (`Exact`). It does not matter in which
batches the rows were counted, nor whether the scan was finished just now or
loaded again after any number of runs (`overview_exact`): in all finished
tables the rows end on the device (`Run.ends_on_device`), so no row is
passed over and each is counted in some cell.

Three counts are compared, the one of the table, the one in batches and the
one of the query. The first two are equal for all tables, the third needs that
no row was left out by a clamp at the end of the device.
-/
import DiskAtlas.Proofs.Life.Ingestion
import DiskAtlas.Proofs.Life.Origin
import DiskAtlas.Proofs.Overview.Cells

namespace DiskAtlas

-- =============================================================== queries

namespace Query

variable {β : Type} {s : Store β}

/-- Asks for what meets a range of bytes. -/
def meeting (range : Span UInt64) : ExtentFilter := { physical := [range] }

theorem selects_meeting_iff {t : Tables} {kind : ExtentKind}
    {range : Span UInt64} {e : Extent} :
    Selects t { visible := .single kind } (meeting range) e ↔
      e.kind = kind ∧ range.overlaps e.physical e.physicalEnd = true := by
  have haccepts : (meeting range).accepts e
      = range.overlaps e.physical e.physicalEnd := by
    have hlogical : (meeting range).acceptsLogical e = true := by
      unfold ExtentFilter.acceptsLogical
      cases e.logical with
      | none => rfl
      | some first => cases e.logicalEnd <;> rfl
    rw [ExtentFilter.accepts, hlogical]
    simp [meeting, Span.anyContains, Span.anyOverlaps]
  have hvisible : QueryContext.isVisible { visible := .single kind } e.kind
      = (kind == e.kind) := KindSet.has_single kind e.kind
  constructor
  · intro h
    have hkind := h.visible
    rw [hvisible, beq_iff_eq] at hkind
    exact ⟨hkind.symm, haccepts ▸ h.accepted⟩
  · rintro ⟨rfl, hmeets⟩
    refine ⟨by rw [hvisible, beq_self_eq_true], haccepts ▸ hmeets, ?_⟩
    intro hactive
    cases hactive

/-- The answer has as many rows as the table has that are selected. -/
theorem length_answerRows (context : QueryContext) (filter : ExtentFilter)
    (f : Extent → Bool)
    (hf : ∀ e, f e = true ↔ Selects s.tables context filter e) :
    (answerRows s context filter).length
      = s.tables.extents.toList.countP f := by
  have hrows : s.tables.extents.toList
      = (StoreIndex.numbered s.tables.extents).map (·.1) := by
    rw [StoreIndex.numbered, List.zipIdx_map_fst]
  rw [answerRows, ← List.countP_eq_length_filter,
    (StoreIndex.sortedRows_perm _).countP_eq, hrows, List.countP_map]
  refine List.countP_congr fun r _ => ?_
  rw [acceptsExtent_eq_true_iff, Function.comp_apply, hf]

end Query

namespace Life

open Query Overview

variable {β : Type}

-- ================================================================ device

/-- Every row ends on the device. -/
def EndsOnDevice (t : Tables) : Prop :=
  ∀ summary, t.Finished summary → ∀ e ∈ t.extents,
    e.physical ≤ e.physicalEnd ∧ e.physicalEnd < summary.totalBytes

section Device

variable [Backend β] [LawfulBackend β]

/-- In a life that began at a blank place, the rows of all finished tables
end on the device. -/
theorem Run.ends_on_device {b : β} (hb : Blank b) {events : List Event}
    {p : Phase β} (h : Run (.closed b) events p) {t : Tables}
    {c : Calculated} {summary : Summary} (hhas : p.Has t c)
    (hfinished : t.Finished summary) : EndsOnDevice t := by
  refine h.finished_of hb (fun before x hx => ?_) hhas hfinished
  obtain ⟨_, fsPath, given, _, -, -, hfilled⟩ := hx.filled
  have hstored := (ingested_of_eq_within hfilled).tables.stored
  have hsummary : x.summary
      = some { given with path := fsPath, finished := false } := by
    unfold Session.summary
    rw [(Session.eq_within_iff.1 hfilled).1]
    exact summary_filled _ _ _
  obtain ⟨raised, hcompleted⟩ :=
    completed_finish hx hsummary fun e he => (hstored e he).toFits
  rw [hcompleted.tables_eq]
  rintro summary ⟨hraised, -⟩ e he
  obtain rfl := Option.some_inj.1 hraised
  exact ⟨(hstored e he).toFits.physical_le_physicalEnd,
    hcompleted.ends e he⟩

end Device

-- ============================================================= overviews

/-- A query gives this many rows, and no others however many are asked
for. -/
def Hands (s : Store β) (context : QueryContext) (filter : ExtentFilter)
    (count : Nat) : Prop :=
  ∃ answer rows, ExtentAnswer s.tables context filter answer ∧
    answer.length = count ∧ extents s context filter = .ok rows ∧
    ∀ n, (rows.cursor.take rows.look n s).1
      = (answer.map (extentRow s.tables filter)).take n

/-- Cells that count what meets them. -/
structure Exact (s : Store β) (display : Display) (cells : Array Cell) :
    Prop where
  size : cells.size = display.resolution.toNat
  /-- A cell counts the rows of each kind that meet its bytes, as many as a
  query for them gives. -/
  counts : ∀ cell < display.resolution, ∃ range c,
    display.cellRange cell = .ok range ∧ cells[cell.toNat]? = some c ∧
    ∀ kind,
      (c.count kind).toNat = s.tables.extents.toList.countP (fun e =>
        e.kind = kind ∧ range.overlaps e.physical e.physicalEnd) ∧
      Hands s { visible := .single kind } (meeting range)
        (c.count kind).toNat
  /-- Every row is counted in some cell that it meets. -/
  covered : ∀ e ∈ s.tables.extents, ∃ cell range c,
    display.cellRange cell = .ok range ∧ cells[cell.toNat]? = some c ∧
    range.overlaps e.physical e.physicalEnd ∧ 0 < c.count e.kind

/-- The cells that a row is counted in are cells that there are. -/
def InBounds (scan : Scan) (extents : Array Extent) : Prop :=
  ∀ e ∈ extents,
    (cellOf e.physical scan.resolution scan.total).toNat
        ≤ (cellOf e.physicalEnd scan.resolution scan.total).toNat ∧
      (cellOf e.physicalEnd scan.resolution scan.total).toNat
        < scan.cells.size

variable {s : Store β} {summary : Summary} {cells : UInt64}

/-- A query for the bytes of a cell and for one kind gives as many rows as
the table has. -/
theorem hands_meeting (hindex : s.index = .build s.tables)
    (hfinished : s.tables.Finished summary) {range : Span UInt64}
    (hrange : range.first < summary.totalBytes) (kind : ExtentKind) :
    Hands s { visible := .single kind } (meeting range)
      (s.tables.extents.toList.countP fun e =>
        e.kind = kind ∧ range.overlaps e.physical e.physicalEnd) := by
  have hvisible : (KindSet.single kind).isEmpty = false := by
    cases kind <;> rfl
  have hphysical : ∀ r ∈ (meeting range).physical,
      r.first < summary.totalBytes := by
    intro r hr
    rwa [List.mem_singleton.1 hr]
  refine ⟨answerRows s _ (meeting range), _,
    ⟨answerRows_sorted, fun e id => mem_answerRows⟩, ?_,
    extents_eq hfinished hvisible hphysical,
    take_rowsFrom hindex _ (Source.isOffered_picked _)⟩
  exact length_answerRows _ _ _ fun e =>
    decide_eq_true_iff.trans selects_meeting_iff.symm

/-- On a device that holds the rows, a cell counts those that meet its
range. -/
theorem count_overviewOf {t : Tables} (hfinished : t.Finished summary)
    (hends : EndsOnDevice t) (hcount : t.extents.size < UInt64.size)
    {display : Display} (htotal : display.total = summary.totalBytes)
    {cell : UInt64} {range : Span UInt64}
    (hrange : display.cellRange cell = .ok range) :
    ∃ c, (t.overviewOf display.resolution display.total)[cell.toNat]?
        = some c ∧
      ∀ kind, (c.count kind).toNat = t.extents.toList.countP fun e =>
        e.kind = kind ∧ range.overlaps e.physical e.physicalEnd := by
  have hcell := (Display.cellRange_eq_ok_iff.1 hrange).1
  obtain ⟨c, hc, hkinds⟩ := count_countAll display.resolution display.total
    t.extents.toList (UInt64.lt_iff_toNat_lt.1 hcell)
  refine ⟨c, hc, fun kind => ?_⟩
  have hfits : t.extents.toList.countP (fun e => decide (e.kind = kind ∧
      Touches display.resolution display.total cell.toNat e))
        < UInt64.size :=
    Nat.lt_of_le_of_lt List.countP_le_length (by simpa using hcount)
  rw [hkinds, UInt64.toNat_ofNat', Nat.mod_eq_of_lt hfits]
  refine List.countP_congr fun e he => ?_
  obtain ⟨hordered, hend⟩ :=
    hends summary hfinished e (Array.mem_toList_iff.1 he)
  rw [← htotal] at hend
  have hin := UInt64.lt_of_le_of_lt hordered hend
  rw [decide_eq_true_iff, decide_eq_true_iff,
    Display.overlaps_cellRange_iff hrange hordered hend, Touches,
    and_iff_right hin]
  rfl

/-- One pass over finished tables counts what meets the cells. -/
theorem exact_overviewOf (hindex : s.index = .build s.tables)
    (hfinished : s.tables.Finished summary)
    (hends : EndsOnDevice s.tables)
    (hcount : s.tables.extents.size < UInt64.size) {display : Display}
    (hpos : 0 < display.resolution)
    (hle : display.resolution ≤ summary.totalBytes)
    (htotal : display.total = summary.totalBytes) :
    Exact s display
      (s.tables.overviewOf display.resolution display.total) := by
  refine ⟨size_countAll _ _ _, fun cell hcell => ?_, fun e he => ?_⟩
  · have hrange := Display.cellRange_eq_ok_iff.2
      ⟨hcell, Eq.refl (Span.mk _ _)⟩
    obtain ⟨c, hc, hkinds⟩ :=
      count_overviewOf hfinished hends hcount htotal hrange
    refine ⟨_, c, hrange, hc, fun kind => ⟨hkinds kind, ?_⟩⟩
    rw [hkinds kind]
    refine hands_meeting hindex hfinished ?_ kind
    rw [htotal]
    exact cellStart_lt (UInt64.lt_iff_toNat_lt.1 hcell) hle
  · obtain ⟨hordered, hend⟩ := hends summary hfinished e he
    rw [← htotal] at hend
    -- the cell of its first byte
    have hcell : display.cellOf e.physical < display.resolution :=
      UInt64.lt_iff_toNat_lt.2 (cellOf_lt hpos)
    have hrange := Display.cellRange_eq_ok_iff.2
      ⟨hcell, Eq.refl (Span.mk _ _)⟩
    obtain ⟨c, hc, hkinds⟩ :=
      count_overviewOf hfinished hends hcount htotal hrange
    have hmeets := (Display.overlaps_cellRange_iff hrange hordered hend).2
      ⟨Nat.le_refl _, cellOf_mono hordered⟩
    refine ⟨_, _, c, hrange, hc, hmeets, ?_⟩
    rw [UInt64.lt_iff_toNat_lt, hkinds, UInt64.toNat_zero,
      List.countP_pos_iff]
    exact ⟨e, Array.mem_toList_iff.2 he, decide_eq_true ⟨rfl, hmeets⟩⟩

-- =============================================================== batches

/-- However the rows are divided into batches, what was counted are the
rows before the next one. -/
theorem counts_foldl_step {t : Tables} (batches : List Nat) :
    ∀ {scan : Scan}, Store.Counts t scan →
      let last := batches.foldl (fun scan n => scan.step t.extents n) scan
      Store.Counts t last ∧ last.resolution = scan.resolution ∧
        last.total = scan.total := by
  induction batches with
  | nil => exact fun h => ⟨h, rfl, rfl⟩
  | cons batch rest ih => exact fun h => ih (h.step batch)

/-- The cells of every row are among those of the count. -/
theorem inBounds_of_counts {t : Tables} (hends : EndsOnDevice t)
    {scan : Scan} (hscan : Store.Counts t scan) :
    InBounds scan t.extents := by
  intro e he
  obtain ⟨other, hother, hpos, -, -⟩ := hscan.allowed
  obtain ⟨hordered, -⟩ := hends other hother e he
  rw [hscan.counted.cells_eq, size_countAll]
  exact ⟨cellOf_mono hordered, cellOf_lt hpos⟩

variable [Backend β] [LawfulBackend β]

/-- Of a finished scan with fewer rows than a word of four bytes counts,
the overview is exact at every resolution that the device allows, in
whatever batches it is counted; and asking for it afresh gives the same. -/
theorem overview_exact {b : β} (hb : Blank b) {events : List Event}
    {d : Desk β} (h : Run (.closed b) events (.resting d))
    (hready : d.store.ensureReady = .ok summary)
    (hcount : d.store.tables.extents.size < UInt32.size)
    (hpos : 1 ≤ cells) (hle : cells ≤ summary.totalBytes)
    (batches : List Nat) :
    ∃ start display, d.store.overviewScan cells = .ok start ∧
      Display.ofStore d.store cells = .ok display ∧
      let scan := batches.foldl
        (fun scan batch => scan.step d.store.tables.extents batch) start
      InBounds scan d.store.tables.extents ∧
      Exact d.store display (d.store.finishOverview scan).1 ∧
      (d.store.overview cells true).1
        = .ok (d.store.finishOverview scan).1 := by
  have hfinished := Store.ensureReady_eq_ok_iff.1 hready
  have hsound : d.Sound := h.sound hb.sound
  -- no extent of a finished scan reaches past the device, which is what keeps
  -- its last cell inside the display
  have hends := h.ends_on_device hb (.resting d rfl) hfinished
  have hposWord : 0 < cells := UInt64.lt_of_lt_of_le (by decide) hpos
  have hstart : d.store.overviewScan cells
      = .ok (.start cells summary.totalBytes) :=
    Store.overviewScan_eq_ok_iff.2 ⟨summary, hfinished, hposWord, hle, rfl⟩
  have hdisplay : Display.ofStore d.store cells
      = .ok ⟨cells, summary.totalBytes, []⟩ := by
    have hcheck := Store.checkResolution_eq_ok_iff.2 ⟨hposWord, hle⟩
    simp only [Display.ofStore, Display.make, hready, hcheck, bind,
      Except.bind, pure, Except.pure]
  refine ⟨_, _, hstart, hdisplay, ?_⟩
  obtain ⟨hcounts, hresolution, htotal⟩ :=
    counts_foldl_step batches (Store.counts_of_overviewScan hstart)
  intro scan
  have hcells : (d.store.finishOverview scan).1
      = d.store.tables.overviewOf cells summary.totalBytes := by
    rw [Store.finishOverview_eq hcounts, hresolution, htotal]
    rfl
  have hexact : Exact d.store ⟨cells, summary.totalBytes, []⟩
      (d.store.tables.overviewOf cells summary.totalBytes) :=
    exact_overviewOf (h.indexed summary hfinished) hfinished hends
      (Nat.lt_trans hcount (by decide)) hposWord hle rfl
  refine ⟨inBounds_of_counts hends hcounts, ?_, ?_⟩
  · rw [hcells]
    exact hexact
  · rw [hcells, Store.overview_eq hsound.store, hstart]
    rfl

/-- A file and a directory that share no cell but lie across cells of
different sizes. -/
def acrossCells : List Call :=
  [.inode (.bare 7 .file) "/a", .inode (.bare 8 .directory) "/d",
    .extent (.bare 7 .file) ⟨0, 3, 4, .empty⟩ false,
    .extent (.bare 8 .directory) ⟨0, 7, 3, .empty⟩ false]

/-- Ten bytes are cut into three cells, and the rows are counted one at a
time. -/
theorem overview_exact_acrossCells :
    let d : Desk Vault := { store := scanned "/" (.blank "/") acrossCells }
    (∃ summary, d.store.ensureReady = .ok summary ∧
      summary.totalBytes = 10) ∧
    ∃ start display, d.store.overviewScan 3 = .ok start ∧
      Display.ofStore d.store 3 = .ok display ∧
      let scan := [0, 1].foldl
        (fun scan batch => scan.step d.store.tables.extents batch) start
      InBounds scan d.store.tables.extents ∧
      Exact d.store display (d.store.finishOverview scan).1 ∧
      (d.store.overview 3 true).1
        = .ok (d.store.finishOverview scan).1 := by
  intro d
  have hblank : Blank ({} : Vault) := rfl
  have hready : d.store.ensureReady
      = .ok { Summary.blank "/" with totalBytes := 10, finished := true } :=
    rfl
  exact ⟨⟨_, hready, rfl⟩, overview_exact hblank
    (run_scan "/" (.blank "/") acrossCells) hready (by decide) (by decide)
    (by decide) [0, 1]⟩

end Life

end DiskAtlas

/-
What can be said of a scan at any time, whatever was put in. Whoever finds
a scan under way can tell when it was begun and which calls have filled it
since (`Run.filled`), so its rows are as rows are put in, its paths name
inodes that there are, and no extent that was offered is lost count of.
When the scan is finished the device holds every row, and a query for the
place where a row lies finds the row (`foundInPlace`).

The record of what was given is kept by the events and not by the store, so
the same statements hold of a scan that is abandoned, or that a crash ends.
-/
import DiskAtlas.Proofs.Store.Ingested
import DiskAtlas.Proofs.Life.Answers
import DiskAtlas.Proofs.Life.Finished

namespace DiskAtlas

-- ================================================================= places

namespace Query

variable {β : Type} {s : Store β} {context : QueryContext} {e : Extent}

/-- Asks for what lies where an extent lies. -/
def ownPlace (e : Extent) : ExtentFilter :=
  { physical := [⟨e.physical, e.physicalEnd⟩] }

/-- The filter that looks in the place of an extent says nothing of logical
offsets, so extents without one pass as well. -/
theorem acceptsLogical_ownPlace (e e' : Extent) :
    (ownPlace e).acceptsLogical e' = true := by
  unfold ExtentFilter.acceptsLogical
  split
  · rfl
  · rfl

/-- An extent overlaps itself. -/
theorem selects_ownPlace {t : Tables} (hfits : e.Fits)
    (hvisible : context.visible = .all) :
    Selects t context (ownPlace e) e := by
  refine ⟨?_, ?_, nofun⟩
  · rw [QueryContext.isVisible, hvisible, KindSet.has_all]
  · rw [ExtentFilter.accepts, acceptsLogical_ownPlace]
    simp [ownPlace, Span.anyContains, Span.anyOverlaps, Span.overlaps,
      hfits.physical_le_physicalEnd]

end Query

namespace Life

open Query

variable {β : Type}

/-- A query for what lies where an extent lies is answered, and with the
extent among other rows, each of which comes once. -/
def FoundInPlace (s : Store β) (context : QueryContext) (e : Extent)
    (id : Nat) : Prop :=
  ∃ answer rows, ExtentAnswer s.tables context (ownPlace e) answer ∧
    (e, id) ∈ answer ∧
    extents s context (ownPlace e) = .ok rows ∧
    ∀ n, (rows.cursor.take rows.look n s).1
      = (answer.map (extentRow s.tables (ownPlace e))).take n

/-- Every row that ends on the device is found where it lies. -/
theorem foundInPlace {s : Store β} {summary : Summary}
    (hindex : s.index = .build s.tables)
    (hfinished : s.tables.Finished summary) {context : QueryContext}
    (hvisible : context.visible = .all) {e : Extent} {id : Nat}
    (hrow : s.tables.extents[id]? = some e) (hfits : e.Fits)
    (hend : e.physicalEnd < summary.totalBytes) :
    FoundInPlace s context e id := by
  have hsome : context.visible.isEmpty = false := by
    rw [hvisible]
    rfl
  have hphysical : ∀ r ∈ (ownPlace e).physical,
      r.first < summary.totalBytes := by
    intro r hr
    obtain rfl := List.mem_singleton.1 hr
    exact UInt64.lt_of_le_of_lt hfits.physical_le_physicalEnd hend
  refine ⟨answerRows s context (ownPlace e), _,
    ⟨answerRows_sorted, fun e id => mem_answerRows⟩, ?_,
    extents_eq hfinished hsome hphysical, ?_⟩
  · exact mem_answerRows.2 ⟨hrow, selects_ownPlace hfits hvisible⟩
  · intro n
    exact take_rowsFrom hindex context (Source.isOffered_picked _) n

-- ============================================================== under way

/-- A scan as it is under way, after some calls. -/
structure Ingested (fsPath : String) (given : Summary) (calls : List Call)
    (x : Session β) : Prop where
  tables : x.store.tables.Ingested given.separator
  offered : x.extentCount + x.discarded
    = Call.offersAll calls (blankScan fsPath given)
  accepts : ∀ row path, (x.insertInode row path).1 = .ok () ↔
    IsPathKey given.separator path
  /-- A call that is rejected changes nothing. -/
  rejects : ∀ row path e, (x.insertInode row path).1 = .error e →
    (Call.inode row path).put x = x

/-- Calls alone make a scan what it is. -/
theorem ingested_of_eq_within {fsPath : String} {given : Summary}
    {calls : List Call} {x : Session β}
    (h : x = (filled fsPath given calls).within x.store) :
    Ingested fsPath given calls x := by
  obtain ⟨htables, hdiscarded⟩ := Session.eq_within_iff.1 h
  have hfills := Call.puts_fills calls (blankScan fsPath given)
  have hseparator : x.separator = given.separator := by
    unfold Session.separator Session.summary
    rw [htables]
    exact hfills.separator_eq
  refine ⟨?_, ?_, ?_, ?_⟩
  · rw [htables]
    exact hfills.ingested (.of_empty _)
  · have hcount : x.extentCount
        = (filled fsPath given calls).extentCount := by
      unfold Session.extentCount
      rw [htables]
    rw [hcount, hdiscarded]
    exact hfills.offered.trans (Nat.zero_add _)
  · intro row path
    rw [← Session.pathError?_eq_none_iff, ← hseparator]
    unfold Session.insertInode
    cases Session.pathError? x.separator path with
    | none => simp
    | some e => simp
  · intro row path e hrejected
    unfold Session.insertInode at hrejected
    simp only [Call.put, Session.insertInode]
    split at hrejected
    · rfl
    · cases hrejected

-- =============================================================== finished

/-- A store whose scan of some rows was finished: its device is as large
as was said at first, or as the rows ask for, so that every row ends on it
and is found there. -/
structure Completed (given : UInt64) (t : Tables) (s : Store β)
    (summary : Summary) : Prop where
  tables_eq : s.tables = { t with summary := some summary }
  finished : s.tables.Finished summary
  total : IsGreatest (deviceSizes given t.extents)
    summary.totalBytes.toNat
  ends : ∀ e ∈ t.extents, e.physicalEnd < summary.totalBytes
  found : ∀ context : QueryContext, context.visible = .all →
    ∀ e id, t.extents[id]? = some e → FoundInPlace s context e id

variable [Backend β] [LawfulBackend β]

variable {p q : Phase β} {event : Event} {events : List Event}

/-- A scan under way was filled by nothing but calls. -/
def Phase.Filled (events : List Event) : Phase β → Prop
  | .scanning session => FilledBy events session
  | _ => True

/-- One step of a life keeps the record of what was given, whichever phase it
leads to. -/
theorem Step.filled (h : Step p event q) (hp : p.Filled events) :
    q.Filled (events ++ [event]) := by
  cases h with
  | begins saved => exact filledBy_of_begun saved
  | puts call => exact FilledBy.put hp call
  | checkpoints => exact FilledBy.checkpoint hp
  | opens | closes | crashes | uses | refuses | abandons | finishes =>
    exact trivial

/-- Wherever the life of a store began, a scan under way was filled by
nothing but calls. -/
theorem Run.filled {b : β} (h : Run (.closed b) events p) :
    p.Filled events := by
  induction h with
  | start => exact trivial
  | step _ last ih => exact last.filled ih

/-- Finishing a scan makes the device hold the rows. -/
theorem completed_finish {b : β} {x : Session β}
    (h : Run (.closed b) events (.scanning x)) {summary : Summary}
    (hsummary : x.summary = some summary)
    (hfits : ∀ e ∈ x.store.tables.extents, e.Fits) :
    ∃ raised,
      Completed summary.totalBytes x.store.tables x.finish.2 raised := by
  have htables := (Session.finish_saved hsummary).tables_eq
  have htotal := Session.isGreatest_raiseTotal summary hfits
  let raised : Summary :=
    { Session.raiseTotal summary x.store.tables.extents with
      finished := true }
  have hfinished : x.finish.2.tables.Finished raised := by
    rw [htables]
    exact ⟨rfl, rfl⟩
  -- whether the save succeeded or not, the indexes were built
  have hindex := (h.step .finishes).indexed raised hfinished
  have hends : ∀ e ∈ x.store.tables.extents,
      e.physicalEnd < raised.totalBytes := by
    intro e he
    exact physicalEnd_lt_of_isGreatest htotal he (hfits e he)
  refine ⟨raised, htables, hfinished, htotal, hends, ?_⟩
  intro context hvisible e id hrow
  have he := Array.mem_of_getElem? hrow
  refine foundInPlace hindex hfinished hvisible ?_ (hfits e he) (hends e he)
  rw [htables]
  exact hrow

/-- Whatever calls have filled a scan, and however often it was saved, its
rows are as rows are put in and no extent is lost count of; and when it is
finished, the device holds its rows. -/
theorem scanning_ingested {b : β} {x : Session β}
    (h : Run (.closed b) events (.scanning x)) :
    ∃ before fsPath given filling,
      events = before ++ .begun fsPath given :: filling ∧
      IsFilling filling ∧
      Ingested fsPath given (callsOf filling) x ∧
      ∃ summary,
        Completed given.totalBytes x.store.tables x.finish.2 summary := by
  obtain ⟨before, fsPath, given, filling, hevents, hfilling, hx⟩ := h.filled
  have hingested := ingested_of_eq_within hx
  have hsummary : x.summary
      = some { given with path := fsPath, finished := false } := by
    unfold Session.summary
    rw [(Session.eq_within_iff.1 hx).1]
    exact summary_filled _ _ _
  refine ⟨before, fsPath, given, filling, hevents, hfilling, hingested, ?_⟩
  have hfits : ∀ e ∈ x.store.tables.extents, e.Fits := by
    intro e he
    exact (hingested.tables.stored e he).toFits
  obtain ⟨summary, hcompleted⟩ := completed_finish h hsummary hfits
  exact ⟨summary, hcompleted⟩

/-- The calls of a scan that finds a file up to the last byte that has an
offset, and is told of things that have no place. -/
def lastOffset : List Call :=
  [.inode (.bare 7 .file) "/a", .inode (.bare 8 .file) "/",
    .extent (.bare 7 .file) ⟨0, maxWord - 512, 512, .last⟩ false,
    .extent (.bare 7 .file) ⟨512, maxWord - 512, 513, .empty⟩ false,
    .extent (.bare 7 .file) ⟨1024, 4096, 512, .unknown⟩ false]

/-- A file may reach up to the last byte that has an offset, and no
further. -/
theorem scanning_ingested_lastOffset :
    let events := fillingOf "/" (.blank "/") lastOffset
    let x :=
      (filled "/" (.blank "/") lastOffset).within (begun "/" (.blank "/"))
    Run (.closed {}) events (.scanning x) ∧
      x.extentCount = 1 ∧ x.discarded = 2 ∧
      (∃ before fsPath given filling,
        events = before ++ .begun fsPath given :: filling ∧
        IsFilling filling ∧
        Ingested fsPath given (callsOf filling) x ∧
        ∃ summary,
          Completed given.totalBytes x.store.tables x.finish.2 summary) ∧
      ∃ summary, x.finish.2.tables.summary = some summary ∧
        summary.totalBytes = maxWord := by
  intro events x
  have hrun := run_filling "/" (.blank "/") lastOffset
  exact ⟨hrun, rfl, rfl, scanning_ingested hrun, _, rfl, rfl⟩

end Life

end DiskAtlas

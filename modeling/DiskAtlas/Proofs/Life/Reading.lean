/-
A store on a place that cannot be written. It computes and keeps what it
has computed like any other store, but none of it goes to its place: to
flush and to close it write nothing, and the operations that would drop
something are refused before they do (`Store.Locked`). So whatever is done
with such a store, the place and the tables stay as they are, and it answers
like any other store on the same snapshot that goes through the same
without what was refused (`reading_never_writes`). The two go through the
same states but for their places, act by act (`Desk.Twins.act`). If what
the snapshot holds of computed values is right, the answers do not even
depend on what was asked before (`figures_of_sound`).
-/
import DiskAtlas.Proofs.Life.Twins

namespace DiskAtlas

variable {β γ : Type}

namespace Store

-- ============================================================== refusing

variable [Backend β]

/-- A store that writes nothing: what would drop something is refused and
changes nothing, and there is nothing to save. -/
structure Locked (s : Store β) : Prop where
  beginScanWith : ∀ summary, s.beginScanWith summary
    = (.error (.notWritable (Backend.location s.backend)), s)
  beginScan : ∀ facts, s.beginScan facts
    = (.error (.notWritable (Backend.location s.backend)), s)
  clearCalculated : s.clearCalculated
    = (.error (.notWritable (Backend.location s.backend)), s)
  clearOverviews : s.clearOverviews
    = (.error (.notWritable (Backend.location s.backend)), s)
  flush : s.flush = (.ok (), s)
  close : s.close = s.backend

theorem ensureWritable_of_reading {s : Store β}
    (h : Backend.isWritable s.backend = false) :
    s.ensureWritable = .error (.notWritable (Backend.location s.backend)) :=
  if_neg (Bool.eq_false_iff.1 h)

/-- Where the backend is not written nothing is dropped. -/
theorem dropCalculated_of_reading {s : Store β}
    (h : Backend.isWritable s.backend = false)
    (keep : Calculated → Calculated) :
    s.dropCalculated keep
      = (.error (.notWritable (Backend.location s.backend)), s) := by
  rw [dropCalculated, ensureWritable_of_reading h]

/-- A backend that is not written refuses whatever would write, before the
store is touched. -/
theorem locked_of_reading {s : Store β}
    (h : Backend.isWritable s.backend = false) : s.Locked := by
  have hrefuses := ensureWritable_of_reading h
  have hflush : s.flush = (.ok (), s) := by
    refine if_neg fun hsaves => ?_
    exact Bool.eq_false_iff.1 h (Bool.and_eq_true_iff.1 hsaves).2
  refine ⟨fun summary => ?_, fun facts => ?_, dropCalculated_of_reading h _,
    dropCalculated_of_reading h _, hflush, ?_⟩
  · rw [Store.beginScanWith, hrefuses]
  · rw [Store.beginScan, hrefuses]
  · rw [Store.close, hflush]

/-- Opening takes the snapshot over and indexes it. -/
theorem opened_iff {b : β} {fsPath : String} {s : Store β} :
    Store.opened b fsPath = .ok s ↔ ∃ state, Backend.load b = .ok state ∧
      s = ⟨b, fsPath, (state.getD default).tables,
        .build (state.getD default).tables,
        (state.getD default).calculated, false⟩ := by
  unfold Store.opened
  cases Backend.load b with
  | error e => exact ⟨nofun, nofun⟩
  | ok state =>
    refine ⟨fun h => ⟨state, rfl, (Except.ok.inj h).symm⟩, ?_⟩
    rintro ⟨state', hstate, rfl⟩
    obtain rfl := Except.ok.inj hstate
    rfl

end Store

namespace Life

-- ================================================================== acts

/-- What can be tried on a store at rest. -/
inductive Act where
  | use (use : Use)
  | beginScanWith (summary : Summary)
  | beginScan (facts : String → Except Error Summary)

/-- Does an act drop something? -/
def Act.drops : Act → Bool
  | .use .clearCalculated | .use .clearOverviews => true
  | .use _ => false
  | .beginScanWith _ | .beginScan _ => true

/-- What trying an act makes of a desk. -/
def Desk.act [Backend β] (d : Desk β) : Act → Desk β
  | .use use => d.after use
  | .beginScanWith summary =>
    { d with store := (d.store.beginScanWith summary).2 }
  | .beginScan facts => { d with store := (d.store.beginScan facts).2 }

/-- Two desks that differ at most in the places of their stores. -/
structure Desk.Twins (d : Desk β) (d' : Desk γ) : Prop where
  store : d.store.Twins d'.store
  counts : d'.counts = d.counts
  queries : d'.queries = d.queries

/-- On two desks every question is answered alike, whether it is asked of
the tables, of what was computed, or of a count or a query that was begun
before. -/
structure Desk.SameWords (d : Desk β) (d' : Desk γ) : Prop where
  answers : d.store.SameAnswers d'.store
  owners : d.store.SameOwners d'.store
  stats : ∀ ino, (d'.store.inodeStats ino).1 = (d.store.inodeStats ino).1
  overview : ∀ calledOff cells force,
    (d'.store.overviewUnless calledOff cells force).1
      = (d.store.overviewUnless calledOff cells force).1
  overviewScan : ∀ cells,
    d'.store.overviewScan cells = d.store.overviewScan cells
  counts : d'.counts = d.counts
  counted : ∀ scan,
    (d'.store.finishOverview scan).1 = (d.store.finishOverview scan).1
  queries : d'.queries = d.queries
  extentRows : ∀ (rows : Query.ExtentRows) questions,
    rows.cursor.told rows.look questions d'.store
      = rows.cursor.told rows.look questions d.store
  inodeRows : ∀ (rows : Query.InodeRows) questions,
    rows.cursor.told rows.look questions d'.store
      = rows.cursor.told rows.look questions d.store

section Words

variable {d : Desk β} {d' : Desk γ}

theorem Desk.Twins.words (h : d.Twins d') : d.SameWords d' where
  answers := h.store.answers
  owners := h.store.owners
  stats ino := (Store.sameStep_inodeStats ino h.store).1
  overview calledOff cells force :=
    (Store.sameStep_overviewUnless calledOff cells force h.store).1
  overviewScan := h.store.overviewScan_eq
  counts := h.counts
  counted scan := (Store.sameStep_finishOverview scan h.store).1
  queries := h.queries
  extentRows rows := rows.told_twins h.store
  inodeRows rows := rows.told_twins h.store

end Words

section Steps

variable [Backend β] [Backend γ] {d : Desk β} {d' : Desk γ}

/-- What is computed for an answer is kept beside the tables and goes
nowhere else. -/
theorem Desk.act_reading
    (hreading : Backend.isWritable d.store.backend = false) (act : Act) :
    d.store.Alike (d.act act).store := by
  have hlocked := Store.locked_of_reading hreading
  cases act with
  | beginScanWith summary =>
    rw [act, hlocked.beginScanWith]
    exact .refl _
  | beginScan facts =>
    rw [act, hlocked.beginScan]
    exact .refl _
  | use use =>
    -- what would write is refused, and the rest only adds computed values
    obtain hcomputed | ⟨keep, hdropped⟩ | hsaved := d.after_cases use
    · exact hcomputed
    · rw [act, hdropped, Store.dropCalculated_of_reading hreading]
      exact .refl _
    · rw [act, hsaved, hlocked.flush]
      exact .refl _

/-- An act that would drop something is refused and changes nothing. -/
theorem Desk.act_dropping
    (hreading : Backend.isWritable d.store.backend = false) {act : Act}
    (hdrops : act.drops = true) : d.act act = d := by
  have hlocked := Store.locked_of_reading hreading
  cases act with
  | beginScanWith summary => rw [act, hlocked.beginScanWith]
  | beginScan facts => rw [act, hlocked.beginScan]
  | use use =>
    cases use with
    | clearCalculated => rw [act, after, hlocked.clearCalculated]
    | clearOverviews => rw [act, after, hlocked.clearOverviews]
    | _ => cases hdrops

/-- Any other act is the same on a twin, which may save itself. -/
theorem Desk.Twins.act (h : d.Twins d')
    (hreading : Backend.isWritable d.store.backend = false) {act : Act}
    (hkeeps : act.drops = false) : (d.act act).Twins (d'.act act) := by
  have hlocked := Store.locked_of_reading hreading
  obtain ⟨hstore, hcounts, hqueries⟩ := h
  -- only what drops computed values may tell the two apart, and it is excluded
  cases act with
  | beginScanWith summary => cases hkeeps
  | beginScan facts => cases hkeeps
  | use use =>
    cases use with
    | clearCalculated => cases hkeeps
    | clearOverviews => cases hkeeps
    | stats ino =>
      exact ⟨(Store.sameStep_inodeStats ino hstore).2, hcounts, hqueries⟩
    | overview calledOff cells force =>
      exact ⟨(Store.sameStep_overviewUnless calledOff cells force hstore).2,
        hcounts, hqueries⟩
    | beginCount cells =>
      dsimp only [Desk.act, after]
      rw [hstore.overviewScan_eq, hcounts]
      split
      · exact ⟨hstore, hcounts, hqueries⟩
      · exact ⟨hstore, rfl, hqueries⟩
    | countOn place batch =>
      dsimp only [Desk.act, after]
      rw [hcounts, hstore.tables_eq]
      split
      · exact ⟨hstore, hcounts, hqueries⟩
      · exact ⟨hstore, rfl, hqueries⟩
    | finishCount place =>
      dsimp only [Desk.act, after]
      rw [hcounts]
      split
      · exact ⟨hstore, hcounts, hqueries⟩
      · next scan _ =>
        exact ⟨(Store.sameStep_finishOverview scan hstore).2, rfl, hqueries⟩
    | dropCount place =>
      exact ⟨hstore, congrArg (·.eraseIdx place) hcounts, hqueries⟩
    | beginQuery context filter =>
      dsimp only [Desk.act, after]
      rw [Query.inodes_twins hstore, hqueries]
      split
      · exact ⟨hstore, hcounts, hqueries⟩
      · exact ⟨hstore, hcounts, rfl⟩
    | nextRow place =>
      dsimp only [Desk.act, after]
      rw [hqueries]
      split
      · exact ⟨hstore, hcounts, hqueries⟩
      · next rows _ =>
        obtain ⟨hcursor, hleft⟩ := rows.fill_twins hstore
        refine ⟨hleft, hcounts, ?_⟩
        simp only [Query.Cursor.next_eq, hcursor]
    | nextPage place =>
      dsimp only [Desk.act, after]
      rw [hqueries]
      split
      · exact ⟨hstore, hcounts, hqueries⟩
      · next rows _ =>
        obtain ⟨hcursor, hleft⟩ := rows.fill_twins hstore
        refine ⟨hleft, hcounts, ?_⟩
        simp only [Query.Cursor.nextPage, hcursor]
    | dropQuery place =>
      exact ⟨hstore, hcounts, congrArg (·.eraseIdx place) hqueries⟩
    | flush =>
      dsimp only [Desk.act, after]
      rw [hlocked.flush]
      exact ⟨hstore.flush, hcounts, hqueries⟩

end Steps

-- ================================================================== runs

section Runs

variable [Backend β] [Backend γ]

/-- Whatever is tried on a store for reading, its place and its tables
stay, and a twin that leaves out what would drop something stays a
twin. -/
theorem Desk.acts_reading (acts : List Act) {d : Desk β} {d' : Desk γ}
    (hreading : Backend.isWritable d.store.backend = false)
    (h : d.Twins d') :
    d.store.Alike (acts.foldl Desk.act d).store ∧
      (acts.foldl Desk.act d).Twins
        ((acts.filter (!·.drops)).foldl Desk.act d') := by
  induction acts generalizing d d' with
  | nil => exact ⟨.refl _, h⟩
  | cons act acts ih =>
    have hstep := d.act_reading hreading act
    have hreading' : Backend.isWritable (d.act act).store.backend = false := by
      rw [hstep.backend_eq, hreading]
    cases hdrops : act.drops with
    | true =>
      have hdropped : (d.act act).Twins d' := by
        rwa [Desk.act_dropping hreading hdrops]
      obtain ⟨hstays, htwins⟩ := ih hreading' hdropped
      refine ⟨hstep.trans hstays, ?_⟩
      rw [List.filter_cons_of_neg (by simp [hdrops])]
      exact htwins
    | false =>
      obtain ⟨hstays, htwins⟩ := ih hreading' (h.act hreading hdrops)
      refine ⟨hstep.trans hstays, ?_⟩
      rw [List.filter_cons_of_pos (by simp [hdrops])]
      exact htwins

/-- Stores that are opened on the same snapshot are twins. -/
theorem opened_twins {b : β} {b' : γ} {fsPath : String} {s : Store β}
    (hsame : Backend.load b' = Backend.load b)
    (hs : Store.opened b fsPath = .ok s) :
    ∃ s', Store.opened b' fsPath = .ok s' ∧ s.Twins s' := by
  obtain ⟨state, hload, rfl⟩ := Store.opened_iff.1 hs
  exact ⟨_, Store.opened_iff.2 ⟨state, hsame.trans hload, rfl⟩,
    rfl, rfl, rfl, rfl⟩

end Runs

/-- Uses leave a store in memory sound. -/
theorem Desk.Sound.acts (acts : List Act) {d : Desk Vault} (hd : d.Sound)
    (hkeep : ∀ act ∈ acts, act.drops = false) :
    (acts.foldl Desk.act d).Sound := by
  induction acts generalizing d with
  | nil => exact hd
  | cons act acts ih =>
    refine ih ?_ fun other hother => hkeep other (List.mem_cons_of_mem _ hother)
    cases act with
    | use use => exact hd.after use
    | beginScanWith summary => cases hkeep _ List.mem_cons_self
    | beginScan facts => cases hkeep _ List.mem_cons_self

/-- A sound store for reading stays sound, because a twin of it in memory
does. -/
theorem sound_reading [Backend β] {s : Store β} (hs : s.Sound)
    (hreading : Backend.isWritable s.backend = false) (acts : List Act) :
    (acts.foldl Desk.act { store := s }).store.Sound := by
  let blank : Vault := {}
  let v : Store Vault :=
    ⟨blank, s.fsPath, s.tables, s.index, s.calculated, false⟩
  have htwins : s.Twins v := ⟨rfl, rfl, rfl, rfl⟩
  have hblank : HeldSound v.backend := fun _ hstate => nomatch hstate
  have hv : ({ store := v } : Desk Vault).Sound :=
    Desk.sound_of_store (htwins.sound hs) hblank
  have hstart : Desk.Twins ({ store := s } : Desk β) { store := v } :=
    ⟨htwins, rfl, rfl⟩
  obtain ⟨-, hdesks⟩ := Desk.acts_reading acts hreading hstart
  refine hdesks.store.symm.sound (hv.acts _ fun act hact => ?_).store
  simpa using (List.mem_filter.1 hact).2

/-- A store that is opened where nothing can be written never writes,
whatever is tried on it. Its place and its tables stay as they are, all
that would drop something is refused and drops nothing, flushing and
closing write nothing, and every answer is the one of a store that was
opened on the same snapshot and has gone through the same, without what
was refused; if what the snapshot holds is sound, also the one of a store
that was opened on it just now. -/
theorem reading_never_writes [Backend β] {b : β}
    (hb : Backend.isWritable b = false)
    {fsPath : String} {s : Store β} (hs : Store.opened b fsPath = .ok s)
    (acts : List Act) :
    let d := acts.foldl Desk.act { store := s }
    d.store.backend = b ∧ d.store.tables = s.tables ∧ d.store.Locked ∧
      ∀ {γ : Type} [Backend γ] (b' : γ), Backend.load b' = Backend.load b →
        ∃ s', Store.opened b' fsPath = .ok s' ∧
          d.SameWords
            ((acts.filter (!·.drops)).foldl Desk.act { store := s' }) ∧
          (s.tables.Keyed → s.calculated.Sound s.tables →
            d.store.SameFigures s') := by
  intro d
  have hplace : s.backend = b := by
    obtain ⟨state, -, rfl⟩ := Store.opened_iff.1 hs
    rfl
  have hreading : Backend.isWritable s.backend = false := by rwa [hplace]
  -- compared with itself to see what stays, and with the other to see what is
  -- said
  have hself : Desk.Twins ({ store := s } : Desk β) { store := s } :=
    ⟨⟨rfl, rfl, rfl, rfl⟩, rfl, rfl⟩
  obtain ⟨hstays, -⟩ := Desk.acts_reading acts hreading hself
  have hbackend : d.store.backend = b := hstays.backend_eq.trans hplace
  refine ⟨hbackend, hstays.tables_eq,
    Store.locked_of_reading (by rwa [hbackend]), fun {γ} _ b' hsame => ?_⟩
  obtain ⟨s', hs', htwins⟩ := opened_twins hsame hs
  have hdesks : Desk.Twins ({ store := s } : Desk β)
      ({ store := s' } : Desk γ) := ⟨htwins, rfl, rfl⟩
  obtain ⟨-, hwords⟩ := Desk.acts_reading acts hreading hdesks
  refine ⟨s', hs', hwords.words, fun hkeyed hcalculated => ?_⟩
  have hindex : s.index = .build s.tables := by
    obtain ⟨state, -, rfl⟩ := Store.opened_iff.1 hs
    rfl
  have hsound : s.Sound := ⟨hkeyed, hcalculated, fun _ _ => hindex⟩
  exact Store.figures_of_sound (sound_reading hsound hreading acts)
    (htwins.sound hsound) (htwins.fsPath_eq.trans hstays.fsPath_eq.symm)
    (htwins.tables_eq.trans hstays.tables_eq.symm)
    (htwins.index_eq.trans hstays.index_eq.symm)

/-- A finished scan of one file, on a place for reading. -/
def readingPlace : Vault :=
  { (scanned "/" (.blank "/") oneFile).backend with access := .readOnly }

/-- A statistic of the file is computed and kept, and none of what is tried
then reaches the place or drops the statistic. -/
theorem reading_never_writes_oneFile :
    let acts : List Act := [.use (.stats 7), .use .clearCalculated,
      .beginScanWith (.blank "/"), .use .flush]
    ∃ s, Store.opened readingPlace "/" = .ok s ∧
      let d := acts.foldl Desk.act { store := s }
      d.store.calculated.inodeStats.entries ≠ [] ∧ d.store.dirty = true ∧
      d.store.close = readingPlace ∧
      d.store.beginScan (fun _ => .ok (.blank "/"))
        = (.error (.notWritable "memory"), d.store) := by
  intro acts
  have hopened : Store.opened readingPlace "/" = .ok _ := rfl
  refine ⟨_, hopened, ?_⟩
  obtain ⟨hplace, -, hlocked, -⟩ := reading_never_writes rfl hopened acts
  refine ⟨?_, ?_, hlocked.close.trans hplace, ?_⟩
  · exact List.cons_ne_nil _ _
  · rfl
  · exact hlocked.beginScan _

end Life

end DiskAtlas

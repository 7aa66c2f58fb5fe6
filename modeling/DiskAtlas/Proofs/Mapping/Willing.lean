/-
Listeners that refuse nothing. Who listens has then no say in how a mapping
goes: the requests, the outcome and the records handed over are the same for
every such listener, and where the listener stands in the end follows from
the records (`Mapper.map_willing`). So what a mapping changes, and what it
leaves alone, is known from what one record does. Nor does a mapping look at how
often a scan is saved (`Mapper.map_saving`).

The records have to be known before the listener is, so the outcome and the
records are chosen first and the listener is quantified inside.
-/
import DiskAtlas.Proofs.Mapping.Fallback

namespace DiskAtlas.Mapping

variable {ρ α σ : Type}

/-- Every listener that takes all it is given is given the same records. -/
theorem Trace.listen_willing (trace : Trace ρ α) :
    ∃ (requests : List ρ) (records : List α) (stopped : Option Error),
      ∀ {τ : Type} (put : α → τ → τ) (state : τ),
        listen (fun a x => .ok (put a x)) trace state
          = ⟨requests, records.length,
            records.foldl (fun x a => put a x) state, stopped⟩ := by
  induction trace with
  | nil => exact ⟨[], [], none, fun _ _ => rfl⟩
  | cons step rest ih =>
    obtain ⟨requests, records, stopped, hrest⟩ := ih
    cases step with
    | ask r =>
      refine ⟨r :: requests, records, stopped, fun put state => ?_⟩
      rw [listen, hrest]
    | give a =>
      refine ⟨requests, a :: records, stopped, fun put state => ?_⟩
      simp only [listen, hrest, List.length_cons, List.foldl_cons]
    | fail e => exact ⟨[], [], some e, fun _ _ => rfl⟩

namespace Mapper

variable (m : Mapper) (target : MapTarget σ) (s : σ)

/-- A listener has been given records, each with whether it holds
attributes. -/
def given {τ : Type} (put : Bool → RawExtent → τ → τ)
    (records : List (Bool × RawExtent)) (state : τ) : τ :=
  records.foldl (fun x r => put r.1 r.2 x) state

theorem given_cons {τ : Type} (put : Bool → RawExtent → τ → τ)
    (record : Bool × RawExtent) (records : List (Bool × RawExtent))
    (state : τ) :
    given put (record :: records) state
      = given put records (put record.1 record.2 state) := rfl

theorem given_map {τ : Type} (put : Bool → RawExtent → τ → τ)
    (isXattr : Bool) (records : List RawExtent) (state : τ) :
    given put (records.map (isXattr, ·)) state
      = records.foldl (fun x a => put isXattr a x) state :=
  List.foldl_map

theorem given_append {τ : Type} (put : Bool → RawExtent → τ → τ)
    (records more : List (Bool × RawExtent)) (state : τ) :
    given put (records ++ more) state
      = given put more (given put records state) :=
  List.foldl_append

/-- Reading blocks for a willing listener: the outcome, the lookups and the
records come from the source alone. -/
theorem mapBlocks_willing (requests : List FileRequest) :
    ∃ (outcome : Except Error MapOutcome) (asked : List UInt64)
        (records : List (Bool × RawExtent)),
      ∀ {τ : Type} (put : Bool → RawExtent → τ → τ) (state : τ),
        m.mapBlocks target (fun isXattr a x => .ok (put isXattr a x))
            requests s state
          = ⟨outcome, requests, asked, given put records state⟩ := by
  unfold mapBlocks
  dsimp only
  generalize (BlockReader.run _ target.blocks s).1 = answer
  cases answer with
  | error e => exact ⟨.error e, [], [], fun _ _ => rfl⟩
  | ok read =>
    obtain ⟨asked, records, stopped, hheard⟩ := Trace.listen_willing read.2
    refine ⟨ended stopped ⟨records.length, 0, true⟩, asked,
      records.map (false, ·), fun put state => ?_⟩
    rw [given_map]
    simp only [hheard]
    rfl

/-- Asking for attributes for a willing listener, behind requests and a
listener that the data left. -/
theorem mapXattrs_willing (taken : Nat) (requests : List FileRequest)
    (stopped : Option Error) :
    ∃ (outcome : Except Error MapOutcome) (requests' : List FileRequest)
        (records : List (Bool × RawExtent)),
      ∀ {τ : Type} (put : Bool → RawExtent → τ → τ) (state : τ),
        m.mapXattrs target (fun isXattr a x => .ok (put isXattr a x))
            ⟨requests, taken, state, stopped⟩ s
          = ⟨outcome, requests', [], given put records state⟩ := by
  unfold mapXattrs
  generalize m.readFile target FileRequest.xattrFlag s = walk
  cases hrefused : walk.1.refusal? with
  | some e =>
    refine ⟨if e.isUnsupported then .ok ⟨taken, 0, false⟩ else .error e,
      requests ++ walk.1.requests, [], fun put state => ?_⟩
    simp only [hrefused]
    rfl
  | none =>
    obtain ⟨more, records, stopped, hheard⟩ :=
      Trace.listen_willing (join walk.1)
    refine ⟨ended stopped ⟨taken, records.length, false⟩, requests ++ more,
      records.map (true, ·), fun put state => ?_⟩
    rw [given_map]
    simp only [hrefused, hheard]
    rfl

/-- Every listener that takes all it is given is given the same records, the
mapping ends the same for it, and so does the mapper. -/
theorem map_willing :
    ∃ (outcome : Except Error MapOutcome) (requests : List FileRequest)
        (asked : List UInt64) (records : List (Bool × RawExtent))
        (m' : Mapper),
      ∀ {τ : Type} (put : Bool → RawExtent → τ → τ) (state : τ),
        m.map target (fun isXattr a x => .ok (put isXattr a x)) s state
          = (⟨outcome, requests, asked, given put records state⟩, m') := by
  -- the same branches as the mapping takes; in each the records are settled
  -- before any listener is given one
  unfold map
  split
  · obtain ⟨outcome, asked, records, hblocks⟩ :=
      m.mapBlocks_willing target s []
    refine ⟨outcome, [], asked, records, m, fun put state => ?_⟩
    rw [hblocks]
  · generalize m.readFile target 0 s = walk
    cases hrefused : walk.1.refusal? with
    | some e =>
      cases hunknown : e.isUnsupported with
      | true =>
        obtain ⟨outcome, asked, records, hblocks⟩ :=
          (m.noteRefusal target.inode.kind).mapBlocks_willing target walk.2
            walk.1.requests
        refine ⟨outcome, walk.1.requests, asked, records,
          m.noteRefusal target.inode.kind, fun put state => ?_⟩
        simp only [hrefused, hunknown, hblocks, if_true]
      | false =>
        refine ⟨.error e, walk.1.requests, [], [], m, fun put state => ?_⟩
        simp only [hrefused, hunknown]
        rfl
    | none =>
      obtain ⟨requests, records, stopped, hheard⟩ :=
        Trace.listen_willing (join walk.1)
      cases stopped with
      | some e =>
        refine ⟨.error e, requests, [], records.map (false, ·), m,
          fun put state => ?_⟩
        rw [given_map]
        simp only [hrefused, hheard]
      | none =>
        obtain ⟨outcome, requests', attrs, hattrs⟩ :=
          m.mapXattrs_willing target walk.2 records.length requests none
        refine ⟨outcome, requests', [], records.map (false, ·) ++ attrs, m,
          fun put state => ?_⟩
        rw [given_append, given_map]
        simp only [hrefused, hheard, hattrs]

/-- The mapper of a scan that is saved at other times. -/
def saving (interval : Option UInt64) : Mapper :=
  { m with settings.checkpointInterval := interval }

/-- A mapper hands the same records over at every interval between saves; the
interval is only kept with its settings. -/
theorem map_saving {τ : Type} (take : Bool → RawExtent → τ → Except Error τ)
    (state : τ) (interval : Option UInt64) :
    (m.saving interval).map target take s state
      = ((m.map target take s state).1,
        (m.map target take s state).2.saving interval) := by
  have hblocks : ∀ requests s state,
      (m.saving interval).mapBlocks target take requests s state
        = m.mapBlocks target take requests s state := fun _ _ _ => rfl
  have hasks : ∀ extra s, (m.saving interval).readFile target extra s
      = m.readFile target extra s := fun _ _ => rfl
  have hskips : ∀ kind,
      (m.saving interval).skipsRequests kind = m.skipsRequests kind :=
    fun _ => rfl
  unfold map
  rw [hskips]
  split
  · rw [hblocks]
  · rw [hasks]
    generalize m.readFile target 0 s = walk
    obtain ⟨trace, s⟩ := walk
    dsimp only
    cases trace.refusal? with
    | some e =>
      dsimp only
      split <;> rfl
    | none =>
      dsimp only
      cases (Trace.listen (take false) (join trace) state).stopped <;> rfl

end Mapper

end DiskAtlas.Mapping

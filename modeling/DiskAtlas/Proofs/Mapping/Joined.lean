/-
What joining makes of a sequence of records and failures. Between two
failures the records fall into maximal runs of neighbours, and each run
becomes one record (`Joined`); so nothing is lost, neither a failure nor a
byte (`join_maximalRuns`).

The record that is held back stands for the run that has come so far
(`Held.Holds`). A record that continues it lengthens the run, any other
record, a failure or the end closes it; this is the whole induction
(`joined_from`). Lengths are summed as numbers: a run ends where its last
record does, so its length fits into a word.
-/
import Mathlib.Algebra.GroupWithZero.Nat
import Mathlib.Data.List.Chain
import DiskAtlas.Mapping.Joined

namespace DiskAtlas

-- ================================================================= runs

namespace RawExtent

/-- Does the second record begin where the first ends, in the file and on
the device, with the same flags but for the mark of the last one? -/
def Follows (a b : RawExtent) : Prop :=
  a.physical.toNat + a.length.toNat = b.physical.toNat ∧
    a.logical.toNat + a.length.toNat = b.logical.toNat ∧
    a.flags.without .last = b.flags.without .last

/-- Does a record end within the largest offset, in the file and on the
device? -/
def Fits (e : RawExtent) : Prop :=
  e.physical.toNat + e.length.toNat ≤ maxWord.toNat ∧
    e.logical.toNat + e.length.toNat ≤ maxWord.toNat

/-- The bytes of the file that a record covers, each with its place on the
device. -/
def places (e : RawExtent) : List (Nat × Nat) :=
  (List.range e.length.toNat).map fun i =>
    (e.logical.toNat + i, e.physical.toNat + i)

end RawExtent

namespace Mapping

/-- Records cut into runs of neighbours, none of which could be longer. -/
structure MaximalRuns (records : List RawExtent)
    (runs : List (List RawExtent)) : Prop where
  flatten_eq : runs.flatten = records
  nonempty : [] ∉ runs
  neighbours : ∀ run ∈ runs, run.IsChain RawExtent.Follows
  apart : runs.IsChain fun run next =>
    ∀ a ∈ run.getLast?, ∀ b ∈ next.head?, ¬ a.Follows b

/-- The one record for a run. It begins with the run, is as long as all of
the run and has the flags of the run, which are marked as joined if there
was anything to join. -/
structure IsWhole (run : List RawExtent) (e : RawExtent) : Prop where
  first : ∀ a ∈ run.head?, e.physical = a.physical ∧ e.logical = a.logical
  length_eq : e.length.toNat = (run.map (·.length.toNat)).sum
  flags_eq : ∀ a ∈ run, e.flags =
    if 1 < run.length then (a.flags.without .last).union .merged
    else a.flags.without .last

/-- The second sequence has the failures of the first and, before each of
them and at the end, one record for each maximal run. -/
inductive Joined : List (Except Error RawExtent) →
    List (Except Error RawExtent) → Prop where
  | stretch {records wholes : List RawExtent}
      {runs : List (List RawExtent)} (cut : MaximalRuns records runs)
      (wholes_of : List.Forall₂ IsWhole runs wholes) :
      Joined (records.map .ok) (wholes.map .ok)
  | failure {records wholes : List RawExtent}
      {runs : List (List RawExtent)} (cut : MaximalRuns records runs)
      (wholes_of : List.Forall₂ IsWhole runs wholes) (e : Error)
      {items more : List (Except Error RawExtent)}
      (rest : Joined items more) :
      Joined (records.map .ok ++ .error e :: items)
        (wholes.map .ok ++ .error e :: more)

/-- The failures of a sequence. -/
def failuresOf (items : List (Except Error RawExtent)) : List Error :=
  items.filterMap fun
    | .ok _ => none
    | .error e => some e

/-- The bytes that the records of a sequence cover. -/
def placesOf (items : List (Except Error RawExtent)) : List (Nat × Nat) :=
  items.flatMap fun
    | .ok e => e.places
    | .error _ => []

-- ======================================================== cutting runs

theorem maximalRuns_nil : MaximalRuns [] [] :=
  ⟨rfl, List.not_mem_nil, fun _ h => absurd h List.not_mem_nil, .nil⟩

/-- A run in front of others, if the first record behind it does not
continue it. -/
theorem MaximalRuns.cons {run records : List RawExtent}
    {runs : List (List RawExtent)} (hruns : MaximalRuns records runs)
    (hrun : run ≠ []) (hchain : run.IsChain RawExtent.Follows)
    (hapart : ∀ a ∈ run.getLast?, ∀ b ∈ records.head?, ¬ a.Follows b) :
    MaximalRuns (run ++ records) (run :: runs) := by
  refine ⟨?_, ?_, ?_, ?_⟩
  · rw [List.flatten_cons, hruns.flatten_eq]
  · rw [List.mem_cons, not_or]
    exact ⟨Ne.symm hrun, hruns.nonempty⟩
  · intro other hother
    rcases List.mem_cons.1 hother with rfl | hother
    · exact hchain
    · exact hruns.neighbours other hother
  · refine List.isChain_cons.2 ⟨fun next hnext a ha b hb => ?_, hruns.apart⟩
    refine hapart a ha b ?_
    -- the first record behind the run is the first one of the next run
    obtain ⟨rest, rfl⟩ := List.head?_eq_some_iff.1 hnext
    obtain ⟨more, rfl⟩ := List.head?_eq_some_iff.1 hb
    rw [← hruns.flatten_eq]
    rfl

/-- A closed run in front of a sequence becomes one record in front of
what the sequence becomes. -/
theorem Joined.cons {run : List RawExtent} {whole e : RawExtent}
    {items out : List (Except Error RawExtent)} (hrun : run ≠ [])
    (hchain : run.IsChain RawExtent.Follows) (hwhole : IsWhole run whole)
    (hapart : ∀ a ∈ run.getLast?, ¬ a.Follows e)
    (h : Joined (.ok e :: items) out) :
    Joined (run.map .ok ++ .ok e :: items) (.ok whole :: out) := by
  have hhead : ∀ {records : List RawExtent}, records.head? = some e →
      ∀ a ∈ run.getLast?, ∀ b ∈ records.head?, ¬ a.Follows b := by
    intro records he a ha b hb
    obtain rfl := Option.some_inj.1 (he.symm.trans hb)
    exact hapart a ha
  generalize hitems : Except.ok e :: items = front at h
  cases h with
  | @stretch records wholes runs cut wholes_of =>
    obtain ⟨b, rest, rfl, hb, -⟩ := List.map_eq_cons_iff.1 hitems.symm
    obtain rfl := Except.ok.inj hb
    rw [← List.map_append]
    exact .stretch (cut.cons hrun hchain (hhead rfl)) (.cons hwhole wholes_of)
  | @failure records wholes runs cut wholes_of failed items' more rest =>
    cases records with
    | nil => cases hitems
    | cons b records =>
      obtain rfl : e = b := Except.ok.inj (List.cons.inj hitems).1
      rw [← List.append_assoc, ← List.map_append]
      exact .failure (cut.cons hrun hchain (hhead rfl))
        (.cons hwhole wholes_of) failed rest

-- ============================================================= holding

/-- A record is held back for a run: it is the one record for the run, and
what continues it is what follows the last record of the run. -/
structure Held.Holds (h : Held) (run : List RawExtent) : Prop where
  nonempty : run ≠ []
  chain : run.IsChain RawExtent.Follows
  whole : IsWhole run h.extent
  flags_eq : ∀ a ∈ run, h.flags = a.flags.without .last
  stop : ∀ a ∈ run.getLast?,
    h.extent.physical.toNat + h.extent.length.toNat
        = a.physical.toNat + a.length.toNat ∧
      h.extent.logical.toNat + h.extent.length.toNat
        = a.logical.toNat + a.length.toNat

namespace Held

variable {h : Held} {run : List RawExtent} {e : RawExtent}

/-- A record that begins a run is held back for itself. -/
theorem holds_single (e : RawExtent) : (single e).Holds [e] := by
  refine ⟨List.cons_ne_nil _ _, .singleton e, ⟨?_, ?_, ?_⟩, ?_, ?_⟩
  · intro a ha
    obtain rfl := Option.some_inj.1 ha
    exact ⟨rfl, rfl⟩
  · exact (Nat.add_zero _).symm
  · intro a ha
    obtain rfl := List.mem_singleton.1 ha
    rfl
  · intro a ha
    obtain rfl := List.mem_singleton.1 ha
    rfl
  · intro a ha
    obtain rfl := Option.some_inj.1 ha
    exact ⟨rfl, rfl⟩

/-- What continues a run that is held back follows its last record. -/
theorem Holds.continuedBy_iff (hh : h.Holds run) {a : RawExtent}
    (ha : run.getLast? = some a) :
    h.continuedBy e = true ↔ a.Follows e := by
  obtain ⟨hphysical, hlogical⟩ := hh.stop a ha
  have hflags := hh.flags_eq a (List.mem_of_getLast? ha)
  simp only [continuedBy, RawExtent.Follows, Bool.and_eq_true, beq_iff_eq,
    checkedAdd_eq_some_iff, hphysical, hlogical, hflags, and_assoc]

/-- Marking flags as joined once more changes nothing. -/
private theorem union_merged (f : Flags) :
    (f.union .merged).union .merged = f.union .merged := by
  simp [Flags.union, UInt32.or_assoc]

/-- A record that continues a run lengthens it. -/
theorem Holds.grow (hh : h.Holds run) (he : e.Fits)
    (hnext : h.continuedBy e = true) : (h.grow e).Holds (run ++ [e]) := by
  obtain ⟨a, ha⟩ : ∃ a, run.getLast? = some a :=
    ⟨_, List.getLast?_eq_some_getLast hh.nonempty⟩
  obtain ⟨hphysical, hlogical⟩ := hh.stop a ha
  obtain ⟨hphysicalNext, hlogicalNext, hflagsNext⟩ :=
    (hh.continuedBy_iff ha).1 hnext
  have hsame : ∀ b ∈ run ++ [e], h.flags = b.flags.without .last := by
    intro b hb
    rcases List.mem_append.1 hb with hb | hb
    · exact hh.flags_eq b hb
    · obtain rfl := List.mem_singleton.1 hb
      exact (hh.flags_eq a (List.mem_of_getLast? ha)).trans hflagsNext
  -- `e` fits, so the sum of the lengths does not wrap
  have hlength : (h.grow e).extent.length.toNat
      = h.extent.length.toNat + e.length.toNat := by
    have hfits := he.1
    rw [toNat_maxWord] at hfits
    have hsum := UInt64.toNat_add h.extent.length e.length
    rw [Nat.mod_eq_of_lt (by omega)] at hsum
    exact hsum
  -- a single record gets the mark now, and a longer run has it already
  have hmerged : (h.grow e).extent.flags = h.flags.union .merged := by
    show h.extent.flags.union .merged = _
    rw [hh.flags_eq a (List.mem_of_getLast? ha),
      hh.whole.flags_eq a (List.mem_of_getLast? ha)]
    split
    · exact union_merged _
    · rfl
  refine ⟨by simp, ?_, ⟨?_, ?_, ?_⟩, hsame, ?_⟩
  · refine List.isChain_append.2 ⟨hh.chain, .singleton e, ?_⟩
    intro b hb c hc
    obtain rfl := Option.some_inj.1 (ha.symm.trans hb)
    obtain rfl := Option.some_inj.1 hc
    exact ⟨hphysicalNext, hlogicalNext, hflagsNext⟩
  · intro b hb
    rw [List.head?_append_of_ne_nil _ hh.nonempty] at hb
    exact hh.whole.first b hb
  · rw [hlength, hh.whole.length_eq, List.map_append, List.sum_append]
    rfl
  · intro b hb
    have hlong : 1 < (run ++ [e]).length := by
      have := List.length_pos_of_ne_nil hh.nonempty
      simp only [List.length_append, List.length_singleton]
      omega
    rw [hmerged, hsame b hb, if_pos hlong]
  · intro b hb
    rw [List.getLast?_concat] at hb
    obtain rfl := Option.some_inj.1 hb
    rw [hlength]
    show h.extent.physical.toNat + _ = _ ∧ h.extent.logical.toNat + _ = _
    omega

end Held

-- ============================================================== joining

variable {ρ : Type}

/-- What is held back, if anything, and the run that it is held back
for. -/
def Pending (held : Option Held) (run : List RawExtent) : Prop :=
  match held with
  | none => run = []
  | some h => h.Holds run

/-- A pending run is cut off by whatever does not continue it. -/
theorem Pending.closed {held : Option Held} {run : List RawExtent}
    (h : Pending held run) :
    ∃ runs, MaximalRuns run runs ∧
      List.Forall₂ IsWhole runs (held.map (·.extent)).toList := by
  cases held with
  | none =>
    obtain rfl : run = [] := h
    exact ⟨[], maximalRuns_nil, .nil⟩
  | some held =>
    have hh : held.Holds run := h
    have hcut := maximalRuns_nil.cons hh.nonempty hh.chain
      fun _ _ _ hb => nomatch hb
    rw [List.append_nil] at hcut
    exact ⟨[run], hcut, .cons hh.whole .nil⟩

/-- With a run pending, the rest is joined as if the run came first. -/
theorem joined_from (held : Option Held) (run : List RawExtent)
    (trace : Trace ρ RawExtent) (hpending : Pending held run)
    (hfits : ∀ e, .ok e ∈ trace.items → e.Fits) :
    Joined (run.map .ok ++ trace.items) (joinFrom held trace).items := by
  -- the run that is pending grows, so it is arbitrary in the induction
  induction trace generalizing held run with
  | nil =>
    obtain ⟨runs, hcut, hwholes⟩ := hpending.closed
    have hout : Trace.items (joinFrom held ([] : Trace ρ RawExtent))
        = (held.map (·.extent)).toList.map .ok := by
      cases held <;> rfl
    rw [hout]
    show Joined (run.map .ok ++ []) _
    rw [List.append_nil]
    exact .stretch hcut hwholes
  | cons step rest ih =>
    cases step with
    | ask r => exact ih held run hpending hfits
    | fail e =>
      obtain ⟨runs, hcut, hwholes⟩ := hpending.closed
      have hrest := ih none [] rfl
        fun b hb => hfits b (List.mem_cons_of_mem _ hb)
      have hout : (joinFrom held (.fail e :: rest)).items
          = (held.map (·.extent)).toList.map .ok
            ++ .error e :: (joinFrom none rest).items := by
        cases held <;> rfl
      rw [hout]
      exact .failure hcut hwholes e hrest
    | give e =>
      have hrest : ∀ b, .ok b ∈ Trace.items rest → b.Fits :=
        fun b hb => hfits b (List.mem_cons_of_mem _ hb)
      cases held with
      | none =>
        obtain rfl : run = [] := hpending
        exact ih (some (.single e)) [e] (Held.holds_single e) hrest
      | some h =>
        have hh : h.Holds run := hpending
        show Joined (run.map .ok ++ .ok e :: Trace.items rest)
          (Trace.items (if h.continuedBy e then _ else _))
        split
        · next hnext =>
          -- the record lengthens the run
          have hgrown := hh.grow (hfits e List.mem_cons_self) hnext
          have hjoined := ih (some (h.grow e)) (run ++ [e]) hgrown hrest
          rwa [List.map_append, List.append_assoc] at hjoined
        · next hnext =>
          -- the record closes the run and begins its own
          have hsingle := ih (some (.single e)) [e] (Held.holds_single e)
            hrest
          refine hsingle.cons hh.nonempty hh.chain hh.whole ?_
          exact fun a ha hfollows => hnext ((hh.continuedBy_iff ha).2 hfollows)

-- ======================================================= nothing is lost

/-- Failures are neither lost nor made. -/
theorem Joined.failures_eq {items out : List (Except Error RawExtent)}
    (h : Joined items out) : failuresOf out = failuresOf items := by
  have hnone : ∀ records : List RawExtent,
      failuresOf (records.map .ok) = [] := by
    intro records
    simp [failuresOf]
  have happend : ∀ (records : List RawExtent) e more,
      failuresOf (records.map .ok ++ .error e :: more)
        = e :: failuresOf more := by
    intro records e more
    rw [failuresOf, List.filterMap_append]
    exact congrArg (· ++ e :: failuresOf more) (hnone records)
  induction h with
  | stretch => rw [hnone, hnone]
  | failure _ _ e _ ih => rw [happend, happend, ih]

/-- The record for a run covers the bytes of the run. -/
theorem IsWhole.places_eq {run : List RawExtent} {e : RawExtent}
    (h : IsWhole run e) (hchain : run.IsChain RawExtent.Follows) :
    e.places = run.flatMap RawExtent.places := by
  have hrun : ∀ (run : List RawExtent) (logical physical : Nat),
      run.IsChain RawExtent.Follows →
      (∀ a ∈ run.head?, logical = a.logical.toNat ∧
        physical = a.physical.toNat) →
      (List.range (run.map (·.length.toNat)).sum).map
          (fun i => (logical + i, physical + i))
        = run.flatMap RawExtent.places := by
    intro run
    induction run with
    | nil => intros; rfl
    | cons a rest ih =>
      intro logical physical hchain hfirst
      obtain ⟨rfl, rfl⟩ := hfirst a rfl
      obtain ⟨hnext, hrest⟩ := List.isChain_cons.1 hchain
      rw [List.map_cons, List.sum_cons, List.range_add, List.map_append,
        List.map_map, List.flatMap_cons]
      congr 1
      -- the rest begins where the first record ends
      rw [← ih (a.logical.toNat + a.length.toNat)
        (a.physical.toNat + a.length.toNat) hrest]
      · simp [Function.comp_def, Nat.add_assoc]
      · intro b hb
        obtain ⟨hphysical, hlogical, -⟩ := hnext b hb
        exact ⟨hlogical, hphysical⟩
  rw [RawExtent.places, h.length_eq]
  refine hrun run _ _ hchain fun a ha => ?_
  obtain ⟨hphysical, hlogical⟩ := h.first a ha
  rw [hphysical, hlogical]
  exact ⟨rfl, rfl⟩

/-- The records for runs cover the bytes of all the records. -/
theorem MaximalRuns.places_eq {records wholes : List RawExtent}
    {runs : List (List RawExtent)} (hcut : MaximalRuns records runs)
    (hwholes : List.Forall₂ IsWhole runs wholes) :
    wholes.flatMap RawExtent.places = records.flatMap RawExtent.places := by
  rw [← hcut.flatten_eq]
  have hchains := hcut.neighbours
  clear hcut
  induction hwholes with
  | nil => rfl
  | @cons run whole runs wholes hwhole _ ih =>
    rw [List.flatMap_cons, List.flatten_cons, List.flatMap_append,
      hwhole.places_eq (hchains run List.mem_cons_self),
      ih fun other h => hchains other (List.mem_cons_of_mem _ h)]

/-- Bytes keep their places. -/
theorem Joined.places_eq {items out : List (Except Error RawExtent)}
    (h : Joined items out) : placesOf out = placesOf items := by
  have hrecords : ∀ records : List RawExtent,
      placesOf (records.map .ok) = records.flatMap RawExtent.places := by
    intro records
    rw [placesOf, List.flatMap_map]
  have happend : ∀ (records : List RawExtent) e more,
      placesOf (records.map .ok ++ .error e :: more)
        = records.flatMap RawExtent.places ++ placesOf more := by
    intro records e more
    rw [← hrecords, placesOf, List.flatMap_append]
    rfl
  induction h with
  | stretch cut wholes_of =>
    rw [hrecords, hrecords, cut.places_eq wholes_of]
  | failure cut wholes_of e _ ih =>
    rw [happend, happend, cut.places_eq wholes_of, ih]

-- =============================================================== theorem

/-- Joining gives one record for each maximal run between failures, and
the failures in their places; so every failure comes through once and in
order, and every byte of the file keeps its place on the device. -/
theorem join_maximalRuns (trace : Trace ρ RawExtent)
    (hfits : ∀ e, .ok e ∈ trace.items → e.Fits) :
    Joined trace.items (join trace).items ∧
      failuresOf (join trace).items = failuresOf trace.items ∧
      placesOf (join trace).items = placesOf trace.items := by
  have hjoined := joined_from none [] trace rfl hfits
  exact ⟨hjoined, hjoined.failures_eq, hjoined.places_eq⟩

/-- Two records that end at the largest offset are joined, over an empty
one and over the mark of the last; a third that would follow the first is
not, because a failure stands between them. -/
theorem join_maximalRuns_atLimit :
    let first : RawExtent := ⟨0, 0xFFFFFFFFFFFFF000, 2048, .last⟩
    let empty : RawExtent := ⟨2048, 0xFFFFFFFFFFFFF800, 0, .empty⟩
    let last : RawExtent := ⟨2048, 0xFFFFFFFFFFFFF800, 2047, .empty⟩
    let trace : Trace Unit RawExtent := [.ask (), .give first, .give empty,
      .ask (), .give last, .fail .noScan, .give empty]
    let whole : RawExtent := ⟨0, 0xFFFFFFFFFFFFF000, 4095, .merged⟩
    (∀ e, .ok e ∈ trace.items → e.Fits) ∧
      Joined trace.items [.ok whole, .error .noScan, .ok empty] ∧
      failuresOf (join trace).items = failuresOf trace.items ∧
      placesOf (join trace).items = placesOf trace.items := by
  intro first empty last trace whole
  have hfits : ∀ e, .ok e ∈ trace.items → e.Fits := by
    intro e he
    have hmem : e ∈ [first, empty, last, empty] := by
      simpa [trace, Trace.items] using he
    simp only [List.mem_cons, List.not_mem_nil, or_false] at hmem
    obtain rfl | rfl | rfl | rfl := hmem
    · exact ⟨by decide, by decide⟩
    · exact ⟨by decide, by decide⟩
    · exact ⟨by decide, by decide⟩
    · exact ⟨by decide, by decide⟩
  have hout : (join trace).items = [.ok whole, .error .noScan, .ok empty] := by
    cbv
  obtain ⟨hjoined, hfailures, hplaces⟩ := join_maximalRuns trace hfits
  exact ⟨hfits, hout ▸ hjoined, hfailures, hplaces⟩

end Mapping

end DiskAtlas

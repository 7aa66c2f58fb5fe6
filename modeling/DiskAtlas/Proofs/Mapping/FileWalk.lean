/-
Reading a file whose extents lie in order, one behind the other
(`IsLayout`), from a source that answers every request with the records
that have a byte of the stretch asked for, as many as there is room for
and whole (`Serves`). The walk then gives every record that has a byte of
its stretch, once and in order, with room for one record as with room for
many (`items_walkFile`).

A request that begins where the last record of a page ends finds exactly
the records behind that page (`filter_behind`): those before it end at or
before that offset, and those behind begin there at the earliest. This is
also why the walk always gets past the start of its own request.
-/
import DiskAtlas.Proofs.Mapping.FileRequest
import DiskAtlas.Mapping.FileWalk

namespace DiskAtlas

-- ============================================================= layouts

namespace RawExtent

/-- Does a record hold the byte of the file at an offset? -/
def Covers (e : RawExtent) (offset : Nat) : Prop :=
  e.logical.toNat ≤ offset ∧ offset < e.logical.toNat + e.length.toNat

/-- Does a record hold a byte of the file from `start` on and before
`stop`? -/
def Meets (start stop : Nat) (e : RawExtent) : Prop :=
  ∃ offset, start ≤ offset ∧ offset < stop ∧ e.Covers offset

/-- A record and a span share a byte exactly if the later of their starts lies
before the earlier of their ends. -/
theorem meets_iff {start stop : Nat} {e : RawExtent} :
    e.Meets start stop ↔
      max start e.logical.toNat
        < min stop (e.logical.toNat + e.length.toNat) := by
  constructor
  · rintro ⟨offset, hstart, hstop, hfirst, hend⟩
    omega
  · intro h
    refine ⟨max start e.logical.toNat, ?_, ?_, ?_, ?_⟩ <;> omega

instance (start stop : Nat) : DecidablePred (RawExtent.Meets start stop) :=
  fun _ => decidable_of_iff' _ meets_iff

end RawExtent

namespace Mapping

open RawExtent

/-- The records of a file in order, no two of which share a byte. Only the
final one may be marked as the last. -/
structure IsLayout (records : List RawExtent) : Prop where
  sorted : records.Pairwise fun a b => a.logical ≤ b.logical
  disjoint : records.Pairwise fun a b =>
    ∀ offset, ¬ (a.Covers offset ∧ b.Covers offset)
  nonempty : ∀ e ∈ records, 1 ≤ e.length
  fits : ∀ e ∈ records,
    e.logical.toNat + e.length.toNat ≤ maxWord.toNat
  unmarked : records.Pairwise fun a _ => a.isLast = false

namespace IsLayout

variable {records : List RawExtent}

/-- No record of a layout is empty, so a walk gets past each of them. -/
theorem length_pos (h : IsLayout records) {e : RawExtent}
    (he : e ∈ records) : 0 < e.length.toNat :=
  UInt64.le_iff_toNat_le.1 (h.nonempty e he)

/-- The end of a record of a layout is a word, and no sum wraps on the way. -/
theorem nextLogical_eq (h : IsLayout records) {e : RawExtent}
    (he : e ∈ records) :
    e.nextLogical.toNat = e.logical.toNat + e.length.toNat := by
  rw [nextLogical, toNat_satAdd, Nat.min_eq_left (h.fits e he)]

/-- Each record ends before the records behind it begin. -/
theorem apart (h : IsLayout records) :
    records.Pairwise fun a b =>
      a.nextLogical.toNat ≤ b.logical.toNat := by
  refine (h.sorted.and h.disjoint).imp_of_mem fun ha hb hab => ?_
  rw [h.nextLogical_eq ha]
  refine Nat.le_of_not_lt fun hlt => hab.2 _ ⟨⟨?_, hlt⟩, Nat.le_refl _, ?_⟩
  · exact UInt64.le_iff_toNat_le.1 hab.1
  · exact Nat.lt_add_of_pos_right (h.length_pos hb)

/-- The records that meet a stretch and stand behind a page of them are
those that meet the stretch from the end of the page on. -/
theorem filter_behind (h : IsLayout records) {start stop : Nat}
    {page rest : List RawExtent} {tail : RawExtent}
    (hsplit : records.filter (Meets start stop) = page ++ rest)
    (htail : page.getLast? = some tail) :
    records.filter (Meets tail.nextLogical.toNat stop) = rest := by
  obtain ⟨before, behind, rfl, hpage, hrest⟩ :=
    List.filter_eq_append_iff.1 hsplit
  obtain ⟨page, rfl⟩ := List.getLast?_eq_some_iff.1 htail
  have htailmem : tail ∈ before.filter (Meets start stop) := by
    rw [hpage]
    exact List.mem_append_right _ (List.mem_singleton_self _)
  obtain ⟨htailmem, hmeets⟩ := List.mem_filter.1 htailmem
  have hend := h.nextLogical_eq (List.mem_append_left behind htailmem)
  have hmeets := meets_iff.1 (of_decide_eq_true hmeets)
  have hapart := List.pairwise_append.1 h.apart
  have hpast : start < tail.nextLogical.toNat := by omega
  -- what meets the shorter stretch meets the whole one
  have hwiden : ∀ e : RawExtent,
      e.Meets tail.nextLogical.toNat stop → e.Meets start stop := by
    rintro e ⟨offset, hle, hlt, hcovers⟩
    exact ⟨offset, by omega, hlt, hcovers⟩
  rw [List.filter_append]
  have hnone : before.filter (Meets tail.nextLogical.toNat stop) = [] := by
    refine List.filter_eq_nil_iff.2 fun e he hmeet => ?_
    have hmeet := of_decide_eq_true hmeet
    have hmem : e ∈ before.filter (Meets start stop) :=
      List.mem_filter.2 ⟨he, decide_eq_true (hwiden e hmeet)⟩
    have hends := h.nextLogical_eq (List.mem_append_left behind he)
    have hmeet := meets_iff.1 hmeet
    have hordered := hapart.1.filter (Meets start stop ·)
    rw [hpage] at hmem hordered
    rcases List.mem_append.1 hmem with hearlier | hlast
    · have hle := (List.pairwise_append.1 hordered).2.2 e hearlier tail
        (List.mem_singleton_self _)
      omega
    · rw [List.mem_singleton.1 hlast] at hmeet
      omega
  rw [hnone, List.nil_append, ← hrest]
  refine List.filter_congr fun e he => decide_eq_decide.2 ⟨hwiden e, ?_⟩
  intro hmeet
  have hle := hapart.2.2 tail htailmem e he
  have hmeet := meets_iff.1 hmeet
  exact meets_iff.2 (by omega)

/-- A page of a layout is not cut short by a mark. -/
theorem cutAfter_page (h : IsLayout records) {page : List RawExtent}
    (hpage : page.Sublist records) : cutAfter (·.isLast) page = page := by
  have hunmarked := h.unmarked.sublist hpage
  clear hpage
  induction page with
  | nil => rfl
  | cons e rest ih =>
    rw [List.pairwise_cons] at hunmarked
    rw [cutAfter, ih hunmarked.2]
    split
    · next hlast =>
      cases rest with
      | nil => rfl
      | cons b rest =>
        have := hunmarked.1 b List.mem_cons_self
        simp_all
    · rfl

/-- Behind a page of the records that meet a stretch there are no others,
or the next request finds exactly them. -/
theorem nextStart_page (h : IsLayout records) {start : UInt64} {stop : Nat}
    {page rest : List RawExtent}
    (hsplit : records.filter (Meets start.toNat stop) = page ++ rest)
    (hempty : page = [] → rest = []) :
    (nextStart start page = none ∧ rest = []) ∨
      ∃ next, nextStart start page = some next ∧
        records.filter (Meets next.toNat stop) = rest := by
  unfold nextStart
  cases htail : page.getLast? with
  | none => exact .inl ⟨rfl, hempty (List.getLast?_eq_none_iff.1 htail)⟩
  | some tail =>
    -- the last record of the page meets what is asked for, so it ends past the
    -- start
    obtain ⟨front, rfl⟩ := List.getLast?_eq_some_iff.1 htail
    have hmem : tail ∈ records.filter (Meets start.toNat stop) := by
      rw [hsplit]
      simp only [List.append_assoc, List.mem_append, List.mem_cons,
        true_or, or_true]
    obtain ⟨hmem, hmeets⟩ := List.mem_filter.1 hmem
    have hmeets := meets_iff.1 (of_decide_eq_true hmeets)
    have hend := h.nextLogical_eq hmem
    have hpast : start < tail.nextLogical :=
      UInt64.lt_iff_toNat_lt.2 (by omega)
    by_cases hlast : tail.isLast
    · refine .inl ⟨by simp only [hlast, if_true], ?_⟩
      have hunmarked := h.unmarked.filter (Meets start.toNat stop ·)
      rw [hsplit, List.append_assoc, List.singleton_append] at hunmarked
      have hunmarked := (List.pairwise_cons.1
        (List.pairwise_append.1 hunmarked).2.1).1
      -- only the last record of the layout is marked
      refine List.eq_nil_iff_forall_not_mem.2 fun e he => ?_
      exact Bool.noConfusion (hlast.symm.trans (hunmarked e he))
    · refine .inr ⟨tail.nextLogical, ?_, h.filter_behind hsplit htail⟩
      simp only [if_neg hlast, if_pos hpast]

end IsLayout

-- ============================================================== walking

variable {σ : Type}

/-- A source that answers with the first of the records that have a byte
of the stretch asked for, as many as there is room for and untrimmed. -/
def Serves (source : FileSource σ) (records : List RawExtent) : Prop :=
  ∀ {capacity : Nat} (b : FileBuffer capacity) (s : σ),
    capacity < UInt32.size →
    ∃ answer s', source.answer b s = (.ok answer, s') ∧
      answer.answered = (records.filter (Meets b.request.start.toNat
        (b.request.start.toNat + b.request.length.toNat))).take capacity

namespace Trace

variable {ρ α β : Type}

theorem items_ask (r : ρ) (t : Trace ρ α) :
    items (.ask r :: t) = items t := rfl

theorem items_append (t u : Trace ρ α) :
    items (t ++ u) = items t ++ items u :=
  List.filterMap_append

theorem items_give (f : β → α) (records : List β) :
    items (records.map fun e => (Step.give (f e) : Step ρ α))
      = records.map fun e => .ok (f e) := by
  rw [items, List.filterMap_map]
  exact congrFun List.filterMap_eq_map' records

end Trace

section Walk

variable (source : FileSource σ) (capacity : Nat) (flags : UInt32)
  {start stop : UInt64} {s s' : σ}

theorem walkFile_of_le (h : ¬ start < stop) :
    walkFile source capacity flags start stop s = ([], s) := by
  rw [walkFile, dif_neg h]

theorem items_walkFile_error {e : Error} (h : start < stop)
    (hanswer : source.answer (FileBuffer.prepare capacity
      ⟨start, stop - start, flags⟩) s = (.error e, s')) :
    (walkFile source capacity flags start stop s).1.items = [.error e] := by
  rw [walkFile, dif_pos h]
  simp only [hanswer]
  rfl

/-- What the walk gives when a request is answered: the page, and then
whatever the next request leads to. -/
theorem items_walkFile_ok {buffer : FileBuffer capacity} (h : start < stop)
    (hanswer : source.answer (FileBuffer.prepare capacity
      ⟨start, stop - start, flags⟩) s = (.ok buffer, s')) :
    (walkFile source capacity flags start stop s).1.items =
      (cutAfter (·.isLast) buffer.answered).map (fun e => .ok e.clearLast)
        ++ match nextStart start (cutAfter (·.isLast) buffer.answered) with
          | none => []
          | some next =>
            (walkFile source capacity flags next stop s').1.items := by
  rw [walkFile, dif_pos h]
  simp only [hanswer]
  split <;> rename_i hnext <;>
    simp only [hnext, Trace.items_ask, Trace.items_append,
      Trace.items_give, List.append_nil]

end Walk

/-- The walk gives the records that meet its stretch, each once and in
order, and never fails. -/
theorem IsLayout.items_walkFile {records : List RawExtent}
    (h : IsLayout records) {source : FileSource σ}
    (hserves : Serves source records) {capacity : Nat}
    (hroom : 0 < capacity) (hcount : capacity < UInt32.size)
    (flags : UInt32) (stop : UInt64) :
    ∀ (start : UInt64) (s : σ),
      (walkFile source capacity flags start stop s).1.items =
        (records.filter (Meets start.toNat stop.toNat)).map
          fun e => .ok e.clearLast := by
  intro start
  -- on the bytes that are left: each page but the last moves the start on
  induction hleft : stop.toNat - start.toNat using
    Nat.strong_induction_on generalizing start with
  | _ left ih =>
  intro s
  by_cases hlt : start < stop
  swap
  · have hle : stop.toNat ≤ start.toNat :=
      Nat.le_of_not_lt fun hlt' => hlt (UInt64.lt_iff_toNat_lt.2 hlt')
    rw [walkFile_of_le _ _ _ hlt, List.filter_eq_nil_iff.2]
    · rfl
    · intro e _ hmeet
      have hmeet := meets_iff.1 (of_decide_eq_true hmeet)
      omega
  have hltNat := UInt64.lt_iff_toNat_lt.1 hlt
  obtain ⟨answer, s', hanswer, hpage⟩ := hserves
    (FileBuffer.prepare capacity ⟨start, stop - start, flags⟩) s hcount
  rw [items_walkFile_ok _ _ _ hlt hanswer]
  have hstop : start.toNat + (stop - start).toNat = stop.toNat := by
    rw [UInt64.toNat_sub_of_le _ _ (UInt64.le_of_lt hlt)]
    omega
  simp only [FileBuffer.request_prepare, hstop] at hpage
  have hsub : answer.answered.Sublist records := by
    rw [hpage]
    exact (List.take_sublist _ _).trans List.filter_sublist
  rw [h.cutAfter_page hsub]
  -- the page is as many of the records that are left as there is room for
  have hsplit := List.take_append_drop capacity
    (records.filter (Meets start.toNat stop.toNat))
  have hempty : answer.answered = [] →
      (records.filter (Meets start.toNat stop.toNat)).drop capacity = [] := by
    intro hnil
    rw [hpage, List.take_eq_nil_iff] at hnil
    rw [hnil.resolve_left (Nat.ne_of_gt hroom), List.drop_nil]
  rw [← hpage] at hsplit
  rcases h.nextStart_page hsplit.symm hempty with
    ⟨hnone, hrest⟩ | ⟨next, hsome, hrest⟩
  · rw [hnone, ← hsplit, hrest, List.append_nil, List.append_nil]
  · have hgrows := UInt64.lt_iff_toNat_lt.1 (lt_of_nextStart hsome)
    rw [hsome]
    simp only
    rw [ih _ (by omega) next rfl, hrest, ← List.map_append, hsplit]

end Mapping

end DiskAtlas
